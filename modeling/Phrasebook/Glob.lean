/-!
Glob patterns: a star stands for any run of characters, slashes included, a question mark for
any one character, and brackets for one character of a set. Everything else stands for itself,
and a bracket that is never closed does too.
-/

namespace Phrasebook.Glob

inductive Piece where
  | star
  | any
  | one (c : Char)
  /-- One character within some range, or within none of them. -/
  | set (negated : Bool) (ranges : List (Char × Char))
  deriving DecidableEq, Repr

/-! ### Sets -/

/-- Cuts the inside of brackets at the hyphens that make ranges. A hyphen counts from the second
character of a chunk on, or from the third once there has been one. -/
def chunksFrom (chunk : List Char) (wait : Nat) : List Char → List (List Char)
  | [] => [chunk.reverse]
  | c :: rest =>
      match wait with
      | n + 1 => chunksFrom (c :: chunk) n rest
      | 0 =>
          if c == '-' then chunk.reverse :: chunksFrom [] 2 rest else chunksFrom (c :: chunk) 0 rest

/-- A hyphen at the very end is a character like any other. -/
def closeHyphen : List (List Char) → List (List Char)
  | [chunk, []] => [chunk ++ ['-']]
  | chunk :: rest => chunk :: closeHyphen rest
  | [] => []

def chunks (inside : List Char) : List (List Char) :=
  closeHyphen (chunksFrom [] (if inside.head? == some '!' then 2 else 1) inside)

/-- Takes away ranges that run backwards, with both of their ends. -/
def dropBackward : List (List Char) → List (List Char)
  | [] => []
  | chunk :: rest =>
      match dropBackward rest, chunk.getLast? with
      | (first :: tail) :: more, some last =>
          if first < last then (chunk.dropLast ++ tail) :: more
          else chunk :: (first :: tail) :: more
      | more, _ => chunk :: more

/-- The ranges inside and between chunks, from a first chunk on. -/
def rangesFrom (chunk : List Char) : List (List Char) → List (Char × Char)
  | [] => chunk.map fun c => (c, c)
  | next :: more =>
      match chunk.getLast?, next with
      | some last, first :: tail =>
          chunk.dropLast.map (fun c => (c, c)) ++ (last, first) :: rangesFrom tail more
      | _, _ => ('-', '-') :: rangesFrom next more

/-- The set that the inside of brackets describes. An exclamation mark in front turns it around;
with nothing after it, it leaves every character. -/
def setOf (inside : List Char) : Piece :=
  match dropBackward (chunks inside) with
  | ('!' :: chunk) :: more => .set true (rangesFrom chunk more)
  | chunk :: more => .set false (rangesFrom chunk more)
  | [] => .set false []

/-- How many characters stand inside brackets, up to the closing one. A closing bracket that
comes first is part of the set. -/
def insideLength? (text : List Char) : Option Nat :=
  let mark := if text.head? == some '!' then 1 else 0
  let first := if (text.drop mark).head? == some ']' then mark + 1 else mark
  let rest := text.drop first
  if rest.contains ']' then some (first + (rest.takeWhile (· != ']')).length) else none

/-! ### Patterns -/

/-- Reads a pattern after passing over some characters. -/
def piecesFrom : Nat → List Char → List Piece
  | _, [] => []
  | n + 1, _ :: rest => piecesFrom n rest
  | 0, c :: rest =>
      if c == '*' then .star :: piecesFrom (rest.takeWhile (· == '*')).length rest
      else if c == '?' then .any :: piecesFrom 0 rest
      else if c == '[' then
        match insideLength? rest with
        | some n => setOf (rest.take n) :: piecesFrom (n + 1) rest
        | none => .one '[' :: piecesFrom 0 rest
      else .one c :: piecesFrom 0 rest

def pieces (pattern : List Char) : List Piece := piecesFrom 0 pattern

def suffixes : List Char → List (List Char)
  | [] => [[]]
  | c :: rest => (c :: rest) :: suffixes rest

def Piece.accepts (c : Char) : Piece → Bool
  | star | any => true
  | one d => c == d
  | set negated ranges => (ranges.any fun r => r.1 ≤ c && c ≤ r.2) != negated

/-- Whether pieces match a whole text. -/
def matchPieces : List Piece → List Char → Bool
  | [], text => text.isEmpty
  | .star :: more, text => (suffixes text).any (matchPieces more)
  | piece :: more, c :: rest => piece.accepts c && matchPieces more rest
  | _ :: _, [] => false

/-- Whether a pattern matches a whole text. -/
def accepts (pattern text : List Char) : Bool := matchPieces (pieces pattern) text

end Phrasebook.Glob

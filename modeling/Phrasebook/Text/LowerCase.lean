import Phrasebook.Text.LowerCase.Table

/-!
Lower case for the letters of all scripts. A capital sigma at the end of a word becomes the final
form of the letter, and the dotted capital I becomes two characters; every other letter becomes
one.
-/

namespace Phrasebook.Text

namespace LowerCase

def inRanges (ranges : List (Nat × Nat)) (c : Char) : Bool :=
  ranges.any fun r => r.1 ≤ c.toNat && c.toNat ≤ r.2

def isCased (c : Char) : Bool := inRanges casedRanges c

def isIgnorable (c : Char) : Bool := inRanges ignorableRanges c

def Run.holds (r : Run) (n : Nat) : Bool :=
  r.first ≤ n && n ≤ r.last && (n - r.first) % r.stride == 0

/-- The lower case of a letter by itself. -/
def lowerChar (c : Char) : List Char :=
  if c == 'İ' then ['i', '\u0307']
  else match runs.find? (·.holds c.toNat) with
    | some r => [Char.ofNat (r.lower + (c.toNat - r.first))]
    | none => [c]

/-- Whether the nearest character that counts has a case. -/
def nextToCased (text : List Char) : Bool := (text.dropWhile isIgnorable).head?.any isCased

/-- Lowers a text, given the characters before it from the last to the first. -/
def lowerFrom (before : List Char) : List Char → List Char
  | [] => []
  | c :: rest =>
      let lowered :=
        if c == 'Σ' then [if nextToCased before && !nextToCased rest then 'ς' else 'σ']
        else lowerChar c
      lowered ++ lowerFrom (c :: before) rest

end LowerCase

def lower (text : List Char) : List Char := LowerCase.lowerFrom [] text

end Phrasebook.Text

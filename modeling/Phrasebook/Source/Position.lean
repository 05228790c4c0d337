import Phrasebook.Source.Node

/-!
Places in a text. Offsets count the bytes of UTF-8; a position counts lines from one, ended by
line feeds only, and columns from zero, in characters.
-/

namespace Phrasebook.Source

structure Position where
  line : Nat
  column : Nat
  deriving DecidableEq, Repr, Inhabited

namespace Position

/-- The position `bytes` further on in a text that begins at `p`. -/
def after (p : Position) : List Char → Nat → Position
  | [], _ => p
  | c :: r, bytes =>
      if bytes == 0 then p
      else after (if c == '\n' then ⟨p.line + 1, 0⟩ else ⟨p.line, p.column + 1⟩) r
        (bytes - c.utf8Size)

def ofOffset (text : List Char) (offset : Nat) : Position := after ⟨1, 0⟩ text offset

end Position

/-- The text from an offset on. -/
def dropBytes (bytes : Nat) : List Char → List Char
  | [] => []
  | c :: r => if bytes == 0 then c :: r else dropBytes (bytes - c.utf8Size) r

/-- The text up to an offset. -/
def takeBytes (bytes : Nat) : List Char → List Char
  | [] => []
  | c :: r => if bytes == 0 then [] else c :: takeBytes (bytes - c.utf8Size) r

/-- The text between two offsets. -/
def excerpt (text : List Char) (span : Span) : List Char :=
  takeBytes (span.stop - span.start) (dropBytes span.start text)

/-- The lines of a text, without their line feeds. -/
def splitLines : List Char → List (List Char)
  | [] => [[]]
  | c :: r =>
      if c == '\n' then [] :: splitLines r
      else match splitLines r with
        | [] => [[c]]
        | line :: lines => (c :: line) :: lines

/-- A line by its number, counted from one; other numbers give an empty line. -/
def lineText (text : List Char) (line : Nat) : List Char :=
  if line == 0 then [] else (splitLines text).getD (line - 1) []

end Phrasebook.Source

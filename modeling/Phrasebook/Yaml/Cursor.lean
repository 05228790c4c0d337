import Phrasebook.Text.Escape

/-!
A place in a YAML text: what is left to read, and the line and column it begins in. Lines end at
line feeds and at the three Unicode line ends.
-/

namespace Phrasebook.Yaml

structure Cursor where
  rest : List Char
  line : Nat
  column : Nat
  /-- How many characters have been read. -/
  offset : Nat
  deriving Repr

/-- Why a scalar that is written like a number, a date or a character is none. -/
inductive Impossible where
  /-- A number has nothing but underscores for its digits. -/
  | noDigits (base : Nat)
  /-- There is no year zero. -/
  | year
  /-- The month is not that long. -/
  | day
  /-- A month, or a part of a time, is out of bounds. -/
  | part (name : String) (least most : Nat)
  /-- A zone is a whole day away or more, by its minutes. -/
  | zone (minutes : Int)
  | character (f : Text.Escape.Fault)
  deriving DecidableEq, Repr

/-- A span of time in days and seconds. -/
def shownSpan (minutes : Int) : String :=
  let days := minutes.fdiv 1440
  let seconds := 60 * minutes.fmod 1440
  let parts := [("days", days), ("seconds", seconds)].filter fun (_, n) => n != 0
  "datetime.timedelta(" ++ ", ".intercalate (parts.map fun (name, n) => s!"{name}={n}") ++ ")"

def Impossible.message : Impossible → String
  | noDigits base => s!"invalid literal for int() with base {base}: ''"
  | year => "year 0 is out of range"
  | day => "day is out of range for month"
  | part name least most => s!"{name} must be in {least}..{most}"
  | zone minutes =>
      "offset must be a timedelta strictly between -timedelta(hours=24) and " ++
        s!"timedelta(hours=24), not {shownSpan minutes}."
  | character f => f.message

/-- Why a text is no YAML. -/
inductive Fault where
  /-- The text makes no sense from a place on. -/
  | unexpected (line column : Nat)
  /-- The parts of the text do not fit together. -/
  | misplaced
  /-- A collection cannot be a key. -/
  | collectionKey
  /-- A scalar means something that settings do not have. -/
  | unsupported (text : List Char)
  /-- A scalar is written like something that does not exist. -/
  | impossible (why : Impossible)
  deriving DecidableEq, Repr

def Fault.message : Fault → String
  | unexpected line column => s!"unexpected text at line {line + 1}, column {column + 1}"
  | misplaced => "the blocks and brackets do not fit together"
  | collectionKey => "a collection cannot be a key"
  | unsupported text => s!"unsupported scalar {String.ofList text}"
  | impossible why => why.message

def isBreak (c : Char) : Bool :=
  c == '\n' || c == '\r' || c == '\x85' || c == '\u2028' || c == '\u2029'

/-- Blanks, tabs and line ends. -/
def isWhite (c : Char) : Bool := c == ' ' || c == '\t' || isBreak c

/-- Whether nothing follows, or white space. -/
def endsWord (text : List Char) : Bool := text.head?.all isWhite

/-- Three hyphens or dots that stand alone, which is how documents begin and end. -/
def isSeparator : List Char → Bool
  | '-' :: '-' :: '-' :: r => endsWord r
  | '.' :: '.' :: '.' :: r => endsWord r
  | _ => false

namespace Cursor

def start (text : List Char) : Cursor := ⟨text, 0, 0, 0⟩

def fault (c : Cursor) : Fault := .unexpected c.line c.column

def head? (c : Cursor) : Option Char := c.rest.head?

/-- Passes over one character. -/
def next (c : Cursor) : Cursor :=
  match c.rest with
  | [] => c
  | ch :: rest =>
      if isBreak ch then ⟨rest, c.line + 1, 0, c.offset + 1⟩
      else if ch == '\ufeff' then ⟨rest, c.line, c.column, c.offset + 1⟩
      else ⟨rest, c.line, c.column + 1, c.offset + 1⟩

def skip : Nat → Cursor → Cursor
  | 0, c => c
  | n + 1, c => skip n c.next

def skipWhile (p : Char → Bool) (c : Cursor) : Cursor := c.skip (c.rest.takeWhile p).length

/-- Passes over a line end, if one comes next, and tells what it stands for. -/
def lineBreak? (c : Cursor) : Option (Char × Cursor) :=
  match c.rest with
  | ch :: _ =>
      if ch == '\u2028' || ch == '\u2029' then some (ch, c.next)
      else if isBreak ch then some ('\n', c.next)
      else none
  | [] => none

end Cursor

end Phrasebook.Yaml

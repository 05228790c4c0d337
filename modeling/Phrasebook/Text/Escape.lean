import Phrasebook.Text.CodePoint
import Phrasebook.Text.Digit

/-!
Escape sequences of quoted strings: how they are decoded, and how a key or a module name is
written so that decoding gives it back.
-/

namespace Phrasebook.Text.Escape

/-- Why an escape sequence stands for no code point. -/
inductive Fault where
  /-- Its number is above the last code point. -/
  | outOfRange
  /-- Its number does not even fit a machine integer of 32 bits with sign. -/
  | overflow
  deriving DecidableEq, Repr

def Fault.message : Fault → String
  | outOfRange => "chr() arg not in range(0x110000)"
  | overflow => "Python int too large to convert to C int"

def codePoint (n : Nat) : Except Fault Points :=
  if h : n < 0x110000 then .ok [⟨n, h⟩]
  else if n < 0x80000000 then .error .outOfRange
  else .error .overflow

/-- Letters that stand for a control character after a backslash. -/
def control (c : Char) : Char :=
  match c with
  | 'n' => '\n'
  | 't' => '\t'
  | 'r' => '\r'
  | 'b' => '\x08'
  | 'f' => '\x0c'
  | 'v' => '\x0b'
  | '0' => '\x00'
  | c => c

/-- The digits in braces after `\u`, if that is what follows. -/
def bracedDigits : List Char → Option (List Char)
  | '\x7b' :: r =>
      let digits := r.takeWhile isHex
      if !digits.isEmpty && (r.drop digits.length).head? == some '\x7d' then some digits else none
  | _ => none

/-- The first `n` characters, if they are hexadecimal digits. -/
def fixedDigits (n : Nat) (r : List Char) : Option (List Char) :=
  if (r.take n).length == n && (r.take n).all isHex then some (r.take n) else none

/-- What stands after a backslash: how many characters it takes, and what it means. A line end
after a backslash means nothing. -/
def meaning : List Char → Option (Nat × Except Fault Points)
  | [] => none
  | c :: r =>
      let plain : Nat × Except Fault Points := (1, .ok [CodePoint.ofChar (control c)])
      if c == 'u' then
        match bracedDigits r, fixedDigits 4 r with
        | some digits, _ => some (digits.length + 3, codePoint (numeral 16 digits))
        | none, some digits => some (5, codePoint (numeral 16 digits))
        | none, none => some plain
      else if c == 'x' then
        match fixedDigits 2 r with
        | some digits => some (3, codePoint (numeral 16 digits))
        | none => some plain
      else if c == '\r' then
        if r.head? == some '\n' then some (2, .ok []) else some (1, .ok [])
      else if c == '\n' || c.toNat == 0x2028 || c.toNat == 0x2029 then some (1, .ok [])
      else some plain

/-- Decodes a text of which the first `skip` characters belong to an escape already read. -/
def decodeFrom (skip : Nat) : List Char → Except Fault Points
  | [] => .ok []
  | c :: r =>
      match skip with
      | skip + 1 => decodeFrom skip r
      | 0 =>
          if c == '\\' then
            match meaning r with
            | some (n, .ok points) => (decodeFrom n r).map (points ++ ·)
            | some (_, .error f) => .error f
            | none => (decodeFrom 0 r).map (CodePoint.ofChar c :: ·)
          else (decodeFrom 0 r).map (CodePoint.ofChar c :: ·)

def decode (text : List Char) : Except Fault Points := decodeFrom 0 text

/-- Decodes the text of a template, where a line end is a single line feed. -/
def unifyLineEnds : List Char → List Char
  | '\r' :: '\n' :: r => '\n' :: unifyLineEnds r
  | c :: r => c :: unifyLineEnds r
  | [] => []

/-! ### Writing -/

def hexDigit (n : Nat) : Char :=
  if n < 10 then Char.ofNat ('0'.toNat + n) else Char.ofNat ('a'.toNat + (n - 10))

/-- A character between double quotes. Control characters, the quote and the backslash are
escaped, and nothing else is. -/
def quotedChar (c : Char) : List Char :=
  if c == '"' then ['\\', '"']
  else if c == '\\' then ['\\', '\\']
  else if c == '\n' then ['\\', 'n']
  else if c == '\r' then ['\\', 'r']
  else if c == '\t' then ['\\', 't']
  else if c == '\x08' then ['\\', 'b']
  else if c == '\x0c' then ['\\', 'f']
  else if c.toNat < 0x20 then
    ['\\', 'u', '0', '0', hexDigit (c.toNat / 16), hexDigit (c.toNat % 16)]
  else [c]

/-- The text between the double quotes of a string literal. -/
def quotedBody (text : List Char) : List Char := text.flatMap quotedChar

def quoted (text : List Char) : List Char := '"' :: quotedBody text ++ ['"']

/-- The text of a module name between quotes: backslashes are doubled, and every part that is
the quote itself gets a backslash. -/
def specifierChar (quote : Char) (c : Char) : List Char :=
  if c == '\\' then ['\\', '\\']
  else if c == quote then ['\\', c]
  else [c]

def specifierBody (quote : Char) (text : List Char) : List Char :=
  text.flatMap (specifierChar quote)

end Phrasebook.Text.Escape

import Phrasebook.Text.CharacterReference.Names
import Phrasebook.Text.Digit

/-!
Character references in markup text, decoded as browsers do: a reference may lack its semicolon,
a name may be followed by further letters, numbers in the range of the C1 controls mean the
characters of Windows-1252, and numbers that are no code point give the replacement character.
-/

namespace Phrasebook.Text.CharacterReference

/-- What the numbers 128 to 159 mean. -/
def windowsTable : List Nat :=
  [0x20ac, 0x81, 0x201a, 0x0192, 0x201e, 0x2026, 0x2020, 0x2021, 0x02c6, 0x2030, 0x0160, 0x2039,
    0x0152, 0x8d, 0x017d, 0x8f, 0x90, 0x2018, 0x2019, 0x201c, 0x201d, 0x2022, 0x2013, 0x2014,
    0x02dc, 0x2122, 0x0161, 0x203a, 0x0153, 0x9d, 0x017e, 0x0178]

/-- Control characters and noncharacters, which a reference cannot produce. -/
def isForbidden (n : Nat) : Bool :=
  (1 ≤ n && n ≤ 8) || n == 0x0b || (0x0e ≤ n && n ≤ 0x1f) || n == 0x7f ||
    (0xfdd0 ≤ n && n ≤ 0xfdef) || n % 0x10000 == 0xfffe || n % 0x10000 == 0xffff

def ofNumber (n : Nat) : List Char :=
  if n == 0 then ['�']
  else if 0x80 ≤ n && n ≤ 0x9f then
    [Char.ofNat (windowsTable.getD (n - 0x80) n)]
  else if (0xd800 ≤ n && n ≤ 0xdfff) || 0x10ffff < n then ['�']
  else if isForbidden n then []
  else [Char.ofNat n]

/-- A number in the given base with an optional semicolon: the characters it takes and its
meaning, after `lead` characters already read. -/
def numeric (lead base : Nat) (digit : Char → Bool) (r : List Char) : Option (Nat × List Char) :=
  let digits := r.takeWhile digit
  if digits.isEmpty then none
  else
    let semicolon := if (r.drop digits.length).head? == some ';' then 1 else 0
    some (lead + digits.length + semicolon,
      ofNumber (numeral base digits))

def lookup (name : List Char) : Option (List Char) :=
  match name with
  | [] => none
  | c :: _ => ((names c).lookup (String.ofList name)).map String.toList

/-- The longest beginning of a name, of at least two characters, that is a reference. -/
def longest (name : List Char) : Nat → Option (List Char)
  | 0 => none
  | n + 1 =>
      if n + 1 < 2 then none
      else match lookup (name.take (n + 1)) with
        | some value => some (value ++ name.drop (n + 1))
        | none => longest name n

def inName (c : Char) : Bool :=
  !(c == '\t' || c == '\n' || c == '\x0c' || c == ' ' || c == '<' || c == '&' || c == '#' ||
    c == ';')

def named (r : List Char) : Option (Nat × List Char) :=
  let stem := (r.take 32).takeWhile inName
  if stem.isEmpty then none
  else
    let name := if (r.drop stem.length).head? == some ';' then stem ++ [';'] else stem
    let value :=
      match lookup name with
      | some value => value
      | none => (longest name (name.length - 1)).getD ('&' :: name)
    some (name.length, value)

/-- What stands after an ampersand: the characters it takes, and what they mean together with
the ampersand. -/
def meaning (r : List Char) : Option (Nat × List Char) :=
  match r with
  | '#' :: 'x' :: r' => numeric 2 16 isHex r'
  | '#' :: 'X' :: r' => numeric 2 16 isHex r'
  | '#' :: r' => numeric 1 10 Char.isDigit r'
  | r => named r

/-- Decodes a text of which the first `skip` characters belong to a reference already read. -/
def decodeFrom (skip : Nat) : List Char → List Char
  | [] => []
  | c :: r =>
      match skip with
      | skip + 1 => decodeFrom skip r
      | 0 =>
          if c == '&' then
            match meaning r with
            | some (n, value) => value ++ decodeFrom n r
            | none => c :: decodeFrom 0 r
          else c :: decodeFrom 0 r

def decode (text : List Char) : List Char := decodeFrom 0 text

end Phrasebook.Text.CharacterReference

import Phrasebook.Text.CodePoint
import Phrasebook.Text.Printable

/-!
Text between quotes, as it is shown to a user. Single quotes are taken unless the text holds
some and no double ones; what cannot be printed is written as an escape.
-/

namespace Phrasebook.Text

namespace Quoted

/-- A number in hexadecimal digits, filled up with zeros. -/
def hex (width n : Nat) : List Char :=
  let digits := Nat.toDigits 16 n
  List.replicate (width - digits.length) '0' ++ digits

def escaped (n : Nat) : List Char :=
  if n ≤ 0xff then '\\' :: 'x' :: hex 2 n
  else if n ≤ 0xffff then '\\' :: 'u' :: hex 4 n
  else '\\' :: 'U' :: hex 8 n

def shownPoint (quote : Char) (p : CodePoint) : List Char :=
  match p.toChar? with
  | some '\t' => ['\\', 't']
  | some '\n' => ['\\', 'n']
  | some '\r' => ['\\', 'r']
  | some c =>
      if c == '\\' || c == quote then ['\\', c]
      else if isPrintableCode p.val then [c]
      else escaped p.val
  | none => escaped p.val

def quoteFor (text : Points) : Char :=
  if text.contains (.ofChar '\'') && !text.contains (.ofChar '"') then '"' else '\''

end Quoted

/-- The text in quotes. -/
def shown (text : Points) : List Char :=
  let quote := Quoted.quoteFor text
  quote :: text.flatMap (Quoted.shownPoint quote) ++ [quote]

def shownChars (text : List Char) : String := String.ofList (shown (.ofChars text))

def shownString (text : String) : String := shownChars text.toList

end Phrasebook.Text

import Phrasebook.Key.Word
import Phrasebook.Path
import Phrasebook.Text.Digest
import Phrasebook.Text.Space

/-!
Names for interface texts: a key is a namespace, taken from the file, and a slug of the first
words of the text. Long texts are told apart by a short hash.
-/

namespace Phrasebook.Key

open Text

def maxWords : Nat := 6

def maxLength : Nat := 64

def hashLength : Nat := 4

def base36Digit (n : Nat) : Char :=
  if n < 10 then Char.ofNat ('0'.toNat + n) else Char.ofNat ('a'.toNat + (n - 10))

/-- The last `width` digits of a number in base 36. -/
def base36 (value : Nat) : Nat → List Char
  | 0 => []
  | width + 1 => base36 (value / 36) width ++ [base36Digit (value % 36)]

/-- A short hash: the last digits of the digest in base 36. -/
def shortHash (text : List Char) (length : Nat) : List Char := base36 (Digest.value text) length

/-- Cuts a slug to a length, and not behind an underscore. -/
def shorten (slug : List Char) (length : Nat) : List Char :=
  trimRight (· == '_') (slug.take length)

def isKept (c : Char) : Bool := c.isAlphanum || isSpace c

/-- The words of a text between white space, without any but plain letters and digits. -/
def plainWords (text : List Char) : List (List Char) :=
  ((text.filter isKept).splitBy fun a b => isSpace a == isSpace b).filter
    fun w => !w.any isSpace

/-- A key for a text. Where a text has no letters or digits, the time stands for them. -/
def suggest (milliseconds : Nat) (text nameSpace : List Char) : List Char :=
  let words := (plainWords text).map (·.map Char.toLower)
  let slug := ['_'].intercalate ((words.take maxWords).flatMap slugWords)
  let hash := if maxWords < words.length then '_' :: shortHash text hashLength else []
  let body :=
    if slug.isEmpty then "text_".toList ++ (toString milliseconds).toList
    else if maxLength < slug.length + hash.length then
      shorten slug (maxLength - hash.length) ++ hash
    else slug ++ hash
  nameSpace ++ '.' :: body

/-- A file name up to its last dot, if there is a dot after those in front. -/
def stem (name : List Char) : List Char :=
  if (name.dropWhile (· == '.')).contains '.' then
    ((name.reverse.dropWhile (· != '.')).drop 1).reverse
  else name

/-- The namespace of a file: a slug of its name. -/
def fileNamespace (path fallback : List Char) : List Char :=
  let slashes := path.map fun c => if c == '\\' then '/' else c
  let short := shorten (slug (stem (Path.ofChars slashes).name)) maxLength
  if short.isEmpty then fallback else short

end Phrasebook.Key

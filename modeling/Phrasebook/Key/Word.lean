import Phrasebook.Text.Digit

/-!
Splitting a name into words: humps of mixed case, runs of capitals, runs of digits, and ordinal
numbers such as `1st`. Only the letters of ASCII belong to words, but decimal digits of every
script do.
-/

namespace Phrasebook.Key

open Text

def isLower (c : Char) : Bool := 'a' ≤ c && c ≤ 'z'

def isUpper (c : Char) : Bool := 'A' ≤ c && c ≤ 'Z'

def isWordChar (c : Char) : Bool := isLower c || isUpper c || isDecimal c

/-- The two letters that make an ordinal of a number with this last digit. -/
def ordinalLetters (last : Char) : List Char :=
  if last == '1' then ['s', 't']
  else if last == '2' then ['n', 'd']
  else if last == '3' then ['r', 'd']
  else ['t', 'h']

/-- Digits, with ordinal letters if they end a word. -/
def digitsLength (text : List Char) : Nat :=
  let digits := text.takeWhile isDecimal
  let rest := text.drop digits.length
  match digits.getLast? with
  | none => 0
  | some last =>
      if (ordinalLetters last).isPrefixOf rest && !((rest.drop 2).head?.any isLower) then
        digits.length + 2
      else digits.length

/-- Capitals; before a small letter the last of them begins a word of its own. -/
def capitalsLength (text : List Char) : Nat :=
  let capitals := (text.takeWhile isUpper).length
  let small := ((text.drop capitals).takeWhile isLower).length
  if small == 0 then capitals
  else if capitals == 1 then 1 + small
  else capitals - 1

/-- The length of the word at the front of a text, zero if none begins there. -/
def wordLength (text : List Char) : Nat :=
  match text with
  | [] => 0
  | c :: _ =>
      if isDecimal c then digitsLength text
      else if isUpper c then capitalsLength text
      else (text.takeWhile isLower).length

/-- The words of a text of which the first `skip` characters belong to a word already found. -/
def wordsFrom (skip : Nat) : List Char → List (List Char)
  | [] => []
  | c :: r =>
      match skip with
      | skip + 1 => wordsFrom skip r
      | 0 =>
          let n := wordLength (c :: r)
          if n == 0 then wordsFrom 0 r else (c :: r).take n :: wordsFrom (n - 1) r

def words (text : List Char) : List (List Char) := wordsFrom 0 text

/-- The words in small letters. -/
def slugWords (text : List Char) : List (List Char) := (words text).map (·.map Char.toLower)

def slug (text : List Char) : List Char := ['_'].intercalate (slugWords text)

end Phrasebook.Key

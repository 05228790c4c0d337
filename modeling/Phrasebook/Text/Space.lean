/-!
White space in the wide sense of text processing: the blanks of ASCII, the four separators
U+001C to U+001F, and every Unicode space, but neither the zero width space nor the byte order
mark. Trimming takes such characters off both ends of a list and nothing from its middle.
-/

namespace Phrasebook.Text

def isSpaceCode (n : Nat) : Bool :=
  (0x09 ≤ n && n ≤ 0x0d) || (0x1c ≤ n && n ≤ 0x20) || n == 0x85 || n == 0xa0 || n == 0x1680 ||
    (0x2000 ≤ n && n ≤ 0x200a) || n == 0x2028 || n == 0x2029 || n == 0x202f || n == 0x205f ||
    n == 0x3000

def isSpace (c : Char) : Bool := isSpaceCode c.toNat

section Trim

variable {α : Type} (blank : α → Bool)

def trimLeft (l : List α) : List α := l.dropWhile blank

def trimRight (l : List α) : List α := (l.reverse.dropWhile blank).reverse

def trim (l : List α) : List α := trimRight blank (trimLeft blank l)

/-- What `trimLeft` takes away. -/
def leftMargin (l : List α) : List α := l.takeWhile blank

end Trim

def strip (l : List Char) : List Char := trim isSpace l

def isBlankText (l : List Char) : Bool := l.all isSpace

end Phrasebook.Text

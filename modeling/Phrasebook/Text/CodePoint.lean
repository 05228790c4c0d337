import Phrasebook.Text.Space

/-!
Text made of Unicode code points. An escape sequence may name one half of a surrogate pair,
which is a code point but no character, so decoded text is kept in code points. It can be
written to a file or hashed only if it is free of such halves.
-/

namespace Phrasebook.Text

abbrev CodePoint := Fin 0x110000

namespace CodePoint

theorem toNat_lt (c : Char) : c.toNat < 0x110000 := by
  have h := c.valid
  simp only [UInt32.isValidChar, Nat.isValidChar] at h
  have : c.toNat = c.val.toNat := rfl
  omega

def ofChar (c : Char) : CodePoint := ⟨c.toNat, toNat_lt c⟩

def isSurrogate (p : CodePoint) : Bool := 0xd800 ≤ p.val && p.val ≤ 0xdfff

def toChar? (p : CodePoint) : Option Char :=
  if h : p.val.isValidChar then some (Char.ofNatAux p.val h) else none

end CodePoint

/-- Decoded text. -/
abbrev Points := List CodePoint

namespace Points

def ofChars (l : List Char) : Points := l.map CodePoint.ofChar

def ofString (s : String) : Points := ofChars s.toList

/-- The text as characters, if it holds no surrogate. -/
def toChars? (l : Points) : Option (List Char) := l.mapM CodePoint.toChar?

def strip (l : Points) : Points := trim (fun p => isSpaceCode p.val) l

/-- The first surrogate and the number of surrogates in a row from there on. -/
def surrogates? (l : Points) : Option (Nat × Nat) :=
  match l.findIdx? CodePoint.isSurrogate with
  | some i => some (i, ((l.drop i).takeWhile CodePoint.isSurrogate).length)
  | none => none

end Points

end Phrasebook.Text

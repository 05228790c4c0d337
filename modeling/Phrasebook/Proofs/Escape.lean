import Mathlib.Tactic.IntervalCases
import Phrasebook.Text.Escape

/-!
Writing a key between double quotes, or a module name between quotes of either kind, and decoding it
again gives the text back.
-/

namespace Phrasebook.Text.Escape

theorem isHex_hexDigit {n : Nat} (h : n < 16) : isHex (hexDigit n) = true := by
  interval_cases n <;> rfl

theorem digitValue_hexDigit {n : Nat} (h : n < 16) : digitValue (hexDigit n) = n := by
  interval_cases n <;> rfl

/-- A character is written as an escape of two characters, as a number in four digits or as it
is. -/
theorem quotedChar_cases (c : Char) :
    (∃ e ∈ ['"', '\\', 'n', 'r', 't', 'b', 'f'], quotedChar c = ['\\', e] ∧ control e = c) ∨
    (c.toNat < 0x20 ∧
      quotedChar c = ['\\', 'u', '0', '0', hexDigit (c.toNat / 16), hexDigit (c.toNat % 16)]) ∨
    (c ≠ '"' ∧ c ≠ '\\' ∧ 0x20 ≤ c.toNat ∧ quotedChar c = [c]) := by
  by_cases hpair : c ∈ ['"', '\\', '\n', '\r', '\t', '\x08', '\x0c']
  · refine .inl ?_
    simp only [List.mem_cons, List.not_mem_nil, or_false] at hpair
    rcases hpair with rfl | rfl | rfl | rfl | rfl | rfl | rfl
    · exact ⟨'"', by simp, rfl, rfl⟩
    · exact ⟨'\\', by simp, rfl, rfl⟩
    · exact ⟨'n', by simp, rfl, rfl⟩
    · exact ⟨'r', by simp, rfl, rfl⟩
    · exact ⟨'t', by simp, rfl, rfl⟩
    · exact ⟨'b', by simp, rfl, rfl⟩
    · exact ⟨'f', by simp, rfl, rfl⟩
  · refine .inr ?_
    simp only [List.mem_cons, List.not_mem_nil, or_false, not_or] at hpair
    obtain ⟨hquote, hback, hn, hr, ht, hb, hf⟩ := hpair
    by_cases hlow : c.toNat < 0x20
    · exact .inl ⟨hlow, by simp [quotedChar, hquote, hback, hn, hr, ht, hb, hf, hlow]⟩
    · exact .inr ⟨hquote, hback, by omega,
        by simp [quotedChar, hquote, hback, hn, hr, ht, hb, hf, hlow]⟩

theorem decodeFrom_pair {e : Char} (h : e ∈ ['"', '\\', 'n', 'r', 't', 'b', 'f'])
    (r : List Char) :
    decodeFrom 0 ('\\' :: e :: r) = (decodeFrom 0 r).map (CodePoint.ofChar (control e) :: ·) := by
  simp only [List.mem_cons, List.not_mem_nil, or_false] at h
  rcases h with rfl | rfl | rfl | rfl | rfl | rfl | rfl <;> rfl

theorem meaning_digits {a b : Nat} (ha : a < 16) (hb : b < 16) (r : List Char) :
    meaning ('u' :: '0' :: '0' :: hexDigit a :: hexDigit b :: r) =
      some (5, codePoint (16 * a + b)) := by
  have hfixed : fixedDigits 4 ('0' :: '0' :: hexDigit a :: hexDigit b :: r) =
      some ['0', '0', hexDigit a, hexDigit b] := by
    have hzero : isHex '0' = true := rfl
    simp [fixedDigits, isHex_hexDigit ha, isHex_hexDigit hb, hzero]
  have hnumber : numeral 16 ['0', '0', hexDigit a, hexDigit b] = 16 * a + b := by
    have hzero : digitValue '0' = 0 := rfl
    simp [numeral, digitValue_hexDigit ha, digitValue_hexDigit hb, hzero]
  have hbraced : bracedDigits ('0' :: '0' :: hexDigit a :: hexDigit b :: r) = none := rfl
  simp [meaning, hbraced, hfixed, hnumber]

theorem decodeFrom_digits {a b : Nat} (ha : a < 16) (hb : b < 16) (r : List Char) :
    decodeFrom 0 ('\\' :: 'u' :: '0' :: '0' :: hexDigit a :: hexDigit b :: r) =
      (decodeFrom 0 r).map ((⟨16 * a + b, by omega⟩ : CodePoint) :: ·) := by
  have hpoint : codePoint (16 * a + b) = .ok [⟨16 * a + b, by omega⟩] := dif_pos (by omega)
  rw [decodeFrom]
  simp [meaning_digits ha hb, hpoint, decodeFrom]

theorem decodeFrom_quotedChar (c : Char) (r : List Char) :
    decodeFrom 0 (quotedChar c ++ r) = (decodeFrom 0 r).map (CodePoint.ofChar c :: ·) := by
  rcases quotedChar_cases c with ⟨e, he, hc, rfl⟩ | ⟨hlow, hc⟩ | ⟨-, hback, -, hc⟩
  · rw [hc]
    exact decodeFrom_pair he r
  · have hpoint : (⟨16 * (c.toNat / 16) + c.toNat % 16, by omega⟩ : CodePoint) =
        CodePoint.ofChar c :=
      Fin.ext (Nat.div_add_mod c.toNat 16)
    rw [hc, ← hpoint]
    exact decodeFrom_digits (by omega) (by omega) r
  · rw [hc]
    simp [decodeFrom, hback]

theorem decodeFrom_specifierChar {quote : Char} (hquote : quote = '\'' ∨ quote = '"') (c : Char)
    (r : List Char) :
    decodeFrom 0 (specifierChar quote c ++ r) = (decodeFrom 0 r).map (CodePoint.ofChar c :: ·) := by
  unfold specifierChar
  by_cases hback : c = '\\'
  · subst hback
    exact decodeFrom_pair (by simp) r
  · by_cases hc : c = quote
    · subst hc
      rcases hquote with rfl | rfl <;> rfl
    · simp [decodeFrom, hback, hc]

/-- A text of which each character is written so that it decodes to itself, before any rest. -/
theorem decodeFrom_flatMap {f : Char → List Char}
    (h : ∀ c r, decodeFrom 0 (f c ++ r) = (decodeFrom 0 r).map (CodePoint.ofChar c :: ·))
    (text r : List Char) :
    decodeFrom 0 (text.flatMap f ++ r) = (decodeFrom 0 r).map (Points.ofChars text ++ ·) := by
  induction text with
  | nil =>
    cases hr : decodeFrom 0 r <;> simp [Points.ofChars, Except.map, hr]
  | cons c text ih =>
    rw [List.flatMap_cons, List.append_assoc, h, ih]
    cases decodeFrom 0 r <;> rfl

/-- A text in quotes decodes to itself, and what follows it as it would alone. -/
theorem decode_quotedBody_append (text r : List Char) :
    decode (quotedBody text ++ r) = (decode r).map (Points.ofChars text ++ ·) :=
  decodeFrom_flatMap decodeFrom_quotedChar text r

theorem decode_quotedBody (text : List Char) :
    decode (quotedBody text) = .ok (Points.ofChars text) := by
  have h := decode_quotedBody_append text []
  rw [List.append_nil] at h
  rw [h]
  simp [decode, decodeFrom, Except.map]

theorem decode_specifierBody {quote : Char} (hquote : quote = '\'' ∨ quote = '"')
    (text : List Char) : decode (specifierBody quote text) = .ok (Points.ofChars text) := by
  have h := decodeFrom_flatMap (decodeFrom_specifierChar hquote) text []
  rw [List.append_nil] at h
  rw [decode, specifierBody, h]
  simp [decodeFrom, Except.map]

end Phrasebook.Text.Escape

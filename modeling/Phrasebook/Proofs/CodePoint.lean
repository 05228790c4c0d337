import Phrasebook.Text.CodePoint

/-!
Code points and characters. A text of code points is one of characters exactly if it holds no
surrogate.
-/

namespace Phrasebook.Text

namespace CodePoint

theorem toChar?_ofChar (c : Char) : (ofChar c).toChar? = some c := by
  have hvalid : (ofChar c).val.isValidChar := c.valid
  rw [toChar?, dif_pos hvalid]
  rfl

theorem ofChar_of_toChar? {p : CodePoint} {c : Char} (h : p.toChar? = some c) : ofChar c = p := by
  by_cases hvalid : p.val.isValidChar
  · rw [toChar?, dif_pos hvalid] at h
    obtain rfl := Option.some.inj h
    exact Fin.ext rfl
  · rw [toChar?, dif_neg hvalid] at h
    cases h

theorem isSome_toChar? {p : CodePoint} : p.toChar?.isSome = true ↔ p.val.isValidChar := by
  by_cases h : p.val.isValidChar
  · rw [toChar?, dif_pos h]
    exact iff_of_true rfl h
  · rw [toChar?, dif_neg h]
    exact iff_of_false Bool.false_ne_true h

end CodePoint

namespace Points

theorem toChars?_isSome (l : Points) :
    l.toChars?.isSome = true ↔ ∀ p ∈ l, p.toChar?.isSome = true := by
  induction l with
  | nil => simp [toChars?]
  | cons p l ih =>
    rw [toChars?] at ih
    cases hp : p.toChar? with
    | none => simp [toChars?, hp]
    | some c =>
      cases hl : List.mapM CodePoint.toChar? l with
      | none => simp_all [toChars?]
      | some cs => simp_all [toChars?]

theorem isSome_of_mem_ofChars {cs : List Char} {p : CodePoint} (h : p ∈ ofChars cs) :
    p.toChar?.isSome = true := by
  obtain ⟨c, -, rfl⟩ := List.mem_map.1 h
  rw [CodePoint.toChar?_ofChar]
  rfl

/-- Text made of characters can be written. -/
theorem toChars?_ofChars (cs : List Char) : (ofChars cs).toChars? = some cs := by
  induction cs with
  | nil => rfl
  | cons c cs ih =>
      rw [toChars?, ofChars] at ih
      rw [toChars?, ofChars, List.map_cons, List.mapM_cons, CodePoint.toChar?_ofChar, ih]
      rfl

theorem ofChars_injective {a b : List Char} (h : ofChars a = ofChars b) : a = b := by
  have hchars := congrArg toChars? h
  rwa [toChars?_ofChars, toChars?_ofChars, Option.some.injEq] at hchars

theorem toChars?_eq_some {l : Points} {cs : List Char} :
    l.toChars? = some cs ↔ l = ofChars cs := by
  refine ⟨fun h => ?_, fun h => h ▸ toChars?_ofChars cs⟩
  induction l generalizing cs with
  | nil =>
      obtain rfl := Option.some.inj h
      rfl
  | cons p l ih =>
      rw [toChars?, List.mapM_cons] at h
      obtain ⟨c, hc, h⟩ := Option.bind_eq_some_iff.1 h
      obtain ⟨rest, hrest, h⟩ := Option.bind_eq_some_iff.1 h
      obtain rfl := Option.some.inj h
      rw [ih hrest, ofChars, ofChars, List.map_cons, CodePoint.ofChar_of_toChar? hc]

end Points

end Phrasebook.Text

import Mathlib.Data.List.TakeWhile
import Phrasebook.Key.Word

/-!
The words of a name. Going through a name, a word begins at every letter and digit that belongs to
none so far, and takes letters and digits only. So the words, one after another, are the name
without its other characters.
-/

namespace Phrasebook.Key

open Text

/-! ### One word -/

theorem isWordChar_of_isLower {c : Char} (h : isLower c = true) : isWordChar c = true := by
  rw [isWordChar, h, Bool.true_or, Bool.true_or]

theorem isWordChar_of_isUpper {c : Char} (h : isUpper c = true) : isWordChar c = true := by
  rw [isWordChar, h, Bool.or_true, Bool.true_or]

theorem isWordChar_of_isDecimal {c : Char} (h : isDecimal c = true) : isWordChar c = true := by
  rw [isWordChar, h, Bool.or_true]

theorem ordinalLetters_spec (last : Char) :
    (ordinalLetters last).length = 2 ∧ ∀ c ∈ ordinalLetters last, isLower c = true := by
  unfold ordinalLetters
  split
  · exact ⟨rfl, List.all_eq_true.1 rfl⟩
  · split
    · exact ⟨rfl, List.all_eq_true.1 rfl⟩
    · split <;> exact ⟨rfl, List.all_eq_true.1 rfl⟩

/-- What is taken of a text up to a length that counts such characters only. -/
theorem take_length_takeWhile (p : Char → Bool) (text : List Char) :
    text.take (text.takeWhile p).length = text.takeWhile p :=
  (List.prefix_iff_eq_take.1 (List.takeWhile_prefix p)).symm

/-- A number takes a digit at least, and after its digits only the letters of an ordinal. -/
theorem digitsLength_spec {c : Char} (hc : isDecimal c = true) (r : List Char) :
    0 < digitsLength (c :: r) ∧
      ∀ d ∈ (c :: r).take (digitsLength (c :: r)), isWordChar d = true := by
  have hdigits : ∀ d ∈ (c :: r).takeWhile isDecimal, isWordChar d = true :=
    fun d hd => isWordChar_of_isDecimal (List.mem_takeWhile_imp hd)
  have hpos : 0 < ((c :: r).takeWhile isDecimal).length := by
    rw [List.takeWhile_cons_of_pos hc]
    exact Nat.succ_pos _
  unfold digitsLength
  simp only
  split
  · next hlast =>
    rw [List.getLast?_eq_none_iff] at hlast
    rw [hlast] at hpos
    cases hpos
  · next last hlast =>
    split
    · next hordinal =>
      rw [Bool.and_eq_true, List.isPrefixOf_iff_prefix] at hordinal
      obtain ⟨hlength, hletters⟩ := ordinalLetters_spec last
      have htake := List.prefix_iff_eq_take.1 hordinal.1
      rw [hlength] at htake
      refine ⟨by omega, fun d hd => ?_⟩
      rw [List.take_add, take_length_takeWhile, ← htake, List.mem_append] at hd
      exact hd.elim (hdigits d) fun hd => isWordChar_of_isLower (hletters d hd)
    · rw [take_length_takeWhile]
      exact ⟨hpos, hdigits⟩

/-- Capitals take one of them at least, and then small letters only. -/
theorem capitalsLength_spec {c : Char} (hc : isUpper c = true) (r : List Char) :
    0 < capitalsLength (c :: r) ∧
      ∀ d ∈ (c :: r).take (capitalsLength (c :: r)), isWordChar d = true := by
  have hcapitals : ∀ d ∈ (c :: r).takeWhile isUpper, isWordChar d = true :=
    fun d hd => isWordChar_of_isUpper (List.mem_takeWhile_imp hd)
  have hpos : 0 < ((c :: r).takeWhile isUpper).length := by
    rw [List.takeWhile_cons_of_pos hc]
    exact Nat.succ_pos _
  unfold capitalsLength
  simp only
  split
  · rw [take_length_takeWhile]
    exact ⟨hpos, hcapitals⟩
  · split
    · next hone =>
      refine ⟨by omega, fun d hd => ?_⟩
      rw [← beq_iff_eq.1 hone, List.take_add, take_length_takeWhile, take_length_takeWhile,
        List.mem_append] at hd
      exact hd.elim (hcapitals d) fun hd => isWordChar_of_isLower (List.mem_takeWhile_imp hd)
    · next hone =>
      rw [beq_iff_eq] at hone
      refine ⟨by omega, fun d hd => hcapitals d ?_⟩
      rw [← take_length_takeWhile]
      exact (List.take_sublist_take_left (by omega)).subset hd

theorem wordLength_cons (c : Char) (r : List Char) :
    wordLength (c :: r) = if isDecimal c then digitsLength (c :: r)
      else if isUpper c then capitalsLength (c :: r) else ((c :: r).takeWhile isLower).length := rfl

/-- A word begins at each letter and digit, and holds nothing else. -/
theorem wordLength_spec (c : Char) (r : List Char) :
    (wordLength (c :: r) = 0 ↔ isWordChar c = false) ∧
      ∀ d ∈ (c :: r).take (wordLength (c :: r)), isWordChar d = true := by
  have hbegins {n : Nat} (hn : 0 < n) (hc : isWordChar c = true) : n = 0 ↔ isWordChar c = false :=
    iff_of_false (Nat.ne_of_gt hn) (by simp [hc])
  rw [wordLength_cons]
  split
  · next hc =>
    obtain ⟨hpos, htaken⟩ := digitsLength_spec hc r
    exact ⟨hbegins hpos (isWordChar_of_isDecimal hc), htaken⟩
  · next hdecimal =>
    split
    · next hc =>
      obtain ⟨hpos, htaken⟩ := capitalsLength_spec hc r
      exact ⟨hbegins hpos (isWordChar_of_isUpper hc), htaken⟩
    · next hupper =>
      rw [take_length_takeWhile]
      refine ⟨?_, fun d hd => isWordChar_of_isLower (List.mem_takeWhile_imp hd)⟩
      rw [List.length_eq_zero_iff, List.takeWhile_eq_nil_iff]
      simp [isWordChar, hdecimal, hupper]

/-! ### All words -/

theorem wordsFrom_eq (skip : Nat) (text : List Char) :
    wordsFrom skip text = words (text.drop skip) := by
  induction skip generalizing text with
  | zero => rfl
  | succ skip ih =>
      cases text with
      | nil => rfl
      | cons c r => exact ih r

theorem words_cons (c : Char) (r : List Char) :
    words (c :: r) = if wordLength (c :: r) = 0 then words r
      else (c :: r).take (wordLength (c :: r)) :: words ((c :: r).drop (wordLength (c :: r))) := by
  show (if wordLength (c :: r) == 0 then wordsFrom 0 r
    else (c :: r).take (wordLength (c :: r)) :: wordsFrom (wordLength (c :: r) - 1) r) = _
  rw [wordsFrom_eq, wordsFrom_eq, List.drop_zero]
  cases wordLength (c :: r) with
  | zero => rfl
  | succ n => rfl

/-- The words of a text are its letters and digits, and none of them is empty. -/
theorem words_spec (text : List Char) :
    (words text).flatten = text.filter isWordChar ∧ ∀ w ∈ words text, w ≠ [] := by
  -- each word leaves less of the text
  induction hlength : text.length using Nat.strong_induction_on generalizing text with
  | _ length ih =>
    cases text with
    | nil => exact ⟨rfl, by simp [words, wordsFrom]⟩
    | cons c r =>
        obtain ⟨hzero, htaken⟩ := wordLength_spec c r
        rw [words_cons]
        split
        · next hn =>
          rw [List.filter_cons_of_neg (by simpa using hzero.1 hn)]
          exact ih r.length (by simp [← hlength]) r rfl
        · next hn =>
          generalize wordLength (c :: r) = n at hn htaken
          have hrest := ih ((c :: r).drop n).length (by
            rw [List.length_drop, ← hlength, List.length_cons]
            omega) _ rfl
          refine ⟨?_, List.forall_mem_cons.2 ⟨?_, hrest.2⟩⟩
          · conv => rhs; rw [← List.take_append_drop n (c :: r)]
            rw [List.flatten_cons, hrest.1, List.filter_append, List.filter_eq_self.2 htaken]
          · rw [Ne, List.take_eq_nil_iff]
            simp [hn]

end Phrasebook.Key

import Phrasebook.Proofs.Slug

/-!
The namespace of a file. The words of a file name take decimal digits of every script, and so does
the namespace that is made of them. But for the script of its digits it is a slug of at most 64
characters, which spells the beginning of the name.
-/

namespace Phrasebook.Key

open Text

/-! ### Digits of every script -/

/-- A decimal digit of any script as one of `0` to `9`. -/
def plainDigit (c : Char) : Char :=
  match decimal? c with
  | some d => Char.ofNat ('0'.toNat + d)
  | none => c

theorem decimal?_of_isDecimal {c : Char} (h : isDecimal c = true) :
    ∃ d < 10, decimal? c = some d := by
  obtain ⟨z, hz, hrange⟩ := List.any_eq_true.1 h
  cases hfind : zeros.find? fun z => z ≤ c.toNat && c.toNat < z + 10 with
  | none => exact absurd hrange (List.find?_eq_none.1 hfind z hz)
  | some y =>
      have hy := List.find?_some hfind
      simp only [Bool.and_eq_true, decide_eq_true_eq] at hy
      refine ⟨c.toNat - y, by omega, ?_⟩
      rw [decimal?, hfind, Option.map_some]

theorem plainDigit_of_not_isDecimal {c : Char} (h : isDecimal c = false) : plainDigit c = c := by
  have hnone : decimal? c = none := by
    rw [decimal?, Option.map_eq_none_iff, List.find?_eq_none]
    exact List.any_eq_false.1 h
  rw [plainDigit, hnone]

theorem isDigit_plainDigit {c : Char} (h : isDecimal c = true) : (plainDigit c).isDigit = true := by
  have hall : ∀ d < 10, (Char.ofNat ('0'.toNat + d)).isDigit = true := by decide
  obtain ⟨d, hd, hdecimal⟩ := decimal?_of_isDecimal h
  rw [plainDigit, hdecimal]
  exact hall d hd

/-- Characters of slugs have no other plain form, and the decimal digits among them are plain. -/
theorem isSlugChar_decimal {c : Char} (h : isSlugChar c = true) :
    plainDigit c = c ∧ (isDecimal c = true → c.isDigit = true) := by
  have hall : ∀ n < 128, (!isSlugChar (Char.ofNat n) || plainDigit (Char.ofNat n) == Char.ofNat n &&
      (!isDecimal (Char.ofNat n) || (Char.ofNat n).isDigit)) = true := by
    decide
  have hspec := of_ascii
    (p := fun c => !isSlugChar c || plainDigit c == c && (!isDecimal c || c.isDigit)) hall
    (lt_of_isAlphanum (isAlphanum_of_isSlugChar h))
  simp only [h, Bool.not_true, Bool.false_or, Bool.and_eq_true, beq_iff_eq, Bool.or_eq_true,
    Bool.not_eq_true'] at hspec
  exact ⟨hspec.1, fun hdecimal => hspec.2.resolve_left (by simp [hdecimal])⟩

theorem toLower_of_not_isUpper {c : Char} (h : isUpper c = false) : c.toLower = c := by
  have hcapital : ¬ ('A' ≤ c ∧ c ≤ 'Z') := by simpa [isUpper] using h
  exact dif_neg hcapital

/-- A character of words, in small letters and plain digits, is one of slugs. -/
theorem isSlugChar_of_isWordChar {c : Char} (h : isWordChar c = true) :
    isSlugChar (plainDigit c.toLower) = true := by
  cases hupper : isUpper c with
  | true =>
      have hcapital : 'A' ≤ c ∧ c ≤ 'Z' := by simpa [isUpper] using hupper
      have halphanum : c.isAlphanum = true := by
        show (c.isUpper || c.isLower || c.isDigit) = true
        rw [show c.isUpper = true from decide_eq_true hcapital, Bool.true_or, Bool.true_or]
      have hslug := isSlugChar_toLower halphanum
      rwa [(isSlugChar_decimal hslug).1]
  | false =>
      rw [toLower_of_not_isUpper hupper]
      cases hdecimal : isDecimal c with
      | true => rw [isSlugChar, isDigit_plainDigit hdecimal, Bool.or_true]
      | false =>
          rw [plainDigit_of_not_isDecimal hdecimal]
          rw [isWordChar, hupper, hdecimal, Bool.or_false, Bool.or_false] at h
          rw [isSlugChar, h, Bool.true_or]

theorem plainDigit_eq_underscore {c : Char} : plainDigit c = '_' ↔ c = '_' := by
  cases hdecimal : isDecimal c with
  | true =>
      have hplain : plainDigit c ≠ '_' := by
        intro hunderscore
        have hdigit := isDigit_plainDigit hdecimal
        rw [hunderscore] at hdigit
        cases hdigit
      have hc : c ≠ '_' := by
        rintro rfl
        cases hdecimal
      exact iff_of_false hplain hc
  | false => rw [plainDigit_of_not_isDecimal hdecimal]

/-! ### Slugs with other digits -/

theorem map_shorten (s : List Char) (n : Nat) :
    (shorten s n).map plainDigit = shorten (s.map plainDigit) n := by
  have hsame : ((· == '_') ∘ plainDigit) = fun c => c == '_' := by
    funext c
    rw [Function.comp_apply, Bool.eq_iff_iff, beq_iff_eq, beq_iff_eq, plainDigit_eq_underscore]
  rw [shorten, shorten, trimRight, trimRight, ← List.map_take, ← List.map_reverse,
    List.dropWhile_map, hsame, List.map_reverse]

theorem map_intercalate (parts : List (List Char)) :
    (['_'].intercalate parts).map plainDigit =
      ['_'].intercalate (parts.map (·.map plainDigit)) := by
  induction parts with
  | nil => rfl
  | cons p parts ih =>
      cases parts with
      | nil => simp [List.intercalate_singleton]
      | cons q parts =>
          rw [List.intercalate_cons_cons, List.map_append, List.map_append, ih]
          simp only [List.map_cons, List.map_nil, List.intercalate_cons_cons,
            plainDigit_eq_underscore.2 rfl]

/-- The words of a name in small letters are its letters and digits. -/
theorem slugWords_flatten (name : List Char) :
    (slugWords name).flatten = (name.filter isWordChar).map Char.toLower := by
  rw [slugWords, ← List.map_flatten, (words_spec name).1]

theorem isSlugChar_of_mem_slugWords {name p : List Char} (hp : p ∈ slugWords name) {c : Char}
    (hc : c ∈ p) : isSlugChar (plainDigit c) = true := by
  have hmem : c ∈ (slugWords name).flatten := List.mem_flatten.2 ⟨p, hp, hc⟩
  rw [slugWords_flatten] at hmem
  obtain ⟨d, hd, rfl⟩ := List.mem_map.1 hmem
  exact isSlugChar_of_isWordChar (List.mem_filter.1 hd).2

theorem ne_nil_of_mem_slugWords {name p : List Char} (hp : p ∈ slugWords name) : p ≠ [] := by
  obtain ⟨w, hw, rfl⟩ := List.mem_map.1 hp
  simpa using (words_spec name).2 w hw

theorem letters_slug (name : List Char) :
    letters (slug name) = (name.filter isWordChar).map Char.toLower := by
  have hplain : ∀ p ∈ slugWords name, '_' ∉ p := by
    intro p hp hunderscore
    have hslug := isSlugChar_of_mem_slugWords hp hunderscore
    rw [plainDigit_eq_underscore.2 rfl] at hslug
    cases hslug
  rw [slug, letters_intercalate hplain, slugWords_flatten]

theorem slugWords_eq_nil {name : List Char} :
    slugWords name = [] ↔ name.filter isWordChar = [] := by
  rw [← List.map_eq_nil_iff (f := Char.toLower), ← slugWords_flatten, List.flatten_eq_nil_iff]
  constructor
  · intro hnil
    simp [hnil]
  · intro hempty
    exact List.eq_nil_iff_forall_not_mem.2 fun p hp => ne_nil_of_mem_slugWords hp (hempty p hp)

/-- The slug of a name with a letter or digit, in plain digits. -/
theorem isSlug_plain {name : List Char} (h : name.filter isWordChar ≠ []) :
    IsSlug ((slug name).map plainDigit) := by
  rw [slug, map_intercalate]
  refine .intercalate (fun hnil => h ?_) fun p hp => ?_
  · exact slugWords_eq_nil.1 (List.map_eq_nil_iff.1 hnil)
  · obtain ⟨q, hq, rfl⟩ := List.mem_map.1 hp
    refine ⟨by simpa using ne_nil_of_mem_slugWords hq, fun c hc => ?_⟩
    obtain ⟨d, hd, rfl⟩ := List.mem_map.1 hc
    exact isSlugChar_of_mem_slugWords hq hd

theorem IsSlug.isSlugChar_or {s : List Char} (h : IsSlug s) {c : Char} (hc : c ∈ s) :
    isSlugChar c = true ∨ c = '_' := by
  induction h with
  | last h =>
      obtain rfl := List.mem_singleton.1 hc
      exact Or.inl h
  | next h _ ih =>
      rcases List.mem_cons.1 hc with rfl | hc
      · exact Or.inl h
      · exact ih hc
  | join h _ ih =>
      rcases List.mem_cons.1 hc with rfl | hc
      · exact Or.inl h
      · rcases List.mem_cons.1 hc with rfl | hc
        · exact Or.inr rfl
        · exact ih hc

/-- A text that is a slug in plain digits is one exactly if its digits are plain. -/
theorem isSlug_iff_plain {s : List Char} (h : IsSlug (s.map plainDigit)) :
    IsSlug s ↔ ∀ c ∈ s, isDecimal c = true → c.isDigit = true := by
  constructor
  · intro hs c hc hdecimal
    rcases hs.isSlugChar_or hc with hslug | rfl
    · exact (isSlugChar_decimal hslug).2 hdecimal
    · cases hdecimal
  · intro hplain
    -- then there is nothing to be made plain
    have hsame : s.map plainDigit = s := by
      rw [List.map_congr_left (g := id) fun c hc => ?_, List.map_id]
      cases hdecimal : isDecimal c with
      | false => exact plainDigit_of_not_isDecimal hdecimal
      | true =>
          have hslug : isSlugChar c = true := by rw [isSlugChar, hplain c hc hdecimal, Bool.or_true]
          exact (isSlugChar_decimal hslug).1
    rwa [hsame] at h

/-! ### File names -/

/-- The last name of a path, slashes of both kinds alike, without its extension. -/
def fileStem (path : List Char) : List Char :=
  stem (Path.ofChars (path.map fun c => if c == '\\' then '/' else c)).name

theorem fileNamespace_eq (path fallback : List Char) :
    fileNamespace path fallback =
      if shorten (slug (fileStem path)) maxLength = [] then fallback
      else shorten (slug (fileStem path)) maxLength := by
  show (if (shorten (slug (fileStem path)) maxLength).isEmpty then fallback
    else shorten (slug (fileStem path)) maxLength) = _
  simp only [List.isEmpty_iff]

/-- Without a letter or digit in the name of a file its namespace is the fallback. Otherwise it has
1 to 64 characters and spells the beginning of the name's letters and digits in small letters. In
plain digits it is a slug; as it stands it is one exactly if it has no digits of other scripts. -/
theorem fileNamespace_form (path fallback : List Char) :
    let found := fileNamespace path fallback
    let spelled := (fileStem path).filter isWordChar
    (spelled = [] → found = fallback) ∧
      (spelled ≠ [] → 1 ≤ found.length ∧ found.length ≤ 64 ∧
        letters found <+: spelled.map Char.toLower ∧ IsSlug (found.map plainDigit) ∧
        (IsSlug found ↔ ∀ c ∈ found, isDecimal c = true → c.isDigit = true)) := by
  intro found spelled
  have hletters := letters_shorten (slug (fileStem path)) maxLength
  rw [letters_slug] at hletters
  constructor
  · intro hempty
    -- no words, and so nothing to cut
    have hslug : slug (fileStem path) = [] := by
      rw [slug, slugWords_eq_nil.2 hempty]
      rfl
    show fileNamespace path fallback = fallback
    rw [fileNamespace_eq, hslug, if_pos (by rfl)]
  · intro hspelled
    have hplain := (isSlug_plain hspelled).shorten (show 0 < maxLength by decide)
    rw [← map_shorten] at hplain
    have hfound : found = shorten (slug (fileStem path)) maxLength := by
      rw [show found = fileNamespace path fallback from rfl, fileNamespace_eq,
        if_neg fun hnil => ?_]
      rw [hnil] at hplain
      exact hplain.ne_nil rfl
    rw [hfound]
    refine ⟨?_, shorten_length_le _ _, hletters, hplain, isSlug_iff_plain hplain⟩
    have hpos := List.length_pos_iff.2 hplain.ne_nil
    rwa [List.length_map] at hpos

/-- A test file in a directory written with a backslash, and a name without letters and digits. -/
theorem fileNamespace_form_test :
    fileNamespace "src\\Step2.test.tsx".toList "ui".toList = "step_2_test".toList ∧
      IsSlug "step_2_test".toList ∧ "step_2_test".toList.length ≤ 64 ∧
      fileNamespace "src/---.tsx".toList "ui".toList = "ui".toList := by
  have hfound : fileNamespace "src\\Step2.test.tsx".toList "ui".toList = "step_2_test".toList := by
    decide +kernel
  have hplain : "step_2_test".toList.all (fun c => !isDecimal c || c.isDigit) = true := by
    decide +kernel
  obtain ⟨-, hlength, -, -, hslug⟩ :=
    (fileNamespace_form "src\\Step2.test.tsx".toList "ui".toList).2 (by decide +kernel)
  rw [hfound] at hlength hslug
  refine ⟨hfound, hslug.2 fun c hc hdecimal => ?_, hlength,
    (fileNamespace_form "src/---.tsx".toList "ui".toList).1 (by decide +kernel)⟩
  simpa [hdecimal] using List.all_eq_true.1 hplain c hc

/-- An Arabic three is kept in the namespace, which is neither the fallback nor a slug then. -/
theorem fileNamespace_keeps_digit :
    fileNamespace "٣.tsx".toList "strings".toList = "٣".toList ∧
      ¬ ("٣".toList = "strings".toList ∨ IsSlug "٣".toList) := by
  refine ⟨by decide +kernel, ?_⟩
  rintro (hfallback | hslug)
  · exact absurd hfallback (by decide)
  · have hplain := hslug.isSlugChar_or (c := '٣') (by decide)
    exact absurd hplain (by decide)

end Phrasebook.Key

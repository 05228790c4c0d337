import Mathlib.Data.List.DropRight
import Mathlib.Data.List.SplitBy
import Mathlib.Data.Nat.Digits.Defs
import Phrasebook.Key.Suggestion
import Phrasebook.Proofs.Word

/-!
The form of suggested keys. A slug is made of small letters and digits, with single underscores
between them. Cut anywhere and without an underscore at its end it is a slug again, and so it is
with a short hash behind it; so every key is a namespace, a dot and a slug of bounded length.
-/

namespace Phrasebook.Key

open Text

/-! ### Characters -/

def isSlugChar (c : Char) : Bool := isLower c || c.isDigit

theorem of_ascii {p : Char → Bool} (h : ∀ n < 128, p (Char.ofNat n) = true) {c : Char}
    (hc : c.toNat < 128) : p c = true := by
  rw [← Char.ofNat_toNat c]
  exact h _ hc

theorem lt_of_isAlphanum {c : Char} (h : c.isAlphanum = true) : c.toNat < 128 := by
  have hranges : (decide (c.val ≥ 65 ∧ c.val ≤ 90) || c.val ≥ 97 && c.val ≤ 122 ||
      c.val ≥ 48 && c.val ≤ 57) = true := h
  simp only [Bool.or_eq_true, Bool.and_eq_true, decide_eq_true_eq, ge_iff_le,
    UInt32.le_iff_toNat_le, Char.toNat_val, UInt32.reduceToNat] at hranges
  omega

theorem isSlugChar_toLower {c : Char} (h : c.isAlphanum = true) : isSlugChar c.toLower = true := by
  have hall : ∀ n < 128,
      (!(Char.ofNat n).isAlphanum || isSlugChar (Char.ofNat n).toLower) = true := by
    decide
  simpa [h] using of_ascii (p := fun c => !c.isAlphanum || isSlugChar c.toLower) hall
    (lt_of_isAlphanum h)

theorem isAlphanum_of_isSlugChar {c : Char} (h : isSlugChar c = true) : c.isAlphanum = true := by
  show (c.isUpper || c.isLower || c.isDigit) = true
  rw [Bool.or_assoc, show (c.isLower || c.isDigit) = true from h, Bool.or_true]

/-- A character of slugs belongs to words and has no other lower case. It is no underscore. -/
theorem isSlugChar_spec {c : Char} (h : isSlugChar c = true) :
    c.toLower = c ∧ isWordChar c = true ∧ c ≠ '_' := by
  have hall : ∀ n < 128, (!isSlugChar (Char.ofNat n) ||
      (Char.ofNat n).toLower == Char.ofNat n && isWordChar (Char.ofNat n) &&
        Char.ofNat n != '_') = true := by
    decide
  have hspec := of_ascii (p := fun c => !isSlugChar c || c.toLower == c && isWordChar c && c != '_')
    hall (lt_of_isAlphanum (isAlphanum_of_isSlugChar h))
  simpa [h, and_assoc] using hspec

/-! ### Slugs -/

/-- One or more small letters and digits, with single underscores between them:
`[a-z0-9]+(_[a-z0-9]+)*`. -/
inductive IsSlug : List Char → Prop
  | last {c : Char} (h : isSlugChar c = true) : IsSlug [c]
  | next {c : Char} {rest : List Char} (h : isSlugChar c = true) (following : IsSlug rest) :
      IsSlug (c :: rest)
  | join {c : Char} {rest : List Char} (h : isSlugChar c = true) (following : IsSlug rest) :
      IsSlug (c :: '_' :: rest)

namespace IsSlug

theorem ne_nil {s : List Char} (h : IsSlug s) : s ≠ [] := by
  cases h <;> exact List.cons_ne_nil _ _

theorem of_word {w : List Char} (hne : w ≠ []) (h : ∀ c ∈ w, isSlugChar c = true) : IsSlug w := by
  induction w with
  | nil => exact absurd rfl hne
  | cons c w ih =>
      obtain ⟨hc, hw⟩ := List.forall_mem_cons.1 h
      cases w with
      | nil => exact .last hc
      | cons d w => exact .next hc (ih (List.cons_ne_nil d w) hw)

theorem append {s t : List Char} (hs : IsSlug s) (ht : IsSlug t) : IsSlug (s ++ '_' :: t) := by
  induction hs with
  | last h => exact .join h ht
  | next h _ ih => exact .next h ih
  | join h _ ih => exact .join h ih

/-- Words with underscores between them. -/
theorem intercalate {parts : List (List Char)} (hne : parts ≠ [])
    (h : ∀ p ∈ parts, p ≠ [] ∧ ∀ c ∈ p, isSlugChar c = true) :
    IsSlug (['_'].intercalate parts) := by
  induction parts with
  | nil => exact absurd rfl hne
  | cons p parts ih =>
      obtain ⟨⟨hp, hchars⟩, hparts⟩ := List.forall_mem_cons.1 h
      have hword := of_word hp hchars
      cases parts with
      | nil => rwa [List.intercalate_singleton]
      | cons q parts =>
          rw [List.intercalate_cons_cons, List.append_assoc]
          exact hword.append (ih (List.cons_ne_nil q parts) hparts)

end IsSlug

/-! ### Letters of a slug -/

def letters (s : List Char) : List Char := s.filter (· != '_')

theorem letters_append (s t : List Char) : letters (s ++ t) = letters s ++ letters t :=
  List.filter_append ..

theorem letters_word {w : List Char} (h : '_' ∉ w) : letters w = w :=
  List.filter_eq_self.2 fun c hc => by simpa using fun hunderscore : c = '_' => h (hunderscore ▸ hc)

theorem letters_intercalate {parts : List (List Char)} (h : ∀ p ∈ parts, '_' ∉ p) :
    letters (['_'].intercalate parts) = parts.flatten := by
  induction parts with
  | nil => rfl
  | cons p parts ih =>
      obtain ⟨hp, hparts⟩ := List.forall_mem_cons.1 h
      cases parts with
      | nil => rw [List.intercalate_singleton, letters_word hp, List.flatten_singleton]
      | cons q parts =>
          rw [List.intercalate_cons_cons, letters_append, letters_append, letters_word hp,
            ih hparts, show letters ['_'] = [] from rfl, List.append_nil, ← List.flatten_cons]

/-! ### Cutting a slug -/

/-- What is cut off a shortened slug behind the cut are underscores. -/
theorem shorten_append (s : List Char) (n : Nat) :
    ∃ margin, shorten s n ++ margin = s.take n ∧ ∀ c ∈ margin, c = '_' := by
  refine ⟨((s.take n).reverse.takeWhile (· == '_')).reverse, ?_, fun c hc => ?_⟩
  · rw [shorten, trimRight, ← List.reverse_append, List.takeWhile_append_dropWhile,
      List.reverse_reverse]
  · have hunderscore := List.mem_takeWhile_imp (List.mem_reverse.1 hc)
    exact beq_iff_eq.1 hunderscore

theorem shorten_length_le (s : List Char) (n : Nat) : (shorten s n).length ≤ n := by
  obtain ⟨margin, hmargin, -⟩ := shorten_append s n
  have hlength := congrArg List.length hmargin
  rw [List.length_append, List.length_take] at hlength
  omega

theorem letters_shorten (s : List Char) (n : Nat) : letters (shorten s n) <+: letters s := by
  obtain ⟨margin, hmargin, hunderscores⟩ := shorten_append s n
  have hnone : letters margin = [] :=
    List.filter_eq_nil_iff.2 fun c hc => by simp [hunderscores c hc]
  have hcut : letters (shorten s n) = letters (s.take n) := by
    rw [← hmargin, letters_append, hnone, List.append_nil]
  rw [hcut]
  exact (List.take_prefix n s).filter _

theorem shorten_cons (c : Char) (s : List Char) (n : Nat) :
    shorten (c :: s) (n + 1) = if c = '_' ∧ shorten s n = [] then [] else c :: shorten s n := by
  rw [shorten, trimRight, List.take_succ_cons, List.reverse_cons, List.dropWhile_append]
  by_cases hnil : shorten s n = []
  · have hempty : (s.take n).reverse.dropWhile (· == '_') = [] := List.reverse_eq_nil_iff.1 hnil
    by_cases hc : c = '_'
    · simp [hnil, hempty, hc]
    · simp [hnil, hempty, hc]
  · have hkept : ((s.take n).reverse.dropWhile (· == '_')).isEmpty = false := by
      rw [List.isEmpty_eq_false_iff]
      exact fun hempty => hnil (List.reverse_eq_nil_iff.2 hempty)
    rw [hkept, if_neg Bool.false_ne_true, if_neg fun h => hnil h.2, List.reverse_append]
    rfl

/-- A slug that is cut is a slug. -/
theorem IsSlug.shorten {s : List Char} (h : IsSlug s) {n : Nat} (hn : 0 < n) :
    IsSlug (shorten s n) := by
  obtain ⟨n, rfl⟩ := Nat.exists_eq_succ_of_ne_zero (Nat.ne_of_gt hn)
  induction h generalizing n with
  | @last c h =>
      have hempty : Key.shorten [] n = [] := by simp [Key.shorten, trimRight]
      rw [shorten_cons, hempty, if_neg fun hc => (isSlugChar_spec h).2.2 hc.1]
      exact .last h
  | @next c rest h _ ih =>
      rw [shorten_cons, if_neg fun hc => (isSlugChar_spec h).2.2 hc.1]
      cases n with
      | zero => exact .last h
      | succ n => exact .next h (ih n (Nat.succ_pos n))
  | @join c rest h _ ih =>
      rw [shorten_cons, if_neg fun hc => (isSlugChar_spec h).2.2 hc.1]
      match n with
      | 0 => exact .last h
      | 1 => exact .last h
      | n + 2 =>
          have hrest := ih n (Nat.succ_pos n)
          rw [shorten_cons, if_neg fun hc => hrest.ne_nil hc.2]
          exact .join h hrest

/-! ### Words of a text -/

/-- The words of a text are not empty and hold letters and digits only. -/
theorem plainWords_spec {text w : List Char} (h : w ∈ plainWords text) :
    w ≠ [] ∧ ∀ c ∈ w, c.isAlphanum = true := by
  obtain ⟨hblock, hspace⟩ := List.mem_filter.1 h
  refine ⟨List.ne_nil_of_mem_splitBy hblock, fun c hc => ?_⟩
  have hkept : isKept c = true := by
    have hmem := List.mem_flatten.2 ⟨w, hblock, hc⟩
    rw [List.flatten_splitBy] at hmem
    exact (List.mem_filter.1 hmem).2
  have hvisible : isSpace c = false := by
    simp only [Bool.not_eq_true', List.any_eq_false, Bool.not_eq_true] at hspace
    exact hspace c hc
  rwa [isKept, hvisible, Bool.or_false] at hkept

def smallWords (text : List Char) : List (List Char) := (plainWords text).map (·.map Char.toLower)

theorem smallWords_spec {text w : List Char} (h : w ∈ smallWords text) :
    w ≠ [] ∧ ∀ c ∈ w, isSlugChar c = true := by
  obtain ⟨v, hv, rfl⟩ := List.mem_map.1 h
  obtain ⟨hne, hchars⟩ := plainWords_spec hv
  refine ⟨by simpa using hne, fun c hc => ?_⟩
  obtain ⟨d, hd, rfl⟩ := List.mem_map.1 hc
  exact isSlugChar_toLower (hchars d hd)

theorem toLower_word {w : List Char} (h : ∀ c ∈ w, isSlugChar c = true) :
    w.map Char.toLower = w := by
  rw [List.map_congr_left fun c hc => (isSlugChar_spec (h c hc)).1, List.map_id']

/-- Small letters and digits are cut into words and nothing is lost. -/
theorem slugWords_spec {w : List Char} (h : ∀ c ∈ w, isSlugChar c = true) :
    (slugWords w).flatten = w ∧ ∀ p ∈ slugWords w, p ≠ [] ∧ ∀ c ∈ p, isSlugChar c = true := by
  obtain ⟨hflatten, hwords⟩ := words_spec w
  rw [List.filter_eq_self.2 fun c hc => (isSlugChar_spec (h c hc)).2.1] at hflatten
  have hchars : ∀ p ∈ words w, ∀ c ∈ p, isSlugChar c = true := by
    intro p hp c hc
    refine h c ?_
    rw [← hflatten]
    exact List.mem_flatten.2 ⟨p, hp, hc⟩
  have hsame : slugWords w = words w := by
    rw [slugWords, List.map_congr_left fun p hp => toLower_word (hchars p hp), List.map_id']
  rw [hsame]
  exact ⟨hflatten, fun p hp => ⟨hwords p hp, hchars p hp⟩⟩

theorem flatMap_slugWords_spec {ws : List (List Char)}
    (h : ∀ w ∈ ws, w ≠ [] ∧ ∀ c ∈ w, isSlugChar c = true) :
    (ws.flatMap slugWords).flatten = ws.flatten ∧
      ∀ p ∈ ws.flatMap slugWords, p ≠ [] ∧ ∀ c ∈ p, isSlugChar c = true := by
  induction ws with
  | nil => exact ⟨rfl, by simp⟩
  | cons w ws ih =>
      obtain ⟨⟨-, hw⟩, hws⟩ := List.forall_mem_cons.1 h
      obtain ⟨hflatten, hparts⟩ := slugWords_spec hw
      obtain ⟨hflattens, hrest⟩ := ih hws
      rw [List.flatMap_cons]
      exact ⟨by rw [List.flatten_append, hflatten, hflattens, List.flatten_cons],
        List.forall_mem_append.2 ⟨hparts, hrest⟩⟩

/-! ### Hashes and times -/

theorem base36_spec (value width : Nat) :
    (base36 value width).length = width ∧ ∀ c ∈ base36 value width, isSlugChar c = true := by
  have hdigit : ∀ n < 36, isSlugChar (base36Digit n) = true := by decide
  induction width generalizing value with
  | zero => exact ⟨rfl, by simp [base36]⟩
  | succ width ih =>
      obtain ⟨hlength, hdigits⟩ := ih (value / 36)
      refine ⟨by simp [base36, hlength], ?_⟩
      rw [base36, List.forall_mem_append]
      exact ⟨hdigits, List.forall_mem_singleton.2 (hdigit _ (Nat.mod_lt _ (by omega)))⟩

/-- A time, which stands for a text without letters and digits, makes a slug. -/
theorem time_spec {milliseconds : Nat} (h : milliseconds < 10 ^ 13) :
    IsSlug ("text_".toList ++ (toString milliseconds).toList) ∧
      ("text_".toList ++ (toString milliseconds).toList).length ≤ 18 := by
  have hdigits : (toString milliseconds).toList = Nat.toDigits 10 milliseconds := Nat.toList_repr
  have hlength := Nat.toDigits_length 10 milliseconds 13 (by omega) h
  rw [hdigits]
  constructor
  · refine IsSlug.append (s := "text".toList) (.of_word (by decide) (List.all_eq_true.1 rfl))
      (.of_word ?_ ?_)
    · exact Nat.toDigits_ne_nil
    · intro c hc
      rw [isSlugChar, Nat.isDigit_of_mem_toDigits (by omega) (by omega) hc, Bool.or_true]
  · rw [List.length_append]
    exact Nat.add_le_add_left hlength 5

/-! ### Keys -/

/-- A slug with something behind it that it must leave room for. -/
def fitted (slug : List Char) (room : Nat) : List Char :=
  if room < slug.length then shorten slug room else slug

theorem fitted_spec {slug : List Char} (h : IsSlug slug) (room : Nat) (hroom : 0 < room) :
    IsSlug (fitted slug room) ∧ (fitted slug room).length ≤ room ∧
      letters (fitted slug room) <+: letters slug ∧
      (slug.length ≤ room → fitted slug room = slug) := by
  unfold fitted
  split
  · exact ⟨h.shorten hroom, shorten_length_le slug room, letters_shorten slug room,
      fun hle => absurd hle (by omega)⟩
  · exact ⟨h, by omega, List.prefix_rfl, fun _ => rfl⟩

def wholeSlug (text : List Char) : List Char :=
  ['_'].intercalate (((smallWords text).take maxWords).flatMap slugWords)

def hashMark (text : List Char) : List Char :=
  if maxWords < (smallWords text).length then '_' :: shortHash text hashLength else []

theorem hashMark_length_le (text : List Char) : (hashMark text).length ≤ 5 := by
  unfold hashMark
  split
  · rw [List.length_cons, shortHash, (base36_spec _ _).1]
    decide
  · exact Nat.zero_le _

theorem suggest_eq (milliseconds : Nat) (text nameSpace : List Char) :
    suggest milliseconds text nameSpace = nameSpace ++ '.' ::
      if wholeSlug text = [] then "text_".toList ++ (toString milliseconds).toList
      else fitted (wholeSlug text) (maxLength - (hashMark text).length) ++ hashMark text := by
  have hmark := hashMark_length_le text
  have hcut : maxLength < (wholeSlug text).length + (hashMark text).length ↔
      maxLength - (hashMark text).length < (wholeSlug text).length := by
    simp only [maxLength]
    omega
  show nameSpace ++ '.' :: (
    if (wholeSlug text).isEmpty then "text_".toList ++ (toString milliseconds).toList
    else if maxLength < (wholeSlug text).length + (hashMark text).length then
      shorten (wholeSlug text) (maxLength - (hashMark text).length) ++ hashMark text
    else wholeSlug text ++ hashMark text) = _
  rw [fitted, apply_ite (· ++ hashMark text)]
  simp only [hcut, List.isEmpty_iff]

theorem firstWords_spec (text : List Char) :
    (((smallWords text).take maxWords).flatMap slugWords).flatten =
        ((smallWords text).take maxWords).flatten ∧
      ∀ p ∈ ((smallWords text).take maxWords).flatMap slugWords,
        p ≠ [] ∧ ∀ c ∈ p, isSlugChar c = true :=
  flatMap_slugWords_spec fun _ hw => smallWords_spec (List.mem_of_mem_take hw)

theorem letters_wholeSlug (text : List Char) :
    letters (wholeSlug text) = ((smallWords text).take maxWords).flatten := by
  obtain ⟨hflatten, hparts⟩ := firstWords_spec text
  have hplain : ∀ p ∈ ((smallWords text).take maxWords).flatMap slugWords, '_' ∉ p :=
    fun p hp hunderscore => (isSlugChar_spec ((hparts p hp).2 _ hunderscore)).2.2 rfl
  rw [wholeSlug, letters_intercalate hplain, hflatten]

theorem isSlug_wholeSlug {text : List Char} (h : smallWords text ≠ []) :
    IsSlug (wholeSlug text) := by
  obtain ⟨hflatten, hparts⟩ := firstWords_spec text
  refine .intercalate (fun hnil => ?_) hparts
  obtain ⟨w, ws, hws⟩ := List.exists_cons_of_ne_nil h
  have hmem : w ∈ smallWords text := by simp [hws]
  have hw := (smallWords_spec hmem).1
  rw [hnil, hws] at hflatten
  simp [maxWords, hw] at hflatten

/-- A key is the namespace, a dot and a slug of at most 64 characters. The slug of a text with more
than six words ends with the hash of the text. That of a text with fewer words spells the beginning
of the words, and all of them if there is room. -/
theorem suggest_form {milliseconds : Nat} (hclock : milliseconds < 10 ^ 13)
    (text nameSpace : List Char) :
    ∃ slug, suggest milliseconds text nameSpace = nameSpace ++ '.' :: slug ∧ IsSlug slug ∧
      1 ≤ slug.length ∧ slug.length ≤ 64 ∧
      (6 < (smallWords text).length → '_' :: shortHash text 4 <:+ slug) ∧
      (1 ≤ (smallWords text).length → (smallWords text).length ≤ 6 →
        letters slug <+: (smallWords text).flatten ∧
          ((['_'].intercalate ((smallWords text).flatMap slugWords)).length ≤ 64 →
            letters slug = (smallWords text).flatten)) := by
  refine ⟨_, suggest_eq milliseconds text nameSpace, ?_⟩
  by_cases hwords : smallWords text = []
  · obtain ⟨hslug, hlength⟩ := time_spec hclock
    have hempty : wholeSlug text = [] := by rw [wholeSlug, hwords]; rfl
    rw [if_pos hempty, hwords]
    exact ⟨hslug, List.length_pos_iff.2 hslug.ne_nil, by omega, by simp, by simp⟩
  · have hwhole := isSlug_wholeSlug hwords
    rw [if_neg hwhole.ne_nil]
    by_cases hlong : 6 < (smallWords text).length
    · have hmark : hashMark text = '_' :: shortHash text 4 := if_pos hlong
      obtain ⟨hhash, hdigits⟩ := base36_spec (Digest.value text) 4
      have hroom : maxLength - (hashMark text).length = 59 := by
        rw [hmark, List.length_cons, shortHash, hhash]
        rfl
      obtain ⟨hslug, hlength, -, -⟩ := fitted_spec hwhole 59 (by omega)
      rw [hroom, hmark]
      have hword : IsSlug (shortHash text 4) :=
        .of_word (List.ne_nil_of_length_pos (by rw [shortHash, hhash]; decide)) hdigits
      have hjoined := hslug.append hword
      refine ⟨hjoined, List.length_pos_iff.2 hjoined.ne_nil, ?_, fun _ => List.suffix_append ..,
        fun _ hshort => absurd hlong (by omega)⟩
      rw [List.length_append, List.length_cons, shortHash, hhash]
      omega
    · have hmark : hashMark text = [] := if_neg hlong
      have hall : (smallWords text).take maxWords = smallWords text :=
        List.take_of_length_le (by simp only [maxWords]; omega)
      have hsame : wholeSlug text = ['_'].intercalate ((smallWords text).flatMap slugWords) := by
        rw [wholeSlug, hall]
      obtain ⟨hslug, hlength, hhead, hfits⟩ := fitted_spec hwhole 64 (by omega)
      rw [letters_wholeSlug, hall] at hhead
      rw [hmark, List.append_nil, List.length_nil, Nat.sub_zero, ← hsame]
      refine ⟨hslug, List.length_pos_iff.2 hslug.ne_nil, hlength, fun h => absurd h hlong,
        fun _ _ => ⟨hhead, fun hroom => ?_⟩⟩
      rw [maxLength, hfits hroom, letters_wholeSlug, hall]

/-- Seven words, of which six are too long together: the last of them is cut, and the hash is
kept. -/
theorem suggest_form_long :
    ∃ slug, suggest 1700000000500
        "aaaaaaaaaa bbbbbbbbbb cccccccccc dddddddddd eeeeeeeeee ffffffffff g".toList "ui".toList =
          "ui".toList ++ '.' :: slug ∧ IsSlug slug ∧ slug.length ≤ 64 ∧
      '_' :: shortHash
        "aaaaaaaaaa bbbbbbbbbb cccccccccc dddddddddd eeeeeeeeee ffffffffff g".toList 4 <:+
          slug := by
  have hclock : 1700000000500 < 10 ^ 13 := by decide
  obtain ⟨slug, hsuggest, hslug, -, hlength, hhash, -⟩ := suggest_form hclock
    "aaaaaaaaaa bbbbbbbbbb cccccccccc dddddddddd eeeeeeeeee ffffffffff g".toList "ui".toList
  exact ⟨slug, hsuggest, hslug, hlength, hhash (by decide +kernel)⟩

end Phrasebook.Key

import Phrasebook.Proofs.Word

/-!
The words of a name as the matches of a pattern. A pattern is tried at one place after another: of
its alternatives the first that fits counts, a repetition takes as many characters as it can and
gives some back if what follows does not fit otherwise, and looking ahead takes none. The words that
a name is split into are the matches of such a pattern, so they lose no letter and no digit.
-/

namespace Phrasebook.Key

open Text

inductive Pattern where
  | nothing
  /-- One character that passes the test. -/
  | one (test : Char → Bool)
  /-- Any number of such characters. -/
  | many (test : Char → Bool)
  | andThen (first second : Pattern)
  | orElse (first second : Pattern)
  /-- Takes nothing, if the pattern fits here. -/
  | ahead (p : Pattern)
  /-- Takes nothing, if the pattern does not fit here. -/
  | notAhead (p : Pattern)

namespace Pattern

/-- What a repetition may leave of a text, the shortest first. -/
def leftovers (test : Char → Bool) : List Char → List (List Char)
  | [] => [[]]
  | c :: r => if test c then leftovers test r ++ [c :: r] else [c :: r]

/-- What each way to fit at the front of a text leaves of it, the preferred way first. -/
def rests : Pattern → List Char → List (List Char)
  | nothing, text => [text]
  | one _, [] => []
  | one test, c :: r => if test c then [r] else []
  | many test, text => leftovers test text
  | andThen a b, text => (a.rests text).flatMap b.rests
  | orElse a b, text => a.rests text ++ b.rests text
  | ahead p, text => if (p.rests text).isEmpty then [] else [text]
  | notAhead p, text => if (p.rests text).isEmpty then [text] else []

/-- The matches in a text, from left to right, after `skip` characters that belong to the one
before. A match of no characters is one too, and the next is looked for a character further on. -/
def findFrom (p : Pattern) : Nat → List Char → List (List Char)
  | _, [] => if (p.rests []).isEmpty then [] else [[]]
  | skip + 1, _ :: r => findFrom p skip r
  | 0, c :: r =>
      match (p.rests (c :: r)).head? with
      | none => findFrom p 0 r
      | some rest =>
          let n := (c :: r).length - rest.length
          (c :: r).take n :: findFrom p (n - 1) r

def findAll (p : Pattern) (text : List Char) : List (List Char) := p.findFrom 0 text

def several (test : Char → Bool) : Pattern := andThen (one test) (many test)

def optional (test : Char → Bool) : Pattern := orElse (one test) nothing

def exactly (text : List Char) : Pattern := text.foldr (fun c p => andThen (one (· == c)) p) nothing

/-! ### Words -/

def ordinalEnd : Pattern :=
  orElse (exactly ['1', 's', 't'])
    (orElse (exactly ['2', 'n', 'd'])
      (orElse (exactly ['3', 'r', 'd'])
        (andThen (notAhead (one fun c => c == '1' || c == '2' || c == '3'))
          (andThen (one isDecimal) (exactly ['t', 'h'])))))

def ordinal : Pattern :=
  andThen (many isDecimal) (andThen ordinalEnd (notAhead (one isLower)))

def capitals : Pattern := andThen (several isUpper) (ahead (andThen (one isUpper) (one isLower)))

def hump : Pattern := andThen (optional isUpper) (several isLower)

def word : Pattern :=
  orElse ordinal (orElse capitals (orElse hump (orElse (several isUpper) (several isDecimal))))

@[simp] theorem rests_nothing (text : List Char) : nothing.rests text = [text] := by simp [rests]

@[simp] theorem rests_one_nil (test : Char → Bool) : (one test).rests [] = [] := by simp [rests]

@[simp] theorem rests_one_cons (test : Char → Bool) (c : Char) (r : List Char) :
    (one test).rests (c :: r) = if test c then [r] else [] := by simp [rests]

@[simp] theorem rests_many (test : Char → Bool) (text : List Char) :
    (many test).rests text = leftovers test text := by simp [rests]

@[simp] theorem rests_andThen (a b : Pattern) (text : List Char) :
    (andThen a b).rests text = (a.rests text).flatMap b.rests := by simp [rests]

@[simp] theorem rests_orElse (a b : Pattern) (text : List Char) :
    (orElse a b).rests text = a.rests text ++ b.rests text := by simp [rests]

@[simp] theorem rests_ahead (p : Pattern) (text : List Char) :
    (ahead p).rests text = if (p.rests text).isEmpty then [] else [text] := by simp [rests]

@[simp] theorem rests_notAhead (p : Pattern) (text : List Char) :
    (notAhead p).rests text = if (p.rests text).isEmpty then [text] else [] := by simp [rests]

theorem head?_leftovers (test : Char → Bool) (text : List Char) :
    (leftovers test text).head? = some (text.dropWhile test) := by
  induction text with
  | nil => rfl
  | cons c r ih =>
      rw [leftovers, List.dropWhile_cons]
      split
      · rw [List.head?_append, ih]
        rfl
      · rfl

theorem head?_several {test : Char → Bool} {c : Char} (hc : test c = true) (r : List Char) :
    ((several test).rests (c :: r)).head? = some ((c :: r).dropWhile test) := by
  simp [several, hc, head?_leftovers]

theorem several_of_not {test : Char → Bool} {c : Char} (hc : test c = false) (r : List Char) :
    (several test).rests (c :: r) = [] := by
  simp [several, hc]

theorem exactly_rests (word text : List Char) :
    (exactly word).rests text = if word.isPrefixOf text then [text.drop word.length] else [] := by
  induction word generalizing text with
  | nil => simp [exactly]
  | cons c word ih =>
      rw [exactly] at ih
      cases text with
      | nil => simp [exactly]
      | cons d text =>
          by_cases h : d = c
          · simp [exactly, h, ih]
          · simp [exactly, h, Ne.symm h]

/-! ### Which alternatives can fit -/

theorem toNat_of_isLower {c : Char} (h : isLower c = true) : 97 ≤ c.toNat ∧ c.toNat ≤ 122 := by
  simpa [isLower, Char.le_def, UInt32.le_iff_toNat_le] using h

theorem toNat_of_isUpper {c : Char} (h : isUpper c = true) : 65 ≤ c.toNat ∧ c.toNat ≤ 90 := by
  simpa [isUpper, Char.le_def, UInt32.le_iff_toNat_le] using h

/-- A decimal digit is no letter. -/
theorem not_letter_of_isDecimal {c : Char} (h : isDecimal c = true) :
    isUpper c = false ∧ isLower c = false := by
  obtain ⟨z, hz, hrange⟩ := List.any_eq_true.1 h
  have hzeros : ∀ z ∈ zeros, z = 48 ∨ 1632 ≤ z := by decide
  simp only [Bool.and_eq_true, decide_eq_true_eq] at hrange
  have hplace := hzeros z hz
  constructor
  · rw [Bool.eq_false_iff]
    intro hupper
    have := toNat_of_isUpper hupper
    omega
  · rw [Bool.eq_false_iff]
    intro hlower
    have := toNat_of_isLower hlower
    omega

theorem not_isLower_of_isUpper {c : Char} (h : isUpper c = true) : isLower c = false := by
  rw [Bool.eq_false_iff]
  intro hlower
  have := toNat_of_isUpper h
  have := toNat_of_isLower hlower
  omega

/-! ### Digits and ordinals -/

theorem ordinalEnd_cons (c : Char) (r : List Char) :
    ordinalEnd.rests (c :: r) =
      if isDecimal c && (ordinalLetters c).isPrefixOf r then [r.drop 2] else [] := by
  have hdecimal : isDecimal '1' = true ∧ isDecimal '2' = true ∧ isDecimal '3' = true := by decide
  obtain ⟨hone, htwo, hthree⟩ := hdecimal
  simp only [ordinalEnd, rests_orElse, exactly_rests, rests_andThen, rests_notAhead, rests_one_cons]
  by_cases h1 : c = '1'
  · simp [h1, hone, ordinalLetters]
  by_cases h2 : c = '2'
  · simp [h2, htwo, ordinalLetters]
  by_cases h3 : c = '3'
  · simp [h3, hthree, ordinalLetters]
  by_cases hc : isDecimal c = true
  · simp [ordinalLetters, exactly_rests, h1, h2, h3, Ne.symm h1, Ne.symm h2, Ne.symm h3, hc]
  · simp [h1, h2, h3, Ne.symm h1, Ne.symm h2, Ne.symm h3, hc]

def lastDigit : Pattern := andThen ordinalEnd (notAhead (one isLower))

theorem lastDigit_cons (c : Char) (r : List Char) :
    lastDigit.rests (c :: r) =
      if isDecimal c && (ordinalLetters c).isPrefixOf r && !(r.drop 2).head?.any isLower then
        [r.drop 2]
      else [] := by
  rw [lastDigit, rests_andThen, ordinalEnd_cons]
  by_cases h : (isDecimal c && (ordinalLetters c).isPrefixOf r) = true
  · rw [if_pos h, h, List.flatMap_singleton, rests_notAhead]
    cases r.drop 2 with
    | nil => simp
    | cons d rest => by_cases hd : isLower d = true <;> simp [hd]
  · rw [if_neg h, Bool.not_eq_true _ |>.mp h]
    simp

/-- Letters do not follow a digit that another follows. -/
theorem lastDigit_of_isDecimal {d : Char} (hd : isDecimal d = true) (c : Char) (r : List Char) :
    lastDigit.rests (c :: d :: r) = [] := by
  rw [lastDigit_cons]
  refine if_neg fun h => ?_
  simp only [Bool.and_eq_true] at h
  obtain ⟨⟨-, hletters⟩, -⟩ := h
  obtain ⟨hlength, hlower⟩ := ordinalLetters_spec c
  obtain ⟨e, letters, hcons⟩ := List.exists_cons_of_length_pos
      (by omega : 0 < (ordinalLetters c).length)
  rw [hcons] at hlower hletters
  obtain ⟨rfl, -⟩ : e = d ∧ _ := by simpa using hletters
  have hletter := hlower e (by simp)
  rw [(not_letter_of_isDecimal hd).2] at hletter
  cases hletter

theorem ordinal_of_not_isDecimal {c : Char} (hc : isDecimal c = false) (r : List Char) :
    ordinal.rests (c :: r) = [] := by
  show (leftovers isDecimal (c :: r)).flatMap lastDigit.rests = []
  simp [leftovers, hc, lastDigit_cons]

theorem digitsLength_cons_cons {c d : Char} (hc : isDecimal c = true) (hd : isDecimal d = true)
    (r : List Char) : digitsLength (c :: d :: r) = digitsLength (d :: r) + 1 := by
  simp only [digitsLength, List.takeWhile_cons_of_pos hc, List.takeWhile_cons_of_pos hd,
    List.getLast?_cons_cons, List.length_cons, List.drop_succ_cons]
  split
  · next h => simp at h
  · split <;> omega

theorem ordinal_rests (text : List Char) :
    ordinal.rests text = (leftovers isDecimal text).flatMap lastDigit.rests := by
  rw [ordinal, rests_andThen, rests_many, lastDigit]

theorem head?_ordinal_last {c : Char} (hc : isDecimal c = true) {r : List Char}
    (hr : ∀ d ∈ r.head?, isDecimal d = false) :
    (ordinal.rests (c :: r)).head?.getD ((c :: r).dropWhile isDecimal) =
      (c :: r).drop (digitsLength (c :: r)) := by
  have hrest : leftovers isDecimal r = [r] ∧ lastDigit.rests r = [] ∧
      r.takeWhile isDecimal = [] ∧ r.dropWhile isDecimal = r := by
    cases r with
    | nil => exact ⟨rfl, by simp [lastDigit, ordinalEnd, exactly_rests], rfl, rfl⟩
    | cons d r =>
        have hd := hr d rfl
        simp [leftovers, lastDigit_cons, hd]
  obtain ⟨hleft, hnone, htake, hdrop⟩ := hrest
  have hlength : digitsLength (c :: r) =
      if (ordinalLetters c).isPrefixOf r && !(r.drop 2).head?.any isLower then 3 else 1 := by
    simp [digitsLength, List.takeWhile_cons_of_pos hc, htake]
  rw [hlength, ordinal_rests, leftovers, if_pos hc, hleft, List.flatMap_append,
    List.flatMap_singleton, List.flatMap_singleton, hnone, List.nil_append, lastDigit_cons, hc,
    Bool.true_and, List.dropWhile_cons_of_pos hc, hdrop]
  split <;> rfl

/-- Digits are taken as an ordinal if they can be, and else alone. -/
theorem head?_ordinal {c : Char} (hc : isDecimal c = true) (r : List Char) :
    (ordinal.rests (c :: r)).head?.getD ((c :: r).dropWhile isDecimal) =
      (c :: r).drop (digitsLength (c :: r)) := by
  induction r generalizing c with
  | nil => exact head?_ordinal_last hc (by simp)
  | cons d r ih =>
      by_cases hd : isDecimal d = true
      · -- only the last digit can have letters, so giving more digits back does not help
        rw [digitsLength_cons_cons hc hd, List.drop_succ_cons, ← ih hd, ordinal_rests,
          ordinal_rests, leftovers, if_pos hc, List.flatMap_append, List.flatMap_singleton,
          lastDigit_of_isDecimal hd, List.append_nil, List.dropWhile_cons_of_pos hc]
      · exact head?_ordinal_last hc (by simpa using hd)

/-! ### Capitals -/

theorem capitals_of_not_isUpper {c : Char} (hc : isUpper c = false) (r : List Char) :
    capitals.rests (c :: r) = [] := by
  rw [capitals, rests_andThen, several_of_not hc, List.flatMap_nil]

def nextHump : Pattern := ahead (andThen (one isUpper) (one isLower))

theorem nextHump_cons (c : Char) (r : List Char) :
    nextHump.rests (c :: r) = if isUpper c && r.head?.any isLower then [c :: r] else [] := by
  cases r with
  | nil => by_cases hc : isUpper c = true <;> simp [nextHump, hc]
  | cons d r =>
      by_cases hc : isUpper c = true <;> by_cases hd : isLower d = true <;> simp [nextHump, hc, hd]

/-- Of the capitals after the first, all but the last are given to it if a small letter follows. -/
theorem leftovers_nextHump (r : List Char) :
    (leftovers isUpper r).flatMap nextHump.rests =
      if r.head?.any isUpper && (r.dropWhile isUpper).head?.any isLower then
        [r.drop ((r.takeWhile isUpper).length - 1)]
      else [] := by
  induction r with
  | nil => simp [leftovers, nextHump]
  | cons c r ih =>
      by_cases hc : isUpper c = true
      · rw [leftovers, if_pos hc, List.flatMap_append, ih, List.flatMap_singleton, nextHump_cons]
        cases r with
        | nil => simp [hc]
        | cons d r =>
            by_cases hd : isUpper d = true
            · have := not_isLower_of_isUpper hd
              simp [hc, hd, this]
            · simp [hc, hd]
      · simp [leftovers, hc, nextHump_cons]

theorem hump_of_isUpper {c : Char} (hc : isUpper c = true) (r : List Char) :
    hump.rests (c :: r) = (several isLower).rests r := by
  simp [hump, optional, hc, several_of_not (not_isLower_of_isUpper hc)]

theorem hump_of_not_isUpper {c : Char} (hc : isUpper c = false) (r : List Char) :
    hump.rests (c :: r) = (several isLower).rests (c :: r) := by
  simp [hump, optional, hc]

theorem drop_length_takeWhile (test : Char → Bool) (text : List Char) :
    text.drop (text.takeWhile test).length = text.dropWhile test := by
  calc text.drop (text.takeWhile test).length
      = (text.takeWhile test ++ text.dropWhile test).drop (text.takeWhile test).length := by
        rw [List.takeWhile_append_dropWhile]
    _ = text.dropWhile test := List.drop_left

/-- Whether small letters come after capitals. -/
theorem length_takeWhile_eq_zero (test : Char → Bool) (text : List Char) :
    (text.takeWhile test).length = 0 ↔ text.head?.any test = false := by
  cases text with
  | nil => simp
  | cons c r => by_cases hc : test c = true <;> simp [hc]

/-- Capitals are taken up to the last of them if a small letter follows, and that one with the small
letters. -/
theorem head?_capitals {c : Char} (hc : isUpper c = true) (r : List Char) :
    (capitals.rests (c :: r) ++ (hump.rests (c :: r) ++ (several isUpper).rests (c :: r))).head? =
      some ((c :: r).drop (capitalsLength (c :: r))) := by
  have hcapitals : capitals.rests (c :: r) = (leftovers isUpper r).flatMap nextHump.rests := by
    simp [capitals, several, hc, nextHump]
  rw [hcapitals, leftovers_nextHump, hump_of_isUpper hc, capitalsLength,
    List.takeWhile_cons_of_pos hc, List.length_cons, List.drop_succ_cons, drop_length_takeWhile]
  simp only [beq_iff_eq, length_takeWhile_eq_zero]
  cases hsmall : (r.dropWhile isUpper).head?.any isLower with
  | false =>
      -- all capitals: neither do small letters follow the first
      have hnone : (several isLower).rests r = [] := by
        cases r with
        | nil => simp [several]
        | cons d r =>
            refine several_of_not ?_ r
            by_cases hd : isUpper d = true
            · exact not_isLower_of_isUpper hd
            · simpa [hd] using hsmall
      rw [Bool.and_false, if_neg Bool.false_ne_true, if_pos rfl, hnone, List.nil_append,
        List.nil_append, head?_several hc, List.drop_succ_cons, drop_length_takeWhile,
        List.dropWhile_cons_of_pos hc]
  | true =>
      rw [Bool.and_true, if_neg (show ¬ true = false by simp)]
      cases r with
      | nil => simp at hsmall
      | cons d r =>
          by_cases hd : isUpper d = true
          · simp [hd]
          · have hlower : isLower d = true := by simpa [hd] using hsmall
            rw [List.takeWhile_cons_of_neg hd, List.dropWhile_cons_of_neg hd, List.length_nil,
              if_neg (show ¬ (d :: r).head?.any isUpper = true from hd), if_pos rfl,
              List.nil_append, List.head?_append,
              head?_several hlower, Nat.add_comm 1, List.drop_succ_cons, drop_length_takeWhile]
            rfl

/-! ### All words -/

/-- The pattern fits where a word begins, and takes the word. -/
theorem head?_word (c : Char) (r : List Char) :
    (word.rests (c :: r)).head? =
      if wordLength (c :: r) = 0 then none else some ((c :: r).drop (wordLength (c :: r))) := by
  have hword : word.rests (c :: r) = ordinal.rests (c :: r) ++ (capitals.rests (c :: r) ++
      (hump.rests (c :: r) ++ ((several isUpper).rests (c :: r) ++
        (several isDecimal).rests (c :: r)))) := by
    simp only [word, rests_orElse]
  rw [hword, wordLength_cons]
  by_cases hdecimal : isDecimal c = true
  · obtain ⟨hupper, hlower⟩ := not_letter_of_isDecimal hdecimal
    have hpos := (digitsLength_spec hdecimal r).1
    rw [if_pos hdecimal, if_neg (by omega), capitals_of_not_isUpper hupper,
      hump_of_not_isUpper hupper, several_of_not hlower, several_of_not hupper, List.nil_append,
      List.nil_append, List.nil_append,
      List.head?_append, head?_several hdecimal, ← head?_ordinal hdecimal]
    cases (ordinal.rests (c :: r)).head? <;> rfl
  rw [if_neg hdecimal, ordinal_of_not_isDecimal (by simpa using hdecimal), List.nil_append,
    several_of_not (by simpa using hdecimal : isDecimal c = false), List.append_nil]
  by_cases hupper : isUpper c = true
  · have hpos := (capitalsLength_spec hupper r).1
    rw [if_pos hupper, if_neg (by omega), head?_capitals hupper]
  have hupper : isUpper c = false := by simpa using hupper
  rw [if_neg (show ¬ isUpper c = true by simp [hupper]), capitals_of_not_isUpper hupper,
    hump_of_not_isUpper hupper, several_of_not hupper, List.nil_append, List.append_nil,
    drop_length_takeWhile]
  by_cases hlower : isLower c = true
  · rw [head?_several hlower, if_neg]
    rw [length_takeWhile_eq_zero]
    simp [hlower]
  · have hlower : isLower c = false := by simpa using hlower
    rw [several_of_not hlower, if_pos]
    · rfl
    · rw [length_takeWhile_eq_zero]
      simp [hlower]

theorem word_nil : word.rests [] = [] := by
  simp [word, ordinal, capitals, hump, several, optional, ordinalEnd, exactly_rests, leftovers]

theorem findFrom_word (skip : Nat) (text : List Char) :
    word.findFrom skip text = wordsFrom skip text := by
  induction text generalizing skip with
  | nil => cases skip <;> simp [findFrom, wordsFrom, word_nil]
  | cons c r ih =>
      cases skip with
      | succ skip => exact ih skip
      | zero =>
          show (match (word.rests (c :: r)).head? with
            | none => word.findFrom 0 r
            | some rest => (c :: r).take ((c :: r).length - rest.length) ::
                word.findFrom ((c :: r).length - rest.length - 1) r) = words (c :: r)
          rw [head?_word, words_cons]
          generalize wordLength (c :: r) = n
          by_cases hn : n = 0
          · rw [if_pos hn, if_pos hn]
            exact ih 0
          · rw [if_neg hn, if_neg hn]
            show (c :: r).take ((c :: r).length - ((c :: r).drop n).length) ::
              word.findFrom ((c :: r).length - ((c :: r).drop n).length - 1) r = _
            obtain ⟨n, rfl⟩ := Nat.exists_eq_succ_of_ne_zero hn
            rw [ih, wordsFrom_eq, List.drop_succ_cons, List.length_cons, List.length_drop]
            by_cases hle : n ≤ r.length
            · rw [show r.length + 1 - (r.length - n) = n + 1 by omega, Nat.add_sub_cancel]
            · rw [show r.length + 1 - (r.length - n) = r.length + 1 by omega, Nat.add_sub_cancel,
                List.drop_length, List.drop_eq_nil_of_le (by omega),
                List.take_of_length_le (by simp), List.take_of_length_le (by simp; omega)]

end Pattern

/-- The words of a name are the matches of their pattern. None is empty, one after another they are
the letters and digits of the name, and there are none only where there is no letter and no
digit. -/
theorem words_exact (text : List Char) :
    words text = Pattern.word.findAll text ∧
      [] ∉ words text ∧
      (words text).flatten = text.filter isWordChar ∧
      (slugWords text = [] ↔ text.all (!isWordChar ·) = true) := by
  obtain ⟨hflatten, hne⟩ := words_spec text
  have hnil : [] ∉ words text := fun h => hne [] h rfl
  refine ⟨(Pattern.findFrom_word 0 text).symm, hnil, hflatten, ?_⟩
  calc slugWords text = []
      ↔ words text = [] := by rw [slugWords, List.map_eq_nil_iff]
    _ ↔ (words text).flatten = [] := by
        rw [List.flatten_eq_nil_iff]
        exact ⟨fun h => by simp [h],
          fun h => List.eq_nil_iff_forall_not_mem.2 fun w hw => hne w hw (h w hw)⟩
    _ ↔ text.all (!isWordChar ·) = true := by
        rw [hflatten, List.filter_eq_nil_iff, List.all_eq_true]
        simp

/-- Capitals give their last letter to a hump, and letters that make no ordinal are a word. -/
example : words "JSONFile21st113thX".toList =
    ["JSON", "File", "21st", "113", "th", "X"].map String.toList := by decide

end Phrasebook.Key

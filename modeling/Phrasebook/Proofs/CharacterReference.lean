import Mathlib.Data.List.TakeWhile
import Phrasebook.Text.CharacterReference
import Phrasebook.Text.Space

/-!
Character references and white space. A reference ends before the white space behind it: digits and
the names of the table hold none, and although the letters that are looked up as a name may run on
into it, the longest name among them does not. So white space at the end of a text stays as it is
when the text is decoded, and no line feed is ever taken for a part of a reference.
-/

namespace Phrasebook.Text.CharacterReference

variable {c : Char} {name value margin : List Char} {n : Nat}

/-! ### The names of the table -/

/-- The bytes from the digit zero to the letter z, among which are all that names are made of. -/
def isNameByte (b : UInt8) : Bool := 48 ≤ b && b ≤ 122

def isNamed (s : String) : Bool :=
  2 ≤ s.toByteArray.data.toList.length && s.toByteArray.data.toList.all isNameByte

theorem isNamed_of_mem (c : Char) : (names c).all (fun entry => isNamed entry.1) = true := by
  unfold names
  split <;> decide +kernel

/-- The first byte of a character beyond ASCII is above all letters. -/
theorem head_utf8EncodeChar (h : ¬c.toNat ≤ 127) :
    ∃ b rest, String.utf8EncodeChar c = b :: rest ∧ 192 ≤ b.toNat := by
  have hascii : ¬c.val.toNat ≤ 127 := h
  unfold String.utf8EncodeChar
  simp only [if_neg hascii]
  split
  · exact ⟨_, _, rfl, by rw [UInt8.toNat_ofNat']; omega⟩
  · split
    · exact ⟨_, _, rfl, by rw [UInt8.toNat_ofNat']; omega⟩
    · exact ⟨_, _, rfl, by rw [UInt8.toNat_ofNat']; omega⟩

theorem utf8EncodeChar_of_isNameByte (h : (String.utf8EncodeChar c).all isNameByte = true) :
    48 ≤ c.toNat ∧ c.toNat ≤ 122 ∧ (String.utf8EncodeChar c).length = 1 := by
  by_cases hascii : c.toNat ≤ 127
  · have hbyte : String.utf8EncodeChar c = [UInt8.ofNat c.toNat] := if_pos hascii
    rw [hbyte] at h ⊢
    simp only [List.all_cons, List.all_nil, Bool.and_true, isNameByte, Bool.and_eq_true,
      decide_eq_true_eq, UInt8.le_iff_toNat_le, UInt8.toNat_ofNat', UInt8.reduceToNat] at h
    exact ⟨by omega, by omega, rfl⟩
  · obtain ⟨b, rest, hbytes, hb⟩ := head_utf8EncodeChar hascii
    rw [hbytes] at h
    simp only [List.all_cons, Bool.and_eq_true, isNameByte, decide_eq_true_eq,
      UInt8.le_iff_toNat_le, UInt8.reduceToNat] at h
    omega

theorem isSpace_of_range (h : 48 ≤ c.toNat ∧ c.toNat ≤ 122) : isSpace c = false := by
  simp only [isSpace, isSpaceCode, Bool.or_eq_false_iff, Bool.and_eq_false_iff,
    decide_eq_false_iff_not, beq_eq_false_iff_ne]
  omega

theorem isNamed_ofList (h : isNamed (String.ofList name) = true) :
    2 ≤ name.length ∧ ∀ c ∈ name, isSpace c = false := by
  have hbytes : (String.ofList name).toByteArray.data.toList = name.flatMap String.utf8EncodeChar :=
    List.toList_data_toByteArray
  rw [isNamed, hbytes, Bool.and_eq_true, decide_eq_true_eq, List.all_flatMap, List.all_eq_true] at h
  obtain ⟨hlength, hall⟩ := h
  have hchars := fun c hc => utf8EncodeChar_of_isNameByte (c := c) (hall c hc)
  refine ⟨?_, fun c hc => isSpace_of_range ⟨(hchars c hc).1, (hchars c hc).2.1⟩⟩
  rw [List.length_flatMap, List.map_congr_left fun c hc => (hchars c hc).2.2] at hlength
  simpa [List.map_const'] using hlength

/-- A name of the table has at least two characters and no white space. -/
theorem lookup_eq_some (h : lookup name = some value) :
    2 ≤ name.length ∧ ∀ c ∈ name, isSpace c = false := by
  cases name with
  | nil => cases h
  | cons c name =>
      obtain ⟨written, hwritten, -⟩ := Option.map_eq_some_iff.1 h
      obtain ⟨before, after, hnames, -⟩ := List.lookup_eq_some_iff.1 hwritten
      apply isNamed_ofList
      refine List.all_eq_true.1 (isNamed_of_mem c) (String.ofList (c :: name), written) ?_
      rw [hnames]
      simp

theorem lookup_of_space (hc : c ∈ name) (hspace : isSpace c = true) : lookup name = none := by
  cases h : lookup name with
  | none => rfl
  | some value =>
      rw [(lookup_eq_some h).2 c hc] at hspace
      cases hspace

/-! ### Names before white space -/

def nameValue (name : List Char) : List Char := (longest name name.length).getD ('&' :: name)

def stem (r : List Char) : List Char := (r.take 32).takeWhile inName

def nameOf (r : List Char) : List Char :=
  if (r.drop (stem r).length).head? == some ';' then stem r ++ [';'] else stem r

theorem nameValue_eq (h : name ≠ []) :
    nameValue name = match lookup name with
      | some value => value
      | none => (longest name (name.length - 1)).getD ('&' :: name) := by
  obtain ⟨n, hn⟩ : ∃ n, name.length = n + 1 := Nat.exists_eq_succ_of_ne_zero (by simpa using h)
  have htake : name.take (n + 1) = name := List.take_of_length_le (by omega)
  have hdrop : name.drop (n + 1) = [] := List.drop_of_length_le (by omega)
  rw [nameValue, hn, longest, htake, hdrop, Nat.add_sub_cancel]
  split
  · -- a single letter is no name
    next hone =>
    cases hlookup : lookup name with
    | some value =>
        have hlength := (lookup_eq_some hlookup).1
        omega
    | none =>
        obtain rfl : n = 0 := by omega
        rfl
  · cases lookup name <;> simp

theorem named_eq (r : List Char) :
    named r =
      if (stem r).isEmpty then none else some ((nameOf r).length, nameValue (nameOf r)) := by
  unfold named
  cases hstem : (stem r).isEmpty with
  | true =>
      rw [show (r.take 32).takeWhile inName = stem r from rfl, if_pos hstem]
      rfl
  | false =>
      have hname : nameOf r ≠ [] := by
        rw [List.isEmpty_eq_false_iff] at hstem
        unfold nameOf
        split
        · simp
        · exact hstem
      rw [show (r.take 32).takeWhile inName = stem r from rfl, if_neg (by simp [hstem]),
        nameValue_eq hname]
      rfl

theorem nameOf_prefix (r : List Char) : nameOf r <+: r := by
  obtain ⟨rest, hrest⟩ : stem r <+: r :=
    (List.takeWhile_prefix inName).trans (List.take_prefix 32 r)
  unfold nameOf
  split
  · next hsemicolon =>
    have hdrop := congrArg (List.drop (stem r).length) hrest
    rw [List.drop_left] at hdrop
    obtain ⟨tail, htail⟩ := List.head?_eq_some_iff.1 (by simpa [← hdrop] using hsemicolon)
    exact ⟨tail, by rw [List.append_assoc, List.singleton_append, ← htail, hrest]⟩
  · exact ⟨rest, hrest⟩

theorem line_not_mem_nameOf (r : List Char) : '\n' ∉ nameOf r := by
  have hstem : '\n' ∉ stem r := fun hmem => absurd (List.mem_takeWhile_imp hmem) (by decide)
  unfold nameOf
  split
  · simpa using hstem
  · exact hstem

theorem stem_length_le (r : List Char) : (stem r).length ≤ r.length :=
  ((List.takeWhile_prefix inName).length_le).trans (List.length_take_le' 32 r)

/-- White space behind a text lengthens its stem only if the stem is the whole text. -/
theorem stem_append (x margin : List Char) :
    stem (x ++ margin) = stem x ∨
      stem x = x ∧ ∃ more rest, margin = more ++ rest ∧ more ≠ [] ∧
        stem (x ++ margin) = x ++ more := by
  unfold stem
  rw [List.take_append, List.takeWhile_append]
  split
  · next hall =>
    have hwhole : (x.take 32).takeWhile inName = x.take 32 :=
      (List.takeWhile_prefix inName).eq_of_length hall
    cases hmore : (margin.take (32 - x.length)).takeWhile inName with
    | nil => exact Or.inl (by rw [List.append_nil, hwhole])
    | cons c more =>
        have hshort : x.length ≤ 32 := by
          by_contra hlong
          rw [Nat.sub_eq_zero_of_le (by omega)] at hmore
          cases hmore
        obtain ⟨rest, hrest⟩ : c :: more <+: margin := by
          rw [← hmore]
          exact (List.takeWhile_prefix inName).trans (List.take_prefix _ _)
        rw [List.take_of_length_le hshort] at hwhole ⊢
        exact Or.inr ⟨hwhole, c :: more, rest, hrest.symm, List.cons_ne_nil _ _, rfl⟩
  · exact Or.inl rfl

theorem head?_drop_append (hmargin : ∀ c ∈ margin, isSpace c = true) {x : List Char} {k : Nat}
    (hk : k ≤ x.length) :
    (((x ++ margin).drop k).head? == some ';') = ((x.drop k).head? == some ';') := by
  rw [List.drop_append_of_le_length hk]
  cases x.drop k with
  | cons c rest => rfl
  | nil =>
      cases margin with
      | nil => rfl
      | cons c margin =>
          have hc : c ≠ ';' := by
            rintro rfl
            exact absurd (hmargin _ List.mem_cons_self) (by decide)
          simpa using hc

/-- Beginnings of a name that reach into white space are not found. -/
theorem longest_add {x more : List Char} (hmore : ∀ c ∈ more, isSpace c = true) {j : Nat}
    (hj : j ≤ more.length) : longest (x ++ more) (x.length + j) = longest (x ++ more) x.length := by
  induction j with
  | zero => rfl
  | succ j ih =>
      have hfirst : ∃ c ∈ (x ++ more).take (x.length + j + 1), isSpace c = true := by
        cases more with
        | nil => simp at hj
        | cons c more =>
            refine ⟨c, ?_, hmore c List.mem_cons_self⟩
            rw [Nat.add_assoc, List.take_length_add_append, List.take_succ_cons]
            simp
      obtain ⟨c, hc, hspace⟩ := hfirst
      rw [← Nat.add_assoc, longest, lookup_of_space hc hspace]
      split
      · next hone =>
        obtain rfl : j = 0 := by omega
        obtain hx : x.length = 0 := by omega
        rw [hx]
        rfl
      · exact ih (by omega)

theorem longest_append {x : List Char} (more : List Char) {n : Nat} (hn : n ≤ x.length) :
    longest (x ++ more) n = (longest x n).map (· ++ more) := by
  induction n with
  | zero => rfl
  | succ n ih =>
      rw [longest, longest, List.take_append_of_le_length hn, List.drop_append_of_le_length hn]
      split
      · rfl
      · cases lookup (x.take (n + 1)) with
        | some value => simp
        | none => exact ih (by omega)

theorem nameValue_append {more : List Char} (hmore : ∀ c ∈ more, isSpace c = true) (x : List Char) :
    nameValue (x ++ more) = nameValue x ++ more := by
  rw [nameValue, nameValue, List.length_append, longest_add hmore le_rfl,
    longest_append more le_rfl]
  cases longest x x.length <;> simp

/-! ### References before white space -/

theorem isDigit_of_isSpace (h : isSpace c = true) : c.isDigit = false := by
  rw [Bool.eq_false_iff]
  intro hdigit
  have hrange : (decide (c.val ≥ 48) && decide (c.val ≤ 57)) = true := hdigit
  simp only [Bool.and_eq_true, decide_eq_true_eq, ge_iff_le, UInt32.le_iff_toNat_le,
    Char.toNat_val, UInt32.reduceToNat] at hrange
  rw [isSpace_of_range ⟨by omega, by omega⟩] at h
  cases h

theorem isHex_of_isSpace (h : isSpace c = true) : isHex c = false := by
  rw [isHex, isDigit_of_isSpace h, Bool.false_or, Bool.eq_false_iff]
  intro hletter
  simp only [Bool.or_eq_true, Bool.and_eq_true, decide_eq_true_eq, Char.le_def,
    UInt32.le_iff_toNat_le, Char.toNat_val, Char.reduceVal, UInt32.reduceToNat] at hletter
  rw [isSpace_of_range ⟨by omega, by omega⟩] at h
  cases h

theorem numeric_append (hmargin : ∀ c ∈ margin, isSpace c = true) {digit : Char → Bool}
    (hdigit : ∀ c, isSpace c = true → digit c = false) (lead base : Nat) (x : List Char) :
    numeric lead base digit (x ++ margin) = numeric lead base digit x := by
  have hstop : margin.takeWhile digit = [] := by
    cases margin with
    | nil => rfl
    | cons c margin =>
        exact List.takeWhile_cons_of_neg (by simp [hdigit c (hmargin c List.mem_cons_self)])
  have hdigits : (x ++ margin).takeWhile digit = x.takeWhile digit := by
    rw [List.takeWhile_append, hstop, List.append_nil]
    split
    · next hall => exact ((List.takeWhile_prefix digit).eq_of_length hall).symm
    · rfl
  unfold numeric
  simp only [hdigits, head?_drop_append hmargin (List.takeWhile_prefix digit).length_le]

theorem numeric_eq_some {lead base k : Nat} {digit : Char → Bool} {r : List Char}
    (h : numeric lead base digit r = some (k, value)) :
    ∃ digits rest, r = digits ++ rest ∧ k = lead + digits.length ∧
      ∀ c ∈ digits, digit c = true ∨ c = ';' := by
  unfold numeric at h
  simp only at h
  split at h
  · cases h
  · obtain ⟨hk, -⟩ := Prod.mk.inj (Option.some.inj h)
    have hsplit := List.takeWhile_append_dropWhile (p := digit) (l := r)
    split at hk
    · next hsemicolon =>
      have hrest := congrArg (List.drop (r.takeWhile digit).length) hsplit
      rw [List.drop_left] at hrest
      obtain ⟨rest, hrest'⟩ := List.head?_eq_some_iff.1 (by simpa [← hrest] using hsemicolon)
      refine ⟨r.takeWhile digit ++ [';'], rest, ?_, ?_, ?_⟩
      · rw [List.append_assoc, List.singleton_append, ← hrest', hsplit]
      · rw [← hk, List.length_append]
        rfl
      · intro c hc
        rcases List.mem_append.1 hc with hc | hc
        · exact Or.inl (List.mem_takeWhile_imp hc)
        · exact Or.inr (List.mem_singleton.1 hc)
    · exact ⟨_, _, hsplit.symm, hk.symm, fun c hc => Or.inl (List.mem_takeWhile_imp hc)⟩

/-- The characters that a reference takes behind its ampersand, and what they all stand for; where
none is read, the ampersand stands for itself. -/
def taken (r : List Char) : Nat × List Char := (meaning r).getD (0, ['&'])

theorem decodeFrom_ampersand (r : List Char) :
    decodeFrom 0 ('&' :: r) = (taken r).2 ++ decodeFrom (taken r).1 r := by
  rw [decodeFrom, if_pos (beq_self_eq_true '&'), taken]
  cases meaning r <;> rfl

theorem meaning_of_head? {r : List Char} (h : r.head? ≠ some '#') : meaning r = named r := by
  unfold meaning
  split
  · exact absurd rfl h
  · exact absurd rfl h
  · exact absurd rfl h
  · rfl

def isMark (c : Char) : Bool := c == 'x' || c == 'X'

theorem meaning_mark (hc : isMark c = true) (r : List Char) :
    meaning ('#' :: c :: r) = numeric 2 16 isHex r := by
  rcases (by simpa [isMark] using hc : c = 'x' ∨ c = 'X') with rfl | rfl
  · rfl
  · rfl

theorem meaning_number {r : List Char} (h : ∀ c ∈ r.head?, isMark c = false) :
    meaning ('#' :: r) = numeric 1 10 Char.isDigit r := by
  unfold meaning
  split
  · next heq =>
    obtain rfl := (List.cons.inj heq).2
    exact absurd (h 'x' rfl) (by decide)
  · next heq =>
    obtain rfl := (List.cons.inj heq).2
    exact absurd (h 'X' rfl) (by decide)
  · next heq => rw [(List.cons.inj heq).2]
  · next hnone => exact absurd rfl (hnone r)

theorem hash_cases (r : List Char) :
    (∃ c tail, isMark c = true ∧ r = '#' :: c :: tail) ∨
      (∃ tail, (∀ c ∈ tail.head?, isMark c = false) ∧ r = '#' :: tail) ∨ r.head? ≠ some '#' := by
  by_cases hhash : r.head? = some '#'
  · obtain ⟨tail, rfl⟩ := List.head?_eq_some_iff.1 hhash
    cases tail with
    | nil => exact Or.inr (Or.inl ⟨[], by simp, rfl⟩)
    | cons c tail =>
        cases hc : isMark c with
        | true => exact Or.inl ⟨c, tail, hc, rfl⟩
        | false => exact Or.inr (Or.inl ⟨c :: tail, by simpa using hc, rfl⟩)
  · exact Or.inr (Or.inr hhash)

theorem taken_number {base : Nat} {digit : Char → Bool} (hdigit : digit '\n' = false)
    {opening : List Char} (hopening : '\n' ∉ opening) {tail : List Char}
    (h : meaning (opening ++ tail) = numeric opening.length base digit tail) :
    ∃ front rest, opening ++ tail = front ++ rest ∧ (taken (opening ++ tail)).1 = front.length ∧
      '\n' ∉ front := by
  rw [taken, h]
  cases hnumber : numeric opening.length base digit tail with
  | none => exact ⟨[], _, rfl, rfl, List.not_mem_nil⟩
  | some found =>
      obtain ⟨digits, rest, rfl, hk, hdigits⟩ := numeric_eq_some (k := found.1) hnumber
      refine ⟨opening ++ digits, rest, by simp, by simp [hk], ?_⟩
      rw [List.mem_append, not_or]
      refine ⟨hopening, fun hmem => ?_⟩
      rcases hdigits _ hmem with hline | hline
      · rw [hdigit] at hline
        cases hline
      · exact absurd hline (by decide)

/-- What a reference takes stands right behind the ampersand and holds no line feed. -/
theorem taken_spec (r : List Char) :
    ∃ front rest, r = front ++ rest ∧ (taken r).1 = front.length ∧ '\n' ∉ front := by
  rcases hash_cases r with ⟨c, tail, hc, rfl⟩ | ⟨tail, htail, rfl⟩ | hhash
  · have hopening : '\n' ∉ ['#', c] := by
      intro hline
      obtain rfl : '\n' = c := by simpa using hline
      exact absurd hc (by decide)
    exact taken_number (by decide) hopening (meaning_mark hc tail)
  · have hopening : '\n' ∉ ['#'] := by decide
    exact taken_number (by decide) hopening (meaning_number htail)
  · rw [taken, meaning_of_head? hhash, named_eq]
    split
    · exact ⟨[], r, rfl, rfl, List.not_mem_nil⟩
    · obtain ⟨rest, hrest⟩ := nameOf_prefix r
      exact ⟨nameOf r, rest, hrest.symm, rfl, line_not_mem_nameOf r⟩

theorem taken_le (r : List Char) : (taken r).1 ≤ r.length := by
  obtain ⟨front, rest, rfl, hfront, -⟩ := taken_spec r
  rw [hfront, List.length_append]
  omega

/-- White space behind a name is not a part of it, or it is added to what the name stands for. -/
theorem named_append (hmargin : ∀ c ∈ margin, isSpace c = true) (x : List Char) :
    named (x ++ margin) = named x ∨
      ∃ more rest, margin = more ++ rest ∧ ((named x).getD (0, ['&'])).1 = x.length ∧
        named (x ++ margin) =
          some (x.length + more.length, ((named x).getD (0, ['&'])).2 ++ more) := by
  rcases stem_append x margin with hstem | ⟨hwhole, more, rest, rfl, hmore, hstem⟩
  · -- the stem ends within the text, and so does a semicolon behind it
    left
    have hname : nameOf (x ++ margin) = nameOf x := by
      rw [nameOf, nameOf, hstem, head?_drop_append hmargin (stem_length_le x)]
    rw [named_eq, named_eq, hstem, hname]
  · right
    have hspace : ∀ c ∈ more, isSpace c = true := fun c hc => hmargin c (List.mem_append_left _ hc)
    have hend : nameOf (x ++ (more ++ rest)) = x ++ more := by
      have hrest := head?_drop_append (x := x ++ more)
        (fun c hc => hmargin c (List.mem_append_right more hc)) le_rfl
      rw [List.drop_length, List.append_assoc] at hrest
      rw [nameOf, hstem, hrest]
      rfl
    have hkept : nameOf x = x := by
      rw [nameOf, hwhole, List.drop_length]
      rfl
    have hlonger : named (x ++ (more ++ rest)) =
        some ((x ++ more).length, nameValue (x ++ more)) := by
      rw [named_eq, hend, hstem, if_neg (by simp [hmore])]
    refine ⟨more, rest, rfl, ?_⟩
    rw [hlonger, nameValue_append hspace, List.length_append, named_eq, hwhole, hkept]
    cases x with
    | nil => exact ⟨rfl, rfl⟩
    | cons c x => exact ⟨rfl, rfl⟩

theorem head?_append_of_space (hmargin : ∀ c ∈ margin, isSpace c = true) {d : Char}
    (hd : isSpace d = false) (x : List Char) :
    (x ++ margin).head? = some d ↔ x.head? = some d := by
  cases x with
  | cons c x => rfl
  | nil =>
      cases margin with
      | nil => rfl
      | cons c margin =>
          have hc : c ≠ d := by
            rintro rfl
            rw [hmargin c List.mem_cons_self] at hd
            cases hd
          simpa using hc

theorem taken_append (hmargin : ∀ c ∈ margin, isSpace c = true) (x : List Char) :
    taken (x ++ margin) = taken x ∨
      ∃ more rest, margin = more ++ rest ∧ (taken x).1 = x.length ∧
        taken (x ++ margin) = (x.length + more.length, (taken x).2 ++ more) := by
  rcases hash_cases x with ⟨c, tail, hc, rfl⟩ | ⟨tail, htail, rfl⟩ | hhash
  · left
    rw [taken, taken, List.cons_append, List.cons_append, meaning_mark hc, meaning_mark hc,
      numeric_append hmargin fun _ => isHex_of_isSpace]
  · left
    have hmark : ∀ c ∈ (tail ++ margin).head?, isMark c = false := by
      intro c hc
      cases hspace : isSpace c with
      | false => exact htail c ((head?_append_of_space hmargin hspace tail).1 hc)
      | true =>
          rw [Bool.eq_false_iff]
          intro hmark
          rcases (by simpa [isMark] using hmark : c = 'x' ∨ c = 'X') with rfl | rfl
          · exact absurd hspace (by decide)
          · exact absurd hspace (by decide)
    rw [taken, taken, List.cons_append, meaning_number htail, meaning_number hmark,
      numeric_append hmargin fun _ => isDigit_of_isSpace]
  · have hlonger : (x ++ margin).head? ≠ some '#' :=
      fun h => hhash ((head?_append_of_space hmargin (by decide) x).1 h)
    rw [taken, taken, meaning_of_head? hhash, meaning_of_head? hlonger]
    rcases named_append hmargin x with hnamed | ⟨more, rest, hrest, hlength, hnamed⟩
    · exact Or.inl (by rw [hnamed])
    · exact Or.inr ⟨more, rest, hrest, hlength, by rw [hnamed]; rfl⟩

/-! ### Decoding -/

theorem decodeFrom_length (a b : List Char) : decodeFrom a.length (a ++ b) = decodeFrom 0 b := by
  induction a with
  | nil => rfl
  | cons c a ih => exact ih

theorem decodeFrom_cons (h : c ≠ '&') (r : List Char) :
    decodeFrom 0 (c :: r) = c :: decodeFrom 0 r := by
  rw [decodeFrom, if_neg (by simpa using h)]

theorem decodeFrom_space (hmargin : ∀ c ∈ margin, isSpace c = true) :
    decodeFrom 0 margin = margin := by
  induction margin with
  | nil => rfl
  | cons c margin ih =>
      have hc : c ≠ '&' := by
        rintro rfl
        exact absurd (hmargin _ List.mem_cons_self) (by decide)
      rw [decodeFrom_cons hc, ih fun d hd => hmargin d (List.mem_cons_of_mem c hd)]

theorem decodeFrom_append (hmargin : ∀ c ∈ margin, isSpace c = true) {x : List Char} {k : Nat}
    (hk : k ≤ x.length) : decodeFrom k (x ++ margin) = decodeFrom k x ++ margin := by
  induction x generalizing k with
  | nil =>
      obtain rfl : k = 0 := Nat.le_zero.1 hk
      exact decodeFrom_space hmargin
  | cons c x ih =>
      cases k with
      | succ k => exact ih (Nat.le_of_succ_le_succ hk)
      | zero =>
          by_cases hc : c = '&'
          · subst hc
            rw [List.cons_append, decodeFrom_ampersand, decodeFrom_ampersand]
            rcases taken_append hmargin x with htaken | ⟨more, rest, rfl, hlength, htaken⟩
            · rw [htaken, ih (taken_le x), List.append_assoc]
            · -- what the name took of the white space is put back, and the rest follows
              have hwhole := decodeFrom_length x []
              have hrest := decodeFrom_length (x ++ more) rest
              rw [List.append_nil] at hwhole
              rw [List.append_assoc, List.length_append] at hrest
              rw [htaken, hlength, hwhole, hrest,
                decodeFrom_space fun c hc => hmargin c (List.mem_append_right more hc)]
              simp [decodeFrom]
          · rw [List.cons_append, decodeFrom_cons hc, decodeFrom_cons hc, ih (Nat.zero_le _)]
            rfl

/-- White space behind a text is decoded to itself. -/
theorem decode_append_space (hmargin : ∀ c ∈ margin, isSpace c = true) (x : List Char) :
    decode (x ++ margin) = decode x ++ margin :=
  decodeFrom_append hmargin (Nat.zero_le _)

theorem line_mem_decodeFrom {x : List Char} {k : Nat} (h : '\n' ∈ x) (hk : '\n' ∉ x.take k) :
    '\n' ∈ decodeFrom k x := by
  induction x generalizing k with
  | nil => cases h
  | cons c x ih =>
      cases k with
      | succ k =>
          rw [List.take_succ_cons, List.mem_cons, not_or] at hk
          exact ih ((List.mem_cons.1 h).resolve_left hk.1) hk.2
      | zero =>
          by_cases hc : c = '&'
          · subst hc
            obtain ⟨front, rest, hx, hfront, hline⟩ := taken_spec x
            rw [decodeFrom_ampersand]
            refine List.mem_append_right _ (ih ((List.mem_cons.1 h).resolve_left (by decide)) ?_)
            rwa [hfront, hx, List.take_left]
          · rw [decodeFrom_cons hc]
            rcases List.mem_cons.1 h with rfl | hmem
            · exact List.mem_cons_self
            · exact List.mem_cons_of_mem c (ih hmem (by simp))

/-- No line feed of a text is lost when it is decoded. -/
theorem line_mem_decode {x : List Char} (h : '\n' ∈ x) : '\n' ∈ decode x :=
  line_mem_decodeFrom h (by simp)

end Phrasebook.Text.CharacterReference

import Mathlib.Data.List.Basic
import Phrasebook.Proofs.CodePoint
import Phrasebook.Proofs.Locate
import Phrasebook.Proofs.ScanReport
import Phrasebook.Proofs.Utf8

/-!
What candidates are known by. The identity of a candidate is the digest of its text, its file, its
place and its kind, with hyphens between them. From the back, the parts are told apart up to the
file: no number and no kind holds a hyphen. Texts and file names do, so nothing marks where the one
ends and the other begins, and two candidates of different files may come to the same.
-/

namespace Phrasebook

open Text Source

/-! ### Parts between hyphens -/

/-- The last separator cuts a list in one way only. -/
theorem append_cons_last_inj {α : Type} {sep : α} {a b a' b' : List α}
    (h : a ++ sep :: b = a' ++ sep :: b') (hb : sep ∉ b) (hb' : sep ∉ b') : a = a' ∧ b = b' := by
  rcases List.append_eq_append_iff.1 h with ⟨x, rfl, hx⟩ | ⟨x, rfl, hx⟩
  · cases x with
    | nil => simpa using hx
    | cons y x =>
        obtain ⟨-, rfl⟩ := List.cons.inj hx
        exact absurd (List.mem_append_right x List.mem_cons_self) hb
  · cases x with
    | nil => simpa using hx.symm
    | cons y x =>
        obtain ⟨-, rfl⟩ := List.cons.inj hx
        exact absurd (List.mem_append_right x List.mem_cons_self) hb'

namespace Text.Points

theorem ofChars_append (a b : List Char) : ofChars (a ++ b) = ofChars a ++ ofChars b :=
  List.map_append

theorem ofChars_cons (c : Char) (r : List Char) :
    ofChars (c :: r) = CodePoint.ofChar c :: ofChars r := rfl

theorem mem_ofChars {c : Char} {l : List Char} : CodePoint.ofChar c ∈ ofChars l ↔ c ∈ l := by
  constructor
  · intro h
    obtain ⟨d, hd, hdc⟩ := List.mem_map.1 h
    have hchar := congrArg CodePoint.toChar? hdc
    rw [CodePoint.toChar?_ofChar, CodePoint.toChar?_ofChar, Option.some.injEq] at hchar
    exact hchar ▸ hd
  · exact List.mem_map_of_mem

theorem append_hyphen_inj {a a' : Points} {b b' : List Char}
    (h : a ++ ofChars ('-' :: b) = a' ++ ofChars ('-' :: b')) (hb : '-' ∉ b) (hb' : '-' ∉ b') :
    a = a' ∧ b = b' := by
  obtain ⟨ha, hchars⟩ := append_cons_last_inj h (mem_ofChars.not.2 hb) (mem_ofChars.not.2 hb')
  exact ⟨ha, ofChars_injective hchars⟩

end Text.Points

theorem digits_injective : Function.Injective (Nat.toDigits 10) := by
  intro m n h
  calc
    m = Nat.ofDigitChars 10 (Nat.toDigits 10 m) 0 := Nat.ofDigitChars_ten_toDigits.symm
    _ = Nat.ofDigitChars 10 (Nat.toDigits 10 n) 0 := by rw [h]
    _ = n := Nat.ofDigitChars_ten_toDigits

theorem hyphen_not_mem_digits (n : Nat) : '-' ∉ Nat.toDigits 10 n := by
  intro h
  have hdigit : '-'.isDigit = true := Nat.isDigit_of_mem_toDigits (by omega) (by omega) h
  revert hdigit
  decide

namespace Candidate

def kindName (localized : Bool) : List Char := (if localized then "localized" else "plain").toList

theorem payload_eq (text : Points) (file : List Char) (line column : Nat) (localized : Bool) :
    payload text file line column localized =
      text ++ Points.ofChars ('-' :: file) ++ Points.ofChars ('-' :: Nat.toDigits 10 line) ++
        Points.ofChars ('-' :: Nat.toDigits 10 column) ++
        Points.ofChars ('-' :: kindName localized) := by
  have hdigits (n : Nat) : (toString (n : Int)).toList = Nat.toDigits 10 n := Nat.toList_repr
  have hhyphen : (toString "-").toList = ['-'] := rfl
  simp only [payload, Points.ofString, Points.ofChars, kindName, String.toList_append, hdigits,
    hhyphen, List.map_append, List.map_cons, List.map_nil, List.append_assoc, List.cons_append,
    List.nil_append]

/-- Place and kind can be told from what is hashed. -/
theorem payload_inj {text text' : Points} {file file' : List Char} {line line' column column' : Nat}
    {localized localized' : Bool} :
    payload text file line column localized = payload text' file' line' column' localized' ↔
      text ++ Points.ofChars ('-' :: file) = text' ++ Points.ofChars ('-' :: file') ∧
        line = line' ∧ column = column' ∧ localized = localized' := by
  constructor
  · intro h
    rw [payload_eq, payload_eq] at h
    have hkind (b : Bool) : '-' ∉ kindName b := by cases b <;> decide
    obtain ⟨h, hlocalized⟩ := Points.append_hyphen_inj h (hkind _) (hkind _)
    obtain ⟨h, hcolumn⟩ := Points.append_hyphen_inj h (hyphen_not_mem_digits _)
      (hyphen_not_mem_digits _)
    obtain ⟨h, hline⟩ := Points.append_hyphen_inj h (hyphen_not_mem_digits _)
      (hyphen_not_mem_digits _)
    refine ⟨h, digits_injective hline, digits_injective hcolumn, ?_⟩
    revert hlocalized
    cases localized <;> cases localized' <;> decide
  · rintro ⟨h, rfl, rfl, rfl⟩
    rw [payload_eq, payload_eq, h]

/-- One file name is another one with `x-` in front of it, and the text in the file with the shorter
name is the other text with `-x` behind it. -/
def Trades (text : Points) (file : List Char) (text' : Points) (file' : List Char) : Prop :=
  ∃ x, file' = x ++ '-' :: file ∧ text = text' ++ Points.ofChars ('-' :: x)

theorem trades_of_append {text : Points} {file file' : List Char} {x : Points} (hx : x ≠ [])
    (h : Points.ofChars ('-' :: file') = x ++ Points.ofChars ('-' :: file)) :
    Trades (text ++ x) file text file' := by
  obtain ⟨first, rest, rfl⟩ := List.exists_cons_of_ne_nil hx
  obtain ⟨rfl, hrest⟩ := List.cons.inj h
  obtain ⟨y, z, rfl, rfl, hz⟩ := List.map_eq_append_iff.1 hrest
  obtain rfl := Points.ofChars_injective (b := '-' :: file) hz
  exact ⟨y, rfl, rfl⟩

/-- A text and a file with a hyphen between them are those of another candidate only if part of the
text is part of the other file name. -/
theorem append_file_inj {text text' : Points} {file file' : List Char} :
    text ++ Points.ofChars ('-' :: file) = text' ++ Points.ofChars ('-' :: file') ↔
      (text = text' ∧ file = file') ∨ Trades text file text' file' ∨
        Trades text' file' text file := by
  constructor
  · intro h
    rcases List.append_eq_append_iff.1 h with ⟨x, rfl, hx⟩ | ⟨x, rfl, hx⟩
    · by_cases hnil : x = []
      · subst hnil
        exact Or.inl ⟨by simp, (List.cons.inj (Points.ofChars_injective hx)).2⟩
      · exact Or.inr (Or.inr (trades_of_append hnil hx))
    · by_cases hnil : x = []
      · subst hnil
        exact Or.inl ⟨by simp, (List.cons.inj (Points.ofChars_injective hx)).2.symm⟩
      · exact Or.inr (Or.inl (trades_of_append hnil hx))
  · rintro (⟨rfl, rfl⟩ | ⟨x, rfl, rfl⟩ | ⟨x, rfl, rfl⟩)
    · rfl
    all_goals
      simp only [Points.ofChars_cons, Points.ofChars_append, List.append_assoc, List.cons_append]

/-! ### Digests -/

theorem hexByte_length (b : UInt8) : (Utf8.hexByte b).toList.length = 2 := by
  have hb := b.toNat_lt
  simp only [Utf8.hexByte, String.toList_ofList, List.length_append]
  rw [Nat.toDigits_of_lt_base (by omega), Nat.toDigits_of_lt_base (by omega)]
  rfl

theorem digitChar_inj {m n : Nat} (hm : m < 16) (hn : n < 16) (h : m.digitChar = n.digitChar) :
    m = n := by
  have hall : ∀ m < 16, ∀ n < 16, m.digitChar = n.digitChar → m = n := by decide
  exact hall m hm n hn h

theorem hexByte_injective : Function.Injective Utf8.hexByte := by
  intro a b h
  have ha := a.toNat_lt
  have hb := b.toNat_lt
  have hlist := congrArg String.toList h
  simp only [Utf8.hexByte, String.toList_ofList] at hlist
  rw [Nat.toDigits_of_lt_base (by omega), Nat.toDigits_of_lt_base (by omega),
    Nat.toDigits_of_lt_base (by omega), Nat.toDigits_of_lt_base (by omega)] at hlist
  obtain ⟨hhigh, hlow, -⟩ : _ ∧ _ ∧ True := by simpa using hlist
  have hhigh := digitChar_inj (by omega) (by omega) hhigh
  have hlow := digitChar_inj (by omega) (by omega) hlow
  exact UInt8.toNat_inj.1 (by omega)

/-- Bytes can be told from their hexadecimal digits, as there are two for each. -/
theorem hexBytes_injective {a b : Utf8.Bytes}
    (h : String.join (a.map Utf8.hexByte) = String.join (b.map Utf8.hexByte)) : a = b := by
  have hlist := congrArg String.toList h
  simp only [String.toList_join, List.flatMap_map] at hlist
  clear h
  induction a generalizing b with
  | nil =>
      cases b with
      | nil => rfl
      | cons y b =>
          have hlength := congrArg List.length hlist
          simp only [List.flatMap_nil, List.flatMap_cons, List.length_append, hexByte_length,
            List.length_nil] at hlength
          omega
  | cons x a ih =>
      cases b with
      | nil =>
          have hlength := congrArg List.length hlist
          simp only [List.flatMap_nil, List.flatMap_cons, List.length_append, hexByte_length,
            List.length_nil] at hlength
          omega
      | cons y b =>
          rw [List.flatMap_cons, List.flatMap_cons] at hlist
          obtain ⟨hbyte, hrest⟩ := List.append_inj hlist (by rw [hexByte_length, hexByte_length])
          rw [hexByte_injective (String.toList_inj.1 hbyte), ih hrest]

/-! ### Candidates of a report -/

/-- What the identity of a candidate should be the hash of. -/
def ownPayload (c : Candidate) : Points :=
  payload c.text c.file c.position.line c.position.column c.localized

/-- Two candidates at the same place of different files that differ in nothing that is hashed. -/
def Blends (c c' : Candidate) : Prop :=
  c.position = c'.position ∧ c.localized = c'.localized ∧ Trades c.text c.file c'.text c'.file

theorem ownPayload_inj {c c' : Candidate} :
    c.ownPayload = c'.ownPayload ↔
      (c.text = c'.text ∧ c.file = c'.file ∧ c.position = c'.position ∧
        c.localized = c'.localized) ∨ c.Blends c' ∨ c'.Blends c := by
  have hposition : c.position = c'.position ↔
      c.position.line = c'.position.line ∧ c.position.column = c'.position.column := by
    cases c.position
    cases c'.position
    simp
  simp only [ownPayload, payload_inj, append_file_inj, Blends, ← and_assoc, ← hposition,
    eq_comm (a := c'.position), eq_comm (a := c'.localized)]
  tauto

def Marked (c : Candidate) : Prop :=
  identity c.text c.file c.position.line c.position.column c.localized = .ok c.id

theorem Marked.exists_message {c : Candidate} (h : c.Marked) :
    ∃ chars, c.ownPayload = Points.ofChars chars ∧ c.id = Digest.hex chars := by
  simp only [Marked, identity] at h
  split at h
  · next chars hchars => exact ⟨chars, Points.toChars?_eq_some.1 hchars, (Except.ok.inj h).symm⟩
  · cases h

theorem Marked.id_eq {c c' : Candidate} (h : c.Marked) (h' : c'.Marked)
    (hpayload : c.ownPayload = c'.ownPayload) : c.id = c'.id := by
  obtain ⟨m, hm, hid⟩ := h.exists_message
  obtain ⟨m', hm', hid'⟩ := h'.exists_message
  rw [hid, hid', Points.ofChars_injective (hm.symm.trans (hpayload.trans hm'))]

end Candidate

namespace Source.Document

variable {d : Document} {file : List Char} {functions : List (List Char)} {c : Candidate}

theorem marked_of_candidate {offset : Nat} {text : Points} {localized : Bool}
    {keyPath : Option Points}
    (h : d.candidate file offset text localized keyPath = .ok (some c)) : c.Marked := by
  simp only [candidate] at h
  split at h
  · cases h
  · split at h
    · next id hid =>
      obtain rfl := Option.some.inj (Except.ok.inj h)
      exact hid
    · cases h

theorem marked_of_candidateAt {n : Node} (h : d.candidateAt file functions n = .ok (some c)) :
    c.Marked := by
  unfold candidateAt at h
  split at h
  · simp only at h
    split at h
    · exact marked_of_candidate h
    · cases h
  · split at h
    · exact marked_of_candidate h
    · cases h
    · cases h
  · cases h

end Source.Document

theorem marked_of_scanText {text file : List Char} {functions : List (List Char)}
    {cs : List Candidate} (h : scanText text file functions = .ok cs) {c : Candidate}
    (hc : c ∈ cs) : c.Marked := by
  cases hparse : Document.parse (some (String.ofList file)) text with
  | error e =>
      rw [scanText, hparse] at h
      cases h
  | ok d =>
      obtain ⟨n, -, hat⟩ := Document.mem_candidates (Document.candidates_of_scanText hparse h) hc
      exact Document.marked_of_candidateAt hat

namespace Project

theorem scanVia_eq_ok {schedule : Pool.Schedule} {w : Workspace} {root : Path} {o : Options}
    {r : Report} :
    scanVia schedule w root o = .ok r ↔
      ∃ home base set found, w.expandHome root = .ok home ∧ w.locate home = .ok base ∧
        files w.store base o.extensions o.ignore o.directories = .ok set ∧
        gather (scanFile w.store base o.functions) (.start o.maxFailures) [] set.files =
          .ok found ∧
        r = ⟨base, found.1, set.files.length, found.2, set.warnings⟩ := by
  rw [scanVia_eq, bind_eq_ok]
  constructor
  · rintro ⟨home, hhome, h⟩
    obtain ⟨base, hbase, h⟩ := bind_eq_ok.1 h
    obtain ⟨set, hset, h⟩ := bind_eq_ok.1 h
    obtain ⟨found, hfound, h⟩ := bind_eq_ok.1 h
    exact ⟨home, base, set, found, mapError_eq_ok.1 hhome, mapError_eq_ok.1 hbase,
      mapError_eq_ok.1 hset, mapError_eq_ok.1 hfound, (Except.ok.inj h).symm⟩
  · rintro ⟨home, base, set, found, hhome, hbase, hset, hfound, rfl⟩
    exact ⟨home, mapError_eq_ok.2 hhome, bind_eq_ok.2 ⟨base, mapError_eq_ok.2 hbase,
      bind_eq_ok.2 ⟨set, mapError_eq_ok.2 hset,
        bind_eq_ok.2 ⟨found, mapError_eq_ok.2 hfound, rfl⟩⟩⟩⟩

/-- The candidates of a report are those of its files, so they are known by their digests. -/
theorem marked_of_scanVia {schedule : Pool.Schedule} {w : Workspace} {root : Path} {o : Options}
    {r : Report} (h : scanVia schedule w root o = .ok r) {c : Candidate} (hc : c ∈ r.candidates) :
    c.Marked := by
  obtain ⟨home, base, set, found, -, -, -, hgather, rfl⟩ := scanVia_eq_ok.1 h
  by_cases hreached : LimitReached o.maxFailures (set.files.filterMap
      (failureOf? (scanFile w.store base o.functions))).length
  · obtain ⟨a, ha⟩ := gather_start_of_reached hreached
    rw [ha] at hgather
    cases hgather
  · rw [gather_start_of_not_reached hreached] at hgather
    obtain rfl := Except.ok.inj hgather
    obtain ⟨file, -, hc⟩ := List.mem_flatMap.1 hc
    rw [candidatesOf_scanFile, candidatesIn] at hc
    split at hc
    · cases hc
    · next text _ =>
      cases hscan : scanText text file.toString.toList o.functions with
      | error f => simp [hscan, Except.toOption] at hc
      | ok cs => exact marked_of_scanText hscan (by simpa [hscan, Except.toOption] using hc)

def pair (text text' : String) : Workspace :=
  let file (text : String) : Entry := .leaf (.file (Utf8.encode text.toList))
  ⟨(Store.empty.place ["w", "a.tsx"] (file text)).place ["w", "b-a.tsx"] (file text'),
    ⟨"/", ["w"]⟩, ⟨"/", ["h"]⟩, []⟩

def pairFound (text text' : String) : Except Aborted (List Candidate × List Failure) :=
  gather (scanFile (pair text text').store ⟨"/", ["w"]⟩ defaultFunctions) (.start none) []
    [⟨"", ["a.tsx"]⟩, ⟨"", ["b-a.tsx"]⟩]

theorem files_pair (text text' : String) :
    files (pair text text').store ⟨"/", ["w"]⟩ Options.default.extensions [] [] =
      .ok ⟨[⟨"", ["a.tsx"]⟩, ⟨"", ["b-a.tsx"]⟩], []⟩ := by
  have hfound : (Wanted.filesBelow ⟨extensions Options.default.extensions, .ofPatterns []⟩
      ⟨"", []⟩ ((pair text text').store.children ⟨"/", ["w"]⟩)).eraseDups =
        [⟨"", ["a.tsx"]⟩, ⟨"", ["b-a.tsx"]⟩] := by
    rfl
  have hdirectory : (pair text text').store.isDirectory ⟨"/", ["w"]⟩ = true := by rfl
  have hextensions : (extensions Options.default.extensions).isEmpty = false := by decide +kernel
  have hsorted : [(⟨"", ["a.tsx"]⟩ : Path), ⟨"", ["b-a.tsx"]⟩].mergeSort Path.precedes =
      [⟨"", ["a.tsx"]⟩, ⟨"", ["b-a.tsx"]⟩] :=
    List.mergeSort_of_pairwise (by decide +kernel)
  have hshort : (pair text text').store.refuses ⟨"/", ["w"]⟩ = false := by rfl
  simp only [files, hshort, hdirectory, hextensions, bases, Bool.not_true, Bool.false_eq_true,
    if_false, List.isEmpty_nil, if_true, bind, Except.bind, List.flatMap_cons, List.flatMap_nil,
    List.append_nil, hfound, hsorted]
  rfl

theorem scan_pair (text text' : String) (p p' : Points)
    (h : (pairFound text text').map (fun found => found.1.map fun c => (c.file, c.ownPayload)) =
      .ok [("a.tsx".toList, p), ("b-a.tsx".toList, p')]) :
    ∃ r c c', scan (pair text text') ⟨"/", ["w"]⟩ .default = .ok r ∧ c ∈ r.candidates ∧
      c' ∈ r.candidates ∧ c.file = "a.tsx".toList ∧ c'.file = "b-a.tsx".toList ∧
      c.ownPayload = p ∧ c'.ownPayload = p' := by
  cases hfound : pairFound text text' with
  | error e =>
      rw [hfound] at h
      cases h
  | ok found =>
      rw [hfound] at h
      obtain ⟨c, rest, hcs, hc, hrest⟩ := List.map_eq_cons_iff.1 (Except.ok.inj h)
      obtain ⟨c', rest, rfl, hc', -⟩ := List.map_eq_cons_iff.1 hrest
      obtain ⟨hfile, hpayload⟩ := Prod.mk.inj hc
      obtain ⟨hfile', hpayload'⟩ := Prod.mk.inj hc'
      have hscan : scan (pair text text') ⟨"/", ["w"]⟩ .default =
          .ok ⟨⟨"/", ["w"]⟩, found.1, 2, found.2, []⟩ :=
        scanVia_eq_ok.2 ⟨⟨"/", ["w"]⟩, _, _, found, rfl, rfl, files_pair text text', hfound, rfl⟩
      exact ⟨_, c, c', hscan, by simp [hcs], by simp [hcs], hfile, hfile', hpayload, hpayload'⟩

/-- The identities of two candidates of a report that differ in file, place or kind are the digests
of two messages. These are the same only for candidates at the same place of files of which one name
is the other one behind `x-`, where the text in the file with the shorter name ends in `-x` and is
the other text up to there. -/
theorem candidates_told_apart {schedule : Pool.Schedule} {w : Workspace} {root : Path}
    {o : Options} {r : Report} (hscan : scanVia schedule w root o = .ok r) {c c' : Candidate}
    (hc : c ∈ r.candidates) (hc' : c' ∈ r.candidates)
    (hne : (c.file, c.position, c.localized) ≠ (c'.file, c'.position, c'.localized)) :
    ∃ m m', c.ownPayload = Points.ofChars m ∧ c'.ownPayload = Points.ofChars m' ∧
      (Utf8.encode m = Utf8.encode m' ↔ c.Blends c' ∨ c'.Blends c) ∧
      (c.id = c'.id ↔ Digest.bytes (Utf8.encode m) = Digest.bytes (Utf8.encode m')) := by
  obtain ⟨m, hm, hid⟩ := (marked_of_scanVia hscan hc).exists_message
  obtain ⟨m', hm', hid'⟩ := (marked_of_scanVia hscan hc').exists_message
  refine ⟨m, m', hm, hm', ?_, ?_⟩
  · have hencode : Utf8.encode m = Utf8.encode m' ↔ c.ownPayload = c'.ownPayload := by
      rw [hm, hm']
      exact ⟨fun h => by rw [Utf8.encode_injective h], fun h => by rw [Points.ofChars_injective h]⟩
    rw [hencode, Candidate.ownPayload_inj]
    refine or_iff_right ?_
    rintro ⟨-, hfile, hposition, hlocalized⟩
    exact hne (by rw [hfile, hposition, hlocalized])
  · rw [hid, hid', Digest.hex, Digest.hex]
    exact ⟨Candidate.hexBytes_injective, fun h => by rw [h]⟩

/-- The text `x-c` of `a.tsx` is told apart from the text `x` of `b-a.tsx`. -/
theorem candidates_told_apart_pair :
    ∃ r c c', scan (pair "<p>x-c</p>" "<p>x</p>") ⟨"/", ["w"]⟩ .default = .ok r ∧
      c ∈ r.candidates ∧ c' ∈ r.candidates ∧
      (c.file, c.position, c.localized) ≠ (c'.file, c'.position, c'.localized) ∧
      c.ownPayload = Points.ofString "x-c-a.tsx-1-3-plain" ∧
      c'.ownPayload = Points.ofString "x-b-a.tsx-1-3-plain" ∧ ¬ (c.Blends c' ∨ c'.Blends c) := by
  obtain ⟨r, c, c', hscan, hc, hc', hfile, hfile', hpayload, hpayload'⟩ :=
    scan_pair "<p>x-c</p>" "<p>x</p>" (Points.ofString "x-c-a.tsx-1-3-plain")
      (Points.ofString "x-b-a.tsx-1-3-plain") (by decide +kernel)
  have hne : (c.file, c.position, c.localized) ≠ (c'.file, c'.position, c'.localized) := by
    intro h
    have hnames := (Prod.mk.inj h).1
    rw [hfile, hfile'] at hnames
    revert hnames
    decide
  obtain ⟨m, m', hm, hm', hblends, -⟩ := candidates_told_apart hscan hc hc' hne
  refine ⟨r, c, c', hscan, hc, hc', hne, hpayload, hpayload', ?_⟩
  rw [← hblends]
  intro h
  rw [Utf8.encode_injective h, ← hm'] at hm
  rw [hpayload, hpayload'] at hm
  revert hm
  decide

/-- The text `x-b` of `a.tsx` is hashed as the text `x` at the same place of `b-a.tsx` is. -/
theorem candidates_blended :
    ∃ r c c', scan (pair "<p>x-b</p>" "<p>x</p>") ⟨"/", ["w"]⟩ .default = .ok r ∧
      c ∈ r.candidates ∧ c' ∈ r.candidates ∧ c.file ≠ c'.file ∧
      c.ownPayload = c'.ownPayload ∧ c.id = c'.id := by
  obtain ⟨r, c, c', hscan, hc, hc', hfile, hfile', hpayload, hpayload'⟩ :=
    scan_pair "<p>x-b</p>" "<p>x</p>" (Points.ofString "x-b-a.tsx-1-3-plain")
      (Points.ofString "x-b-a.tsx-1-3-plain") (by decide +kernel)
  have hsame : c.ownPayload = c'.ownPayload := hpayload.trans hpayload'.symm
  refine ⟨r, c, c', hscan, hc, hc', ?_, hsame,
    (marked_of_scanVia hscan hc).id_eq (marked_of_scanVia hscan hc') hsame⟩
  rw [hfile, hfile']
  decide

end Project

end Phrasebook

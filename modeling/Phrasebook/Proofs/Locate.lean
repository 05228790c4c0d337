import Phrasebook.Candidate
import Phrasebook.Proofs.Origin
import Phrasebook.Proofs.Outcome

/-!
Finding literals again. The literals of a file stand one after another, none in another, so that no
two are at the same position; and a plain candidate, which a scan tells by its text and position,
leads back to the run that it is.
-/

namespace Phrasebook

open Text Source

/-! ### Trimming code points -/

theorem Text.Points.strip_ofChars (cs : List Char) :
    Points.strip (Points.ofChars cs) = Points.ofChars (Text.strip cs) := by
  rw [Points.strip, Points.ofChars, trim_map]
  rfl

theorem Text.Points.strip_strip (l : Points) : l.strip.strip = l.strip := trim_trim _ l

namespace Source

namespace Document

section

variable {d : Document}

/-- A node that is a literal, with what it is if it decodes: a run, or a quoted text. -/
theorem literalAt_cases {n : Node} {r : Except Escape.Fault Literal} (h : d.literalAt n = some r) :
    n.isLiteral = true ∧ ∀ l, r = .ok l →
      (∃ start raw, n = .run start raw ∧ l = d.runLiteral start raw) ∨
        ∃ kind inAttribute isKey value, kind ≠ .text ∧
          l = d.quotedLiteral kind n.span inAttribute isKey value := by
  have hquoted : ∀ {kind inAttribute isKey} {value : Except Escape.Fault Points},
      kind ≠ .text → value.map (d.quotedLiteral kind n.span inAttribute isKey) = r →
        ∀ l, r = .ok l → ∃ kind inAttribute isKey value, kind ≠ .text ∧
          l = d.quotedLiteral kind n.span inAttribute isKey value := by
    rintro kind inAttribute isKey value hkind rfl l hl
    cases value with
    | error f => cases hl
    | ok value => exact ⟨kind, inAttribute, isKey, value, hkind, (Except.ok.inj hl).symm⟩
  unfold literalAt at h
  split at h
  · next start raw =>
    obtain rfl := Option.some.inj h
    exact ⟨rfl, fun l hl => Or.inl ⟨start, raw, rfl, (Except.ok.inj hl).symm⟩⟩
  · split at h
    · cases h
    · next hplace =>
      exact ⟨by simpa [Node.isLiteral] using hplace,
        fun l hl => Or.inr (hquoted (by simp) (Option.some.inj h) l hl)⟩
  · exact ⟨rfl, fun l hl => Or.inr (hquoted (by simp) (Option.some.inj h) l hl)⟩
  · split at h
    · cases h
    · next hparts =>
      exact ⟨by simpa [Node.isLiteral] using hparts,
        fun l hl => Or.inr (hquoted (by simp) (Option.some.inj h) l hl)⟩
  · cases h

/-- What is known of the literal that a node is. -/
theorem literalAt_ok {n : Node} {l : Literal} (h : d.literalAt n = some (.ok l)) :
    n.isLiteral = true ∧ l.span = n.span ∧ l.position = d.position n.start := by
  obtain ⟨hliteral, hcases⟩ := literalAt_cases h
  refine ⟨hliteral, ?_⟩
  rcases hcases l rfl with ⟨start, raw, rfl, rfl⟩ | ⟨kind, inAttribute, isKey, value, -, rfl⟩
  · exact ⟨rfl, rfl⟩
  · exact ⟨rfl, rfl⟩

/-- One literal comes before another: it ends before the other begins, and is elsewhere. -/
structure Apart (a b : Literal) : Prop where
  start : a.span.start < b.span.start
  span : a.span.stop ≤ b.span.start
  position : a.position ≠ b.position

/-- Nodes further on have positions further on. -/
theorem Laid.before_of_start_lt (hd : d.Laid) {m n : Node} (hm : m ∈ d.all) (hn : n ∈ d.all)
    (h : m.start < n.start) : (d.position m.start).Before (d.position n.start) := by
  obtain ⟨p, own, q, hpq, hp, -, -⟩ := hd.spelled m hm
  obtain ⟨p', own', q', hpq', hp', -, -⟩ := hd.spelled n hn
  rw [List.append_assoc] at hpq hpq'
  rw [hp, hp'] at h ⊢
  exact Position.before_ofOffset hpq hpq' h

theorem Laid.apart (hd : d.Laid) {m n : Node} (hm : m ∈ d.all) (hn : n ∈ d.all)
    (hleads : m.Leads n) {a b : Literal} (ha : d.literalAt m = some (.ok a))
    (hb : d.literalAt n = some (.ok b)) : Apart a b := by
  obtain ⟨hmLiteral, haSpan, haPosition⟩ := literalAt_ok ha
  obtain ⟨hnLiteral, hbSpan, hbPosition⟩ := literalAt_ok hb
  have hstop : m.stop ≤ n.start := by
    rcases hleads with hstop | hmem
    · exact hstop
    · have hpart := (hd.grounded m hm).isPart_of_mem hmLiteral hmem
      rw [Node.isLiteral_of_isPart hpart] at hnLiteral
      cases hnLiteral
  have hlt : m.start < n.start :=
    Nat.lt_of_lt_of_le ((hd.grounded m hm).start_lt_stop hmLiteral) hstop
  refine ⟨?_, ?_, ?_⟩
  · rw [haSpan, hbSpan]
    exact hlt
  · rw [haSpan, hbSpan]
    exact hstop
  · rw [haPosition, hbPosition]
    exact (hd.before_of_start_lt hm hn hlt).ne

def fits (text : List Char) (line column : Int) (l : Literal) : Bool :=
  l.position.line = line && l.position.column = column &&
    Points.strip l.value == Points.ofChars (strip text)

/-- What a search finds is one of the literals, and the one that is looked for. -/
theorem mem_of_search {text : List Char} {line column : Int}
    {ls : List (Except Escape.Fault Literal)} {l : Literal}
    (h : locate.search text line column ls = .ok (some l)) :
    .ok l ∈ ls ∧ fits text line column l = true := by
  induction ls with
  | nil => simp [locate.search] at h
  | cons r ls ih =>
      cases r with
      | error f => simp [locate.search] at h
      | ok other =>
          rw [locate.search] at h
          split at h
          · next hfits =>
            obtain rfl := Option.some.inj (Except.ok.inj h)
            exact ⟨by simp, hfits⟩
          · exact ⟨List.mem_cons_of_mem _ (ih h).1, (ih h).2⟩

theorem fits_of_locate {text : List Char} {line column : Int} {l : Literal}
    (h : d.locate text line column = .ok (some l)) : fits text line column l = true :=
  (mem_of_search h).2

/-- What is known of a candidate at an offset. -/
theorem candidate_eq_some {file : List Char} {offset : Nat} {text : Points} {localized : Bool}
    {keyPath : Option Points} {c : Candidate}
    (h : d.candidate file offset text localized keyPath = .ok (some c)) :
    c.text = Points.strip text ∧ c.position = d.position offset ∧ c.localized = localized ∧
      c.context = strip (lineText d.text c.position.line) := by
  simp only [candidate] at h
  split at h
  · cases h
  · split at h
    · obtain rfl := Option.some.inj (Except.ok.inj h)
      exact ⟨rfl, rfl, rfl, rfl⟩
    · cases h

/-- A plain candidate is a run. -/
theorem run_of_candidateAt {file : List Char} {functions : List (List Char)} {n : Node}
    {c : Candidate} (h : d.candidateAt file functions n = .ok (some c))
    (hplain : c.localized = false) :
    ∃ start raw, n = .run start raw ∧ c.position = d.position start ∧
      c.text = Points.strip (d.runLiteral start raw).value := by
  unfold candidateAt at h
  split at h
  · next start raw =>
    simp only at h
    split at h
    · obtain ⟨htext, hposition, -, -⟩ := candidate_eq_some h
      exact ⟨start, raw, rfl, hposition, by rw [htext, Points.strip_strip]⟩
    · cases h
  · split at h
    · obtain ⟨-, -, hlocalized, -⟩ := candidate_eq_some h
      rw [hplain] at hlocalized
      cases hlocalized
    · cases h
    · cases h
  · cases h

theorem candidates_eq_ok {file : List Char} {functions : List (List Char)} {cs : List Candidate} :
    d.candidates file functions = .ok cs ↔
      ∃ found, List.Forall₂ (fun n c => d.candidateAt file functions n = .ok c) d.all found ∧
        found.filterMap id = cs := by
  simp only [← mapM_eq_ok, candidates]
  cases d.all.mapM (d.candidateAt file functions) with
  | error f => simp [Except.map]
  | ok found => simp [Except.map]

theorem mem_candidates {file : List Char} {functions : List (List Char)} {cs : List Candidate}
    (h : d.candidates file functions = .ok cs) {c : Candidate} (hc : c ∈ cs) :
    ∃ n ∈ d.all, d.candidateAt file functions n = .ok (some c) := by
  obtain ⟨found, hfound, rfl⟩ := candidates_eq_ok.1 h
  obtain ⟨i, hi, hci⟩ := List.mem_iff_getElem.1 (show some c ∈ found by simpa using hc)
  have hat := (List.forall₂_iff_get.1 hfound).2 i (hfound.length_eq ▸ hi) hi
  exact ⟨_, List.get_mem _ _, hat.trans (congrArg Except.ok hci)⟩

theorem candidates_of_scanText {text file : List Char} {functions : List (List Char)}
    {cs : List Candidate} (hparse : parse (some (String.ofList file)) text = .ok d)
    (h : scanText text file functions = .ok cs) : d.candidates file functions = .ok cs := by
  unfold scanText at h
  rw [hparse] at h
  exact mapError_eq_ok.1 h

/-- The candidates of a text are those of a document whose tree fits the text. -/
theorem exists_laid_of_scanText {text file : List Char} {functions : List (List Char)}
    {cs : List Candidate} (h : scanText text file functions = .ok cs) :
    ∃ d, parse (some (String.ofList file)) text = .ok d ∧ d.Laid ∧
      d.candidates file functions = .ok cs := by
  cases hparse : parse (some (String.ofList file)) text with
  | error e =>
      rw [scanText, hparse] at h
      cases h
  | ok d => exact ⟨d, rfl, laid_of_parse hparse, candidates_of_scanText hparse h⟩

end

end Document

end Source

end Phrasebook

import Phrasebook.Proofs.CharacterReference
import Phrasebook.Proofs.Reapply

/-!
What a call takes the place of in a run of text. The white space around a run is found before its
references are decoded, and the text of a candidate is trimmed afterwards. So the white space that
is written as such is kept when the run is wrapped, and the rest of the run decodes to the text of
the candidate, up to white space at its ends that is written as a reference, or stands inside of
one.
-/

namespace Phrasebook

open Text Source

namespace Text

def HasVisibleEnds (text : List Char) : Prop :=
  (∀ c ∈ text.head?, isSpace c = false) ∧ ∀ c ∈ text.getLast?, isSpace c = false

theorem strip_eq_self_iff {text : List Char} : strip text = text ↔ HasVisibleEnds text :=
  trim_eq_self_iff isSpace

namespace CharacterReference

/-- White space around a text may be taken off before it is decoded. -/
theorem strip_decode_strip (raw : List Char) : strip (decode (strip raw)) = strip (decode raw) := by
  have hleft : ∀ c ∈ leftMargin isSpace raw, isSpace c = true :=
    fun c hc => blank_of_mem_leftMargin isSpace hc
  have hright : ∀ c ∈ rightMargin isSpace raw, isSpace c = true :=
    fun c hc => blank_of_mem_rightMargin isSpace hc
  have hplain : '&' ∉ leftMargin isSpace raw := fun hmem => absurd (hleft _ hmem) (by decide)
  calc strip (decode (strip raw))
      = strip (leftMargin isSpace raw ++ decode (strip raw) ++ rightMargin isSpace raw) :=
        (trim_append isSpace hleft hright _).symm
    _ = strip (decode (leftMargin isSpace raw ++ strip raw ++ rightMargin isSpace raw)) := by
        rw [decode_append_space hright, Document.decode_append hplain]
    _ = strip (decode raw) := by
        rw [show leftMargin isSpace raw ++ strip raw ++ rightMargin isSpace raw = raw from
          margins_trim isSpace raw]

end CharacterReference

end Text

namespace Source.Document

open CharacterReference

variable {d : Document} {file : List Char} {functions : List (List Char)} {c : Candidate} {n : Node}

/-- Two literals at one position are one. -/
theorem Laid.literal_unique (hd : d.Laid) {l l' : Literal} (h : .ok l ∈ d.literals)
    (h' : .ok l' ∈ d.literals) (hposition : l.position = l'.position) : l = l' := by
  obtain ⟨m, hm, hl⟩ := List.mem_filterMap.1 h
  obtain ⟨m', hm', hl'⟩ := List.mem_filterMap.1 h'
  rcases hd.leads_or hm hm' with hleads | hleads | rfl
  · exact absurd hposition (hd.apart hm hm' hleads hl hl').position
  · exact absurd hposition.symm (hd.apart hm' hm hleads hl' hl).position
  · exact Except.ok.inj (Option.some.inj (hl.symm.trans hl'))

theorem isOneLine_of_candidateAt (h : d.candidateAt file functions n = .ok (some c))
    (hplain : c.localized = false) : isOneLine c.text = true := by
  obtain ⟨start, raw, rfl, -, htext⟩ := run_of_candidateAt h hplain
  rw [htext]
  unfold candidateAt at h
  simp only at h
  split at h
  · assumption
  · cases h

theorem line_not_mem_of_isOneLine {chars : List Char}
    (h : isOneLine (Points.ofChars chars) = true) : '\n' ∉ chars := by
  intro hline
  simp only [isOneLine, Bool.not_eq_true', List.any_eq_false] at h
  exact h (CodePoint.ofChar '\n') (List.mem_map_of_mem hline) (by decide)

/-- A plain candidate is the run that its text and position locate. -/
theorem Laid.run_of_locate (hd : d.Laid) (hn : n ∈ d.all)
    (hcandidate : d.candidateAt file functions n = .ok (some c)) (hplain : c.localized = false)
    {chars : List Char} {l : Literal}
    (hlocate : d.locate chars c.position.line c.position.column = .ok (some l)) :
    ∃ start raw, n = .run start raw ∧ l = d.runLiteral start raw ∧
      c.text = Points.ofChars (strip (decode raw)) := by
  obtain ⟨start, raw, rfl, hposition, htext⟩ := run_of_candidateAt hcandidate hplain
  obtain ⟨hl, hfits⟩ := mem_of_search hlocate
  have hmem : .ok (d.runLiteral start raw) ∈ d.literals := List.mem_filterMap.2 ⟨_, hn, rfl⟩
  have hplace : l.position = (d.runLiteral start raw).position := by
    simp only [fits, Bool.and_eq_true, decide_eq_true_eq, Int.natCast_inj] at hfits
    exact (congrArg₂ Position.mk hfits.1.1 hfits.1.2).trans hposition
  refine ⟨start, raw, rfl, hd.literal_unique hl hmem hplace, ?_⟩
  rw [htext, ← Points.strip_ofChars]
  rfl

end Source.Document

/-- The call for a plain candidate takes the place of a part of its run and leaves the white space
around that part. The part decodes to the text of the candidate, but for white space at the ends
that decoding brings forth: exactly where there is none, it decodes to the text itself, and then no
line feed is lost. -/
theorem wrapped_content {text file : List Char} {functions : List (List Char)}
    {cs : List Candidate} {d : Document} {c : Candidate} {chars : List Char} {l : Literal}
    (hscan : scanText text file functions = .ok cs)
    (hparse : Document.parse (some (String.ofList file)) text = .ok d)
    (hc : c ∈ cs) (hplain : c.localized = false)
    (hlocate : d.locate chars c.position.line c.position.column = .ok (some l)) :
    let content := d.excerpt l.content
    let decoded := CharacterReference.decode content
    l.kind = .text ∧ c.text = Points.ofChars (strip decoded) ∧
      (Points.ofChars decoded = c.text ↔ HasVisibleEnds decoded) ∧
      (HasVisibleEnds decoded → '\n' ∉ content) ∧
      ∃ front left right back, text = front ++ (left ++ content ++ right) ++ back ∧
        l.span = ⟨byteLength front, byteLength front + byteLength (left ++ content ++ right)⟩ ∧
        (∀ x ∈ left ++ right, isSpace x = true) ∧
        ∀ call, Edit.apply text [Edit.ofLiteral l call] =
          .ok (front ++ left ++ ('\x7b' :: call ++ ['\x7d']) ++ (right ++ back)) := by
  have hd := Document.laid_of_parse hparse
  obtain rfl : d.text = text := Document.text_of_parse hparse
  obtain ⟨n, hn, hcandidate⟩ :=
    Document.mem_candidates (Document.candidates_of_scanText hparse hscan) hc
  have hline := Document.isOneLine_of_candidateAt hcandidate hplain
  obtain ⟨start, raw, rfl, rfl, hvalue⟩ := hd.run_of_locate hn hcandidate hplain hlocate
  obtain ⟨front, own, back, htext, hstart, -, hspelled⟩ := hd.spelled _ hn
  obtain rfl : own = raw := hspelled
  obtain rfl : start = byteLength front := hstart
  set left := leftMargin isSpace own with hleft
  set right := rightMargin isSpace own with hright
  have hmargins : left ++ strip own ++ right = own := margins_trim isSpace own
  have hsplit : d.text = (front ++ left) ++ strip own ++ (right ++ back) := by
    rw [htext]
    conv => lhs; rw [← hmargins]
    simp only [List.append_assoc]
  have hspan : (d.runLiteral (byteLength front) own).content =
      ⟨byteLength (front ++ left), byteLength (front ++ left) + byteLength (strip own)⟩ := by
    rw [byteLength_append]
    rfl
  have hcontent : d.excerpt (d.runLiteral (byteLength front) own).content = strip own := by
    rw [hspan, Document.excerpt, hsplit, excerpt_append]
  simp only [hcontent]
  rw [← CharacterReference.strip_decode_strip] at hvalue
  have hexact : Points.ofChars (CharacterReference.decode (strip own)) = c.text ↔
      HasVisibleEnds (CharacterReference.decode (strip own)) := by
    rw [hvalue, ← strip_eq_self_iff]
    exact ⟨fun h => (Points.ofChars_injective h).symm, fun h => congrArg Points.ofChars h.symm⟩
  refine ⟨rfl, hvalue, hexact, fun hvisible hmem => ?_, front, left, right, back, ?_, ?_, ?_, ?_⟩
  · rw [← hexact.2 hvisible] at hline
    exact Document.line_not_mem_of_isOneLine hline (CharacterReference.line_mem_decode hmem)
  · rw [hmargins]
    exact htext
  · rw [hmargins]
    rfl
  · intro x hx
    rcases List.mem_append.1 hx with hx | hx
    · exact blank_of_mem_leftMargin isSpace hx
    · exact blank_of_mem_rightMargin isSpace hx
  · intro call
    rw [hsplit]
    exact Edit.apply_one (congrArg (fun span => (span.start : Int)) hspan)
      (congrArg (fun span => (span.stop : Int)) hspan)

/-- Blanks around a text and a reference in its middle: the blanks stay outside of the braces. -/
theorem wrapped_content_ampersand :
    ∃ c d l, scanText "<p> A &amp; B </p>".toList "a.tsx".toList defaultFunctions = .ok [c] ∧
      Document.parse (some "a.tsx") "<p> A &amp; B </p>".toList = .ok d ∧
      d.locate "A & B".toList 1 3 = .ok (some l) ∧ d.excerpt l.content = "A &amp; B".toList ∧
      Points.ofChars (CharacterReference.decode (d.excerpt l.content)) = c.text := by
  let text := "<p> A &amp; B </p>".toList
  let c : Candidate :=
    { id := "5ba4932ed8f16b2e08fe8ae6337438c7", text := Points.ofString "A & B",
      file := "a.tsx".toList, position := ⟨1, 3⟩, context := text,
      localized := false, keyPath := none }
  let l : Literal :=
    { kind := .text, value := Points.ofString " A & B ", position := ⟨1, 3⟩, span := ⟨3, 14⟩,
      content := ⟨4, 13⟩, inAttribute := false, isKey := false }
  have hscan : scanText text "a.tsx".toList defaultFunctions = .ok [c] := by decide +kernel
  have hfacts : (Document.parse (some "a.tsx") text).toOption.map
      (fun d => (d.locate "A & B".toList 1 3, d.excerpt ⟨4, 13⟩,
        CharacterReference.decode (d.excerpt ⟨4, 13⟩))) =
        some (.ok (some l), "A &amp; B".toList, "A & B".toList) := by
    decide +kernel
  cases hparse : Document.parse (some "a.tsx") text with
  | error e =>
      rw [hparse] at hfacts
      cases hfacts
  | ok d =>
      rw [hparse] at hfacts
      obtain ⟨hlocate, hfacts⟩ := Prod.mk.inj (Option.some.inj hfacts)
      obtain ⟨hcontent, hdecode⟩ := Prod.mk.inj hfacts
      have hexact := (wrapped_content hscan hparse List.mem_cons_self rfl hlocate).2.2.1
      refine ⟨c, d, l, hscan, rfl, hlocate, hcontent, hexact.2 ?_⟩
      -- the text of the candidate itself has no white space at its ends
      show HasVisibleEnds (CharacterReference.decode (d.excerpt ⟨4, 13⟩))
      rw [hdecode]
      exact strip_eq_self_iff.1 (by decide +kernel)

/-- A space that is written as a reference is taken away with the text. -/
theorem content_takes_reference :
    ∃ c d l, scanText "<p>&nbsp;Save</p>".toList "a.tsx".toList defaultFunctions = .ok [c] ∧
      Document.parse (some "a.tsx") "<p>&nbsp;Save</p>".toList = .ok d ∧
      d.locate "Save".toList 1 3 = .ok (some l) ∧ c.text = Points.ofString "Save" ∧
      CharacterReference.decode (d.excerpt l.content) = '\u00a0' :: "Save".toList ∧
      Edit.apply "<p>&nbsp;Save</p>".toList [Edit.ofLiteral l "t(\"k\")".toList] =
        .ok "<p>\x7bt(\"k\")\x7d</p>".toList := by
  let text := "<p>&nbsp;Save</p>".toList
  let c : Candidate :=
    { id := "4d3402b42fc7a342bf746a3acec9df7e", text := Points.ofString "Save",
      file := "a.tsx".toList, position := ⟨1, 3⟩, context := text,
      localized := false, keyPath := none }
  let l : Literal :=
    { kind := .text, value := Points.ofChars ('\u00a0' :: "Save".toList), position := ⟨1, 3⟩,
      span := ⟨3, 13⟩, content := ⟨3, 13⟩, inAttribute := false, isKey := false }
  have hscan : scanText text "a.tsx".toList defaultFunctions = .ok [c] := by decide +kernel
  have hfacts : (Document.parse (some "a.tsx") text).toOption.map
      (fun d => (d.locate "Save".toList 1 3, CharacterReference.decode (d.excerpt ⟨3, 13⟩))) =
        some (.ok (some l), '\u00a0' :: "Save".toList) := by
    decide +kernel
  have happly : Edit.apply ("<p>".toList ++ "&nbsp;Save".toList ++ "</p>".toList)
      [Edit.ofLiteral l "t(\"k\")".toList] = _ :=
    Edit.apply_one rfl rfl
  cases hparse : Document.parse (some "a.tsx") text with
  | error e =>
      rw [hparse] at hfacts
      cases hfacts
  | ok d =>
      rw [hparse] at hfacts
      obtain ⟨hlocate, hdecoded⟩ := Prod.mk.inj (Option.some.inj hfacts)
      exact ⟨c, d, l, hscan, rfl, hlocate, rfl, hdecoded, happly⟩

end Phrasebook

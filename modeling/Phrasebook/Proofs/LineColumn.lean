import Phrasebook.Proofs.CandidateOrder
import Phrasebook.Proofs.Utf8

/-!
Lines, columns and offsets. A position counts lines and characters, an offset counts bytes, and a
line is found by splitting the text at its line feeds. The three agree wherever a node begins: the
bytes of the lines above and of the characters before the column are the offset, and the line that a
candidate shows is the one in which its node begins.
-/

namespace Phrasebook

open Text Source

namespace Source

/-! ### Lines of a text -/

def joinLines (lines : List (List Char)) : List Char := lines.flatMap (· ++ ['\n'])

/-- Characters in front of a text go to its first line. -/
theorem splitLines_append {a b line : List Char} {lines : List (List Char)} (ha : '\n' ∉ a)
    (hb : splitLines b = line :: lines) : splitLines (a ++ b) = (a ++ line) :: lines := by
  induction a with
  | nil => exact hb
  | cons c a ih =>
      obtain ⟨hc, ha⟩ : '\n' ≠ c ∧ '\n' ∉ a := by simpa using ha
      rw [List.cons_append, splitLines, ih ha, if_neg (by simpa using Ne.symm hc)]
      rfl

theorem splitLines_joinLines {lines : List (List Char)} (h : ∀ l ∈ lines, '\n' ∉ l)
    (text : List Char) : splitLines (joinLines lines ++ text) = lines ++ splitLines text := by
  induction lines with
  | nil => rfl
  | cons l lines ih =>
      obtain ⟨hl, hlines⟩ := List.forall_mem_cons.1 h
      have hfeed : splitLines ('\n' :: (joinLines lines ++ text)) =
          [] :: splitLines (joinLines lines ++ text) := by
        rw [splitLines, if_pos (by decide)]
      have hsplit := splitLines_append hl hfeed
      rw [ih hlines, List.append_nil] at hsplit
      simpa [joinLines] using hsplit

/-- A text is its lines above the last one, and the last one. -/
theorem exists_joinLines (text : List Char) :
    ∃ lines tail, text = joinLines lines ++ tail ∧ (∀ l ∈ lines, '\n' ∉ l) ∧ '\n' ∉ tail := by
  induction text with
  | nil => exact ⟨[], [], rfl, by simp, by simp⟩
  | cons c r ih =>
      obtain ⟨lines, tail, rfl, hlines, htail⟩ := ih
      by_cases hc : c = '\n'
      · exact ⟨[] :: lines, tail, by simp [joinLines, hc], by simpa using hlines, htail⟩
      · cases lines with
        | nil => exact ⟨[], c :: tail, rfl, by simp, by simp [Ne.symm hc, htail]⟩
        | cons l lines =>
            obtain ⟨hl, hlines⟩ := List.forall_mem_cons.1 hlines
            refine ⟨(c :: l) :: lines, tail, rfl, ?_, htail⟩
            exact List.forall_mem_cons.2 ⟨by simp [Ne.symm hc, hl], hlines⟩

/-- The rest of a line, and what comes after it. -/
theorem exists_head (text : List Char) :
    ∃ head below lines, text = head ++ below ∧ splitLines text = head :: lines ∧ '\n' ∉ head ∧
      (below = [] ∨ below.head? = some '\n') := by
  induction text with
  | nil => exact ⟨[], [], [], rfl, rfl, by simp, Or.inl rfl⟩
  | cons c r ih =>
      obtain ⟨head, below, lines, hr, hsplit, hhead, hbelow⟩ := ih
      by_cases hc : c = '\n'
      · refine ⟨[], c :: r, splitLines r, rfl, ?_, by simp, Or.inr (by simp [hc])⟩
        rw [splitLines, if_pos (by simp [hc])]
      · refine ⟨c :: head, below, lines, by simp [hr], ?_, by simp [Ne.symm hc, hhead], hbelow⟩
        rw [splitLines, if_neg (by simpa using hc), hsplit]

/-! ### Positions -/

namespace Position

theorem foldl_of_not_mem {tail : List Char} (h : '\n' ∉ tail) (p : Position) :
    tail.foldl next p = ⟨p.line, p.column + tail.length⟩ := by
  induction tail generalizing p with
  | nil => rfl
  | cons c tail ih =>
      obtain ⟨hc, htail⟩ : '\n' ≠ c ∧ '\n' ∉ tail := by simpa using h
      rw [List.foldl_cons, ih htail, next, if_neg (by simpa using Ne.symm hc), List.length_cons]
      simp only [Position.mk.injEq, true_and]
      omega

theorem foldl_joinLines {lines : List (List Char)} (h : ∀ l ∈ lines, '\n' ∉ l) (line : Nat) :
    (joinLines lines).foldl next ⟨line, 0⟩ = ⟨line + lines.length, 0⟩ := by
  induction lines generalizing line with
  | nil => rfl
  | cons l lines ih =>
      obtain ⟨hl, hlines⟩ := List.forall_mem_cons.1 h
      have hcons : joinLines (l :: lines) = l ++ '\n' :: joinLines lines := by simp [joinLines]
      have hnext : (⟨line, 0 + l.length⟩ : Position).next '\n' = ⟨line + 1, 0⟩ := rfl
      rw [hcons, List.foldl_append, foldl_of_not_mem hl, List.foldl_cons, hnext, ih hlines,
        List.length_cons]
      simp only [Position.mk.injEq, and_true]
      omega

/-- The bytes before a position: those of the lines above it with their line feeds, and those of the
characters before its column. -/
def bytesBefore (text : List Char) (p : Position) : Nat :=
  (Utf8.encode (joinLines ((splitLines text).take (p.line - 1)))).length +
    (Utf8.encode ((lineText text p.line).take p.column)).length

structure Marks (text : List Char) (offset : Nat) (p : Position) : Prop where
  line_pos : 1 ≤ p.line
  line_le : p.line ≤ (splitLines text).length
  column_le : p.column ≤ (lineText text p.line).length
  offset_eq : offset = p.bytesBefore text

end Position

/-- A line of a text, without its line feed, in which an offset is. -/
def LineAt (text : List Char) (offset : Nat) (line : List Char) : Prop :=
  ∃ above below, text = above ++ line ++ below ∧ '\n' ∉ line ∧
    (above = [] ∨ above.getLast? = some '\n') ∧ (below = [] ∨ below.head? = some '\n') ∧
    byteLength above ≤ offset ∧ offset ≤ byteLength (above ++ line)

theorem getLast?_joinLines (lines : List (List Char)) :
    joinLines lines = [] ∨ (joinLines lines).getLast? = some '\n' := by
  rcases List.eq_nil_or_concat lines with rfl | ⟨init, l, rfl⟩
  · exact Or.inl rfl
  · simp [joinLines]

/-- The position of a place in a text, with the lines above it and the line that it is in. -/
theorem exists_line (before after : List Char) :
    ∃ lines tail head later, before = joinLines lines ++ tail ∧
      Position.ofOffset (before ++ after) (byteLength before) = ⟨lines.length + 1, tail.length⟩ ∧
      splitLines (before ++ after) = lines ++ (tail ++ head) :: later ∧
      LineAt (before ++ after) (byteLength before) (tail ++ head) := by
  obtain ⟨lines, tail, rfl, hlines, htail⟩ := exists_joinLines before
  obtain ⟨head, below, later, rfl, hsplit, hhead, hbelow⟩ := exists_head after
  refine ⟨lines, tail, head, later, rfl, ?_, ?_, joinLines lines, below, by simp,
    by simp [htail, hhead], getLast?_joinLines lines, hbelow, ?_, ?_⟩
  · rw [Position.ofOffset, Position.after_append, List.foldl_append,
      Position.foldl_joinLines hlines, Position.foldl_of_not_mem htail]
    simp only [Position.mk.injEq]
    omega
  · rw [List.append_assoc, splitLines_joinLines hlines, splitLines_append htail hsplit]
  · rw [byteLength_append]
    omega
  · simp only [byteLength_append]
    omega

theorem lineText_eq {text line : List Char} {lines later : List (List Char)}
    (h : splitLines text = lines ++ line :: later) : lineText text (lines.length + 1) = line := by
  simp [lineText, h]

theorem Position.marks_ofOffset (before after : List Char) :
    (ofOffset (before ++ after) (byteLength before)).Marks (before ++ after)
      (byteLength before) := by
  obtain ⟨lines, tail, head, later, hbefore, hposition, hsplit, -⟩ := exists_line before after
  rw [hposition]
  have hline := lineText_eq hsplit
  refine ⟨Nat.succ_pos _, ?_, ?_, ?_⟩
  · simp only [hsplit, List.length_append, List.length_cons]
    omega
  · rw [hline, List.length_append]
    exact Nat.le_add_right _ _
  · rw [bytesBefore, hline, hsplit, Nat.add_sub_cancel, List.take_left, List.take_left,
      Utf8.length_encode, Utf8.length_encode, ← byteLength_append, ← hbefore]

theorem lineAt_ofOffset (before after : List Char) :
    LineAt (before ++ after) (byteLength before)
      (lineText (before ++ after)
        (Position.ofOffset (before ++ after) (byteLength before)).line) := by
  obtain ⟨lines, tail, head, later, -, hposition, hsplit, hline⟩ := exists_line before after
  rw [hposition, lineText_eq hsplit]
  exact hline

/-! ### Nodes -/

namespace Document

variable {d : Document}

theorem Laid.marks (hd : d.Laid) {n : Node} (hn : n ∈ d.all) :
    (d.position n.start).Marks d.text n.start := by
  obtain ⟨before, own, after, htext, hstart, -, -⟩ := hd.spelled n hn
  rw [position, htext, hstart, List.append_assoc]
  exact Position.marks_ofOffset before (own ++ after)

theorem Laid.lineAt (hd : d.Laid) {n : Node} (hn : n ∈ d.all) :
    LineAt d.text n.start (lineText d.text (d.position n.start).line) := by
  obtain ⟨before, own, after, htext, hstart, -, -⟩ := hd.spelled n hn
  rw [position, htext, hstart, List.append_assoc]
  exact lineAt_ofOffset before (own ++ after)

end Document

end Source

/-- Positions and offsets agree for every node of a file, so for every literal and every call: the
position is one of the text, and the bytes before it are the offset. Hence a position stands for one
offset only. A candidate has the position of its node, and shows the line that the node begins in.
All that is asked of the reading of the file is that its tree fits the text. -/
theorem positions_agree {d : Document} (hd : d.Laid) :
    (∀ n ∈ d.all, (d.position n.start).Marks d.text n.start) ∧
      (∀ l, .ok l ∈ d.literals → l.position.Marks d.text l.span.start) ∧
      (∀ m ∈ d.all, ∀ n ∈ d.all, d.position m.start = d.position n.start → m.start = n.start) ∧
      ∀ file functions cs, d.candidates file functions = .ok cs → ∀ c ∈ cs,
        ∃ n ∈ d.all, d.candidateAt file functions n = .ok (some c) ∧
          c.position.Marks d.text n.start ∧
          ∃ line, LineAt d.text n.start line ∧ c.context = strip line := by
  refine ⟨fun n hn => hd.marks hn, ?_, ?_, ?_⟩
  · intro l hl
    obtain ⟨n, hn, hat⟩ := List.mem_filterMap.1 hl
    obtain ⟨-, hspan, hposition⟩ := Document.literalAt_ok hat
    rw [hspan, hposition]
    exact hd.marks hn
  · intro m hm n hn hsame
    have hstart := (hd.marks hm).offset_eq
    rw [hsame] at hstart
    exact hstart.trans (hd.marks hn).offset_eq.symm
  · intro file functions cs hcandidates c hc
    obtain ⟨n, hn, hat⟩ := Document.mem_candidates hcandidates hc
    obtain ⟨⟨hposition, hcontext⟩, -⟩ := Document.candidateAt_cases hat
    refine ⟨n, hn, hat, ?_, _, hd.lineAt hn, ?_⟩
    · rw [hposition]
      exact hd.marks hn
    · rw [hcontext, hposition]

/-- A byte order mark, both characters of a line end and a character of four bytes come before the
second text. -/
theorem positions_agree_wide :
    ∃ d l l', Document.parse (some "a.tsx") "\ufeff\r\n<b>😀\x7b0\x7dA</b>".toList = .ok d ∧
      d.literals = [.ok l, .ok l'] ∧ l'.position = ⟨2, 7⟩ ∧ l'.span.start = 15 ∧
      (⟨2, 7⟩ : Position).Marks "\ufeff\r\n<b>😀\x7b0\x7dA</b>".toList 15 := by
  let text := "\ufeff\r\n<b>😀\x7b0\x7dA</b>".toList
  let literal (value : String) (column start stop : Nat) : Literal :=
    { kind := .text, value := Points.ofString value, position := ⟨2, column⟩, span := ⟨start, stop⟩,
      content := ⟨start, stop⟩, inAttribute := false, isKey := false }
  have hliterals : (Document.parse (some "a.tsx") text).toOption.map Document.literals =
      some [.ok (literal "😀" 3 8 12), .ok (literal "A" 7 15 16)] := by
    decide +kernel
  cases hparse : Document.parse (some "a.tsx") text with
  | error e =>
      rw [hparse] at hliterals
      cases hliterals
  | ok d =>
      rw [hparse] at hliterals
      have hfound := Option.some.inj hliterals
      have hagree := positions_agree (Document.laid_of_parse hparse)
      rw [Document.text_of_parse hparse] at hagree
      refine ⟨d, _, _, rfl, hfound, rfl, rfl, ?_⟩
      exact hagree.2.1 (literal "A" 7 15 16) (by rw [hfound]; simp)

end Phrasebook

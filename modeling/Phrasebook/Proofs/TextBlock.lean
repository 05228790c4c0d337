import Mathlib.Data.List.SplitBy
import Phrasebook.Proofs.Layout

/-!
The children of an element in a row. A child is a piece of text or something nested, and pieces
that follow one another are a block. No piece is in two blocks, and between two blocks there is
always a child that is no text. The pieces of one text that are more than layout are one block,
which spans the run of the text.

Runs are found child by child: where one begins is decided by the child before, and where it ends by
the children after it. Each of the two looks at one side only, and together they find the blocks.
-/

namespace Phrasebook.Source

open Text

theorem Lexeme.ne_nil_of_mem_pieces {text : List Char} {p : Bool × List Char}
    (h : p ∈ pieces text) : p.2 ≠ [] := by
  fun_induction pieces text with
  | case1 => cases h
  | case2 c r visible more hpiece ih =>
      rcases List.mem_cons.1 h with rfl | h
      · exact List.cons_ne_nil _ _
      · exact ih h

/-- A child of an element, and whether it is text: characters, a character reference or an
ampersand. -/
structure Child where
  span : Span
  isText : Bool
  deriving DecidableEq, Repr

namespace Child

/-- Children in a row stand one after another, and no piece of text is empty. -/
structure IsRow (row : List Child) : Prop where
  ordered : ∀ c ∈ row, c.span.start ≤ c.span.stop
  visible : ∀ c ∈ row, c.isText = true → c.span.start < c.span.stop
  apart : row.Pairwise fun a b => a.span.stop ≤ b.span.start

theorem IsRow.append_left {a b : List Child} (h : IsRow (a ++ b)) : IsRow a :=
  ⟨fun c hc => h.ordered c (List.mem_append_left _ hc),
    fun c hc => h.visible c (List.mem_append_left _ hc), (List.pairwise_append.1 h.apart).1⟩

theorem IsRow.append_right {a b : List Child} (h : IsRow (a ++ b)) : IsRow b :=
  ⟨fun c hc => h.ordered c (List.mem_append_right _ hc),
    fun c hc => h.visible c (List.mem_append_right _ hc), (List.pairwise_append.1 h.apart).2.1⟩

structure Within (low high : Nat) (row : List Child) : Prop where
  isRow : IsRow row
  bounds : ∀ c ∈ row, low ≤ c.span.start ∧ c.span.stop ≤ high

theorem within_nil (low high : Nat) : Within low high [] :=
  ⟨⟨by simp, by simp, .nil⟩, by simp⟩

theorem within_singleton {low start stop : Nat} {isText : Bool} (hlow : low ≤ start)
    (hordered : start ≤ stop) (hvisible : isText = true → start < stop) :
    Within low stop [⟨⟨start, stop⟩, isText⟩] :=
  ⟨⟨by simpa using hordered, by simpa using hvisible, by simp⟩, by simpa using hlow⟩

/-- Rows one after another are a row. -/
theorem Within.append {low middle high : Nat} {a b : List Child} (ha : Within low middle a)
    (hb : Within middle high b) (hlow : low ≤ middle) (hhigh : middle ≤ high) :
    Within low high (a ++ b) := by
  refine ⟨⟨?_, ?_, ?_⟩, ?_⟩
  · exact List.forall_mem_append.2 ⟨ha.isRow.ordered, hb.isRow.ordered⟩
  · exact List.forall_mem_append.2 ⟨ha.isRow.visible, hb.isRow.visible⟩
  · refine List.pairwise_append.2 ⟨ha.isRow.apart, hb.isRow.apart, fun x hx y hy => ?_⟩
    exact Nat.le_trans (ha.bounds x hx).2 (hb.bounds y hy).1
  · refine List.forall_mem_append.2 ⟨fun c hc => ?_, fun c hc => ?_⟩
    · exact ⟨(ha.bounds c hc).1, Nat.le_trans (ha.bounds c hc).2 hhigh⟩
    · exact ⟨Nat.le_trans hlow (hb.bounds c hc).1, (hb.bounds c hc).2⟩

/-- The blocks of text in a row: as many children as follow one another and are text. -/
def blocks (row : List Child) : List (List Child) :=
  (row.splitBy fun a b => a.isText && b.isText).filter (·.all isText)

def hull (block : List Child) : Span :=
  ⟨(block.head?.map (·.span.start)).getD 0, (block.getLast?.map (·.span.stop)).getD 0⟩

def textSpans (row : List Child) : List Span := (blocks row).map hull

/-! ### Blocks one by one -/

theorem blocks_append {a b : List Child}
    (h : ∀ x ∈ a.getLast?, ∀ y ∈ b.head?, (x.isText && y.isText) = false) :
    blocks (a ++ b) = blocks a ++ blocks b := by
  rw [blocks, List.splitBy_append h, List.filter_append]
  rfl

/-- Text that nothing else interrupts is one block. -/
theorem blocks_text {row : List Child} (hne : row ≠ []) (h : ∀ c ∈ row, c.isText = true) :
    blocks row = [row] := by
  have hchain : row.IsChain fun a b => (a.isText && b.isText) = true := by
    refine (List.pairwise_of_forall_mem_list fun a ha b hb => ?_).isChain
    rw [h a ha, h b hb]
    rfl
  rw [blocks, List.splitBy_of_isChain hne hchain]
  simpa using h

theorem blocks_other {c : Child} (hc : c.isText = false) (row : List Child) :
    blocks (c :: row) = blocks row := by
  have hone : blocks [c] = [] := by
    rw [blocks, List.splitBy_of_isChain (List.cons_ne_nil c []) (List.isChain_singleton c)]
    simp [hc]
  rw [← List.singleton_append, blocks_append (by simp [hc]), hone, List.nil_append]

/-- Where there is no text there are no blocks. -/
theorem blocks_eq_nil {row : List Child} (h : ∀ c ∈ row, c.isText = false) : blocks row = [] := by
  induction row with
  | nil => rfl
  | cons c row ih =>
      rw [blocks_other (h c (by simp)), ih fun x hx => h x (by simp [hx])]

/-- Children that are no text, around others, make no difference. -/
theorem blocks_between {a b c : List Child} (ha : ∀ x ∈ a, x.isText = false)
    (hc : ∀ x ∈ c, x.isText = false) : blocks (a ++ (b ++ c)) = blocks b := by
  rw [blocks_append, blocks_append, blocks_eq_nil ha, blocks_eq_nil hc, List.nil_append,
    List.append_nil]
  · intro x _ y hy
    rw [hc y (List.mem_of_mem_head? hy), Bool.and_false]
  · intro x hx y _
    rw [ha x (List.mem_of_mem_getLast? hx), Bool.false_and]

/-- An induction over rows, from block to block. -/
@[elab_as_elim]
theorem induction_blocks {P : List Child → Prop} (hnil : P [])
    (hother : ∀ c row, c.isText = false → P row → P (c :: row))
    (hblock : ∀ block row, block ≠ [] → (∀ c ∈ block, c.isText = true) →
      (∀ c ∈ row.head?, c.isText = false) → P row → P (block ++ row)) (row : List Child) :
    P row := by
  induction hlength : row.length using Nat.strong_induction_on generalizing row with
  | _ n ih =>
      cases row with
      | nil => exact hnil
      | cons c row =>
          rw [List.length_cons] at hlength
          cases hc : c.isText with
          | false => exact hother c row hc (ih row.length (by omega) row rfl)
          | true =>
              have hle := (List.dropWhile_suffix (p := isText) (l := row)).length_le
              have hsplit : c :: row = c :: row.takeWhile isText ++ row.dropWhile isText := by simp
              rw [hsplit]
              refine hblock _ _ (List.cons_ne_nil c _) ?_ ?_ (ih _ (by omega) _ rfl)
              · exact List.forall_mem_cons.2 ⟨hc, fun x hx => List.mem_takeWhile_imp hx⟩
              · intro x hx
                have hnot := List.head?_dropWhile_not isText row
                rw [hx] at hnot
                exact hnot

theorem blocks_block {block row : List Child} (hne : block ≠ [])
    (h : ∀ c ∈ block, c.isText = true) (hrow : ∀ c ∈ row.head?, c.isText = false) :
    blocks (block ++ row) = block :: blocks row := by
  rw [blocks_append, blocks_text hne h, List.singleton_append]
  intro x _ y hy
  rw [hrow y hy, Bool.and_false]

theorem mem_of_mem_blocks {row block : List Child} (h : block ∈ blocks row) {c : Child}
    (hc : c ∈ block) : c ∈ row := by
  rw [← List.flatten_splitBy (fun a b : Child => a.isText && b.isText) row]
  exact List.mem_flatten.2 ⟨block, (List.mem_filter.1 h).1, hc⟩

theorem ne_nil_of_mem_blocks {row block : List Child} (h : block ∈ blocks row) : block ≠ [] :=
  List.ne_nil_of_mem_splitBy (List.mem_filter.1 h).1

/-! ### Hulls -/

theorem start_le_of_mem {block : List Child} (h : IsRow block) {c : Child} (hc : c ∈ block) :
    (hull block).start ≤ c.span.start := by
  cases block with
  | nil => cases hc
  | cons first block =>
      rcases List.mem_cons.1 hc with rfl | hc
      · exact Nat.le_refl _
      · have hle := (List.pairwise_cons.1 h.apart).1 c hc
        exact Nat.le_trans (h.ordered first (by simp)) hle

theorem le_stop_of_mem {block : List Child} (h : IsRow block) {c : Child} (hc : c ∈ block) :
    c.span.stop ≤ (hull block).stop := by
  rcases List.eq_nil_or_concat block with rfl | ⟨init, last, rfl⟩
  · cases hc
  · rw [List.concat_eq_append] at hc h ⊢
    have hstop : (hull (init ++ [last])).stop = last.span.stop := by
      rw [hull, List.getLast?_concat]
      rfl
    rw [hstop]
    rcases List.mem_append.1 hc with hc | hc
    · have hle := (List.pairwise_append.1 h.apart).2.2 c hc last (by simp)
      exact Nat.le_trans hle (h.ordered last (by simp))
    · rw [List.mem_singleton.1 hc]

/-- The hull of a block begins with a child of the block, and so it ends. -/
theorem exists_ends {block : List Child} (hne : block ≠ []) :
    ∃ first ∈ block, ∃ last ∈ block, hull block = ⟨first.span.start, last.span.stop⟩ := by
  refine ⟨block.head hne, List.head_mem hne, block.getLast hne, List.getLast_mem hne, ?_⟩
  rw [hull, List.head?_eq_some_head hne, List.getLast?_eq_some_getLast hne]
  rfl

/-! ### What blocks are -/

/-- Every piece of text is in one of the spans of a row. -/
theorem exists_textSpan {row : List Child} (h : IsRow row) {c : Child} (hc : c ∈ row)
    (htext : c.isText = true) :
    ∃ span ∈ textSpans row, span.start ≤ c.span.start ∧ c.span.stop ≤ span.stop := by
  induction row using induction_blocks with
  | hnil => cases hc
  | hother other row hother ih =>
      rcases List.mem_cons.1 hc with rfl | hc
      · rw [hother] at htext
        cases htext
      · rw [textSpans, blocks_other hother]
        exact ih (IsRow.append_right (a := [other]) h) hc
  | hblock block row hne hblock hrow ih =>
      rw [textSpans, blocks_block hne hblock hrow, List.map_cons]
      rcases List.mem_append.1 hc with hc | hc
      · exact ⟨hull block, by simp, start_le_of_mem h.append_left hc,
          le_stop_of_mem h.append_left hc⟩
      · obtain ⟨span, hspan, hin⟩ := ih h.append_right hc
        exact ⟨span, List.mem_cons_of_mem _ hspan, hin⟩

/-- Between two blocks of a row there is a child that is no text. -/
theorem separate_textSpans {row : List Child} (h : IsRow row) :
    (textSpans row).Pairwise fun a b =>
      ∃ c ∈ row, c.isText = false ∧ a.stop ≤ c.span.start ∧ c.span.stop ≤ b.start := by
  induction row using induction_blocks with
  | hnil => simp [textSpans, blocks]
  | hother other row hother ih =>
      rw [textSpans, blocks_other hother]
      refine (ih (IsRow.append_right (a := [other]) h)).imp ?_
      rintro a b ⟨c, hc, hbetween⟩
      exact ⟨c, List.mem_cons_of_mem _ hc, hbetween⟩
  | hblock block row hne hblock hrow ih =>
      rw [textSpans, blocks_block hne hblock hrow, List.map_cons, List.pairwise_cons]
      constructor
      · intro span hspan
        obtain ⟨other, hother, rfl⟩ := List.mem_map.1 hspan
        -- the first child after the block separates it from all blocks that follow
        cases row with
        | nil => cases hother
        | cons c row =>
            have hc : c.isText = false := hrow c rfl
            rw [blocks_other hc] at hother
            obtain ⟨_, _, last, hlast, hends⟩ := exists_ends hne
            obtain ⟨first, hfirst, _, _, hbegins⟩ := exists_ends (ne_nil_of_mem_blocks hother)
            refine ⟨c, by simp, hc, ?_, ?_⟩
            · rw [hends]
              exact (List.pairwise_append.1 h.apart).2.2 last hlast c (by simp)
            · rw [hbegins]
              exact (List.pairwise_cons.1 h.append_right.apart).1 first
                (mem_of_mem_blocks hother hfirst)
      · refine (ih h.append_right).imp ?_
        rintro a b ⟨c, hc, hbetween⟩
        exact ⟨c, List.mem_append_right _ hc, hbetween⟩

/-! ### Runs, child by child -/

/-- The last child of the run that a piece of text is in, by the children after the piece. -/
def lastText (last : Child) : List Child → Child
  | [] => last
  | sibling :: following => if sibling.isText then lastText sibling following else last

/-- The run that begins with a child, if one does: the child is text, and the one before is not. -/
def runAt (previous : Option Child) (c : Child) (following : List Child) : Option Span :=
  if !c.isText then none
  else if previous.any isText then none
  else some ⟨c.span.start, (lastText c following).span.stop⟩

/-- The runs that begin with the children of a row, given the child before the row. -/
def runs (previous : Option Child) : List Child → List Span
  | [] => []
  | c :: following => (runAt previous c following).toList ++ runs (some c) following

theorem runs_other {c : Child} (hc : c.isText = false) (previous : Option Child)
    (row : List Child) : runs previous (c :: row) = runs (some c) row := by
  simp [runs, runAt, hc]

/-- Of the child before a row it matters only whether it is text, and not even that if the row does
not begin with text. -/
theorem runs_previous {row : List Child} (hrow : ∀ c ∈ row.head?, c.isText = false)
    (previous : Option Child) : runs previous row = runs none row := by
  cases row with
  | nil => rfl
  | cons c row => rw [runs_other (hrow c rfl), runs_other (hrow c rfl)]

/-- Inside a block no run begins. -/
theorem runs_inside {previous : Child} (hprevious : previous.isText = true) {block row : List Child}
    (h : ∀ c ∈ block, c.isText = true) (hrow : ∀ c ∈ row.head?, c.isText = false) :
    runs (some previous) (block ++ row) = runs none row := by
  induction block generalizing previous with
  | nil => exact runs_previous hrow _
  | cons c block ih =>
      have hc : c.isText = true := h c (by simp)
      have hrest := ih hc fun x hx => h x (by simp [hx])
      simp [runs, runAt, hc, hprevious, hrest]

/-- What follows a piece of a block ends with the block. -/
theorem lastText_block {block row : List Child} (h : ∀ c ∈ block, c.isText = true)
    (hrow : ∀ c ∈ row.head?, c.isText = false) (first : Child) :
    lastText first (block ++ row) = (first :: block).getLast (List.cons_ne_nil _ _) := by
  induction block generalizing first with
  | nil =>
      cases row with
      | nil => rfl
      | cons c row => simp [lastText, hrow c rfl]
  | cons c block ih =>
      have hc : c.isText = true := h c (by simp)
      have hrest := ih (fun x hx => h x (by simp [hx])) c
      simp [lastText, hc, hrest]

/-- One run begins with the first child of a block, and ends with the last. -/
theorem runs_block {block row : List Child} (hne : block ≠ [])
    (h : ∀ c ∈ block, c.isText = true) (hrow : ∀ c ∈ row.head?, c.isText = false)
    {previous : Option Child} (hprevious : ∀ p ∈ previous, p.isText = false) :
    runs previous (block ++ row) = hull block :: runs none row := by
  obtain ⟨first, rest, rfl⟩ := List.exists_cons_of_ne_nil hne
  have hfirst : first.isText = true := h first (by simp)
  have hrest : ∀ c ∈ rest, c.isText = true := fun c hc => h c (by simp [hc])
  have hbefore : previous.any isText = false := by
    cases previous with
    | none => rfl
    | some p => exact hprevious p rfl
  have hhull : hull (first :: rest) =
      ⟨first.span.start, ((first :: rest).getLast (List.cons_ne_nil _ _)).span.stop⟩ := by
    rw [hull, List.getLast?_eq_some_getLast (List.cons_ne_nil _ _)]
    rfl
  rw [List.cons_append, runs, runs_inside hfirst hrest hrow, runAt, hfirst, hbefore,
    lastText_block hrest hrow, hhull]
  rfl

/-- The runs of a row are its blocks of text. -/
theorem runs_eq_textSpans {row : List Child} {previous : Option Child}
    (hprevious : ∀ p ∈ previous, p.isText = false) : runs previous row = textSpans row := by
  induction row using induction_blocks generalizing previous with
  | hnil => simp [runs, textSpans, blocks]
  | hother c row hc ih =>
      rw [runs_other hc, textSpans, blocks_other hc]
      exact ih (by simpa using hc)
  | hblock block row hne hblock hrow ih =>
      have hrest : runs none row = textSpans row := ih nofun
      rw [runs_block hne hblock hrow hprevious, hrest, textSpans, textSpans,
        blocks_block hne hblock hrow, List.map_cons]

/-! ### The pieces of a text -/

/-- The pieces of an element text that are more than layout, from an offset on. -/
def ofPieces (offset : Nat) : List (Bool × List Char) → List Child
  | [] => []
  | (visible, raw) :: following =>
      (if visible then [⟨⟨offset, offset + byteLength raw⟩, true⟩] else []) ++
        ofPieces (offset + byteLength raw) following

theorem isText_of_mem_ofPieces {offset : Nat} {pieces : List (Bool × List Char)} {c : Child}
    (h : c ∈ ofPieces offset pieces) : c.isText = true := by
  induction pieces generalizing offset with
  | nil => cases h
  | cons p pieces ih =>
      rw [ofPieces, List.mem_append] at h
      rcases h with h | h
      · split at h
        · rw [List.mem_singleton.1 h]
        · cases h
      · exact ih h

theorem within_ofPieces {pieces : List (Bool × List Char)} (h : ∀ p ∈ pieces, p.2 ≠ [])
    (offset : Nat) :
    Within offset (offset + byteLength (pieces.flatMap Prod.snd)) (ofPieces offset pieces) := by
  induction pieces generalizing offset with
  | nil => exact within_nil _ _
  | cons p pieces ih =>
      obtain ⟨visible, raw⟩ := p
      have hpos := byteLength_pos (h (visible, raw) (by simp))
      have hrest := ih (fun q hq => h q (by simp [hq])) (offset + byteLength raw)
      rw [List.flatMap_cons, byteLength_append, ← Nat.add_assoc, ofPieces]
      refine Within.append ?_ hrest (Nat.le_add_right _ _) (Nat.le_add_right _ _)
      split
      · exact within_singleton (Nat.le_refl _) (Nat.le_add_right _ _)
          fun _ => Nat.lt_add_of_pos_right hpos
      · exact within_nil _ _

theorem ofPieces_append (offset : Nat) (a b : List (Bool × List Char)) :
    ofPieces offset (a ++ b) =
      ofPieces offset a ++ ofPieces (offset + byteLength (a.flatMap Prod.snd)) b := by
  induction a generalizing offset with
  | nil => simp [ofPieces]
  | cons p a ih => simp [ofPieces, ih, Nat.add_assoc]

/-- Layout has no children. -/
theorem ofPieces_layout {pieces : List (Bool × List Char)} (h : ∀ p ∈ pieces, (!p.1) = true)
    (offset : Nat) : ofPieces offset pieces = [] := by
  induction pieces generalizing offset with
  | nil => rfl
  | cons p pieces ih =>
      have hp : p.1 = false := by simpa using h p (by simp)
      rw [ofPieces, ih fun q hq => h q (by simp [hq])]
      simp [hp]

theorem hull_ofPieces {pieces : List (Bool × List Char)} (hne : pieces ≠ [])
    (hfirst : ∀ p ∈ pieces.head?, (!p.1) = false) (hlast : ∀ p ∈ pieces.getLast?, (!p.1) = false)
    (offset : Nat) : ofPieces offset pieces ≠ [] ∧
      hull (ofPieces offset pieces) = ⟨offset, offset + byteLength (pieces.flatMap Prod.snd)⟩ := by
  obtain ⟨⟨_, raw⟩, rest, rfl⟩ := List.exists_cons_of_ne_nil hne
  obtain rfl : _ = true := by simpa using hfirst _ rfl
  have hhead : (ofPieces offset ((true, raw) :: rest)).head? =
      some ⟨⟨offset, offset + byteLength raw⟩, true⟩ := rfl
  have hgetLast : (ofPieces offset ((true, raw) :: rest)).getLast?.map (·.span.stop) =
      some (offset + byteLength (((true, raw) :: rest).flatMap Prod.snd)) := by
    obtain ⟨init, ⟨visible, own⟩, hconcat⟩ :=
      (List.eq_nil_or_concat ((true, raw) :: rest)).resolve_left hne
    rw [List.concat_eq_append] at hconcat
    rw [hconcat] at hlast ⊢
    obtain rfl : visible = true := by simpa using hlast (visible, own) (by simp)
    rw [ofPieces_append]
    simp [ofPieces, Nat.add_assoc]
  refine ⟨fun hnil => ?_, ?_⟩
  · rw [hnil] at hhead
    cases hhead
  · rw [hull, hhead, hgetLast]
    rfl

/-- The pieces of a text are one block, which spans the run of the text, if it has one. -/
theorem textSpans_pieces (offset : Nat) (text : List Char) :
    textSpans (ofPieces offset (Lexeme.pieces text)) =
      if (Lexeme.textRun text).isEmpty then []
      else [⟨offset + byteLength (Lexeme.layoutBefore text), offset +
        byteLength (Lexeme.layoutBefore text) + byteLength (Lexeme.textRun text)⟩] := by
  have hsplit := margins_trim (fun p => !p.1) (Lexeme.pieces text)
  have hrun : Lexeme.textRun text =
      (trim (fun p => !p.1) (Lexeme.pieces text)).flatMap Prod.snd := rfl
  have hbefore : Lexeme.layoutBefore text =
      (leftMargin (fun p => !p.1) (Lexeme.pieces text)).flatMap Prod.snd := rfl
  have hleft : ∀ p ∈ leftMargin (fun p => !p.1) (Lexeme.pieces text), (!p.1) = true :=
    fun p => blank_of_mem_leftMargin fun q : Bool × List Char => !q.1
  have hright : ∀ p ∈ rightMargin (fun p => !p.1) (Lexeme.pieces text), (!p.1) = true :=
    fun p => blank_of_mem_rightMargin fun q : Bool × List Char => !q.1
  conv => lhs; rw [← hsplit]
  rw [ofPieces_append, ofPieces_append, ofPieces_layout hleft, ofPieces_layout hright,
    List.nil_append, List.append_nil, hrun, hbefore]
  have hmem : ∀ p ∈ trim (fun p => !p.1) (Lexeme.pieces text), p ∈ Lexeme.pieces text := by
    intro p hp
    rw [← hsplit]
    exact List.mem_append_left _ (List.mem_append_right _ hp)
  obtain ⟨hfirst, hlast⟩ := (trim_eq_self_iff _).1 (trim_trim (fun p => !p.1) (Lexeme.pieces text))
  generalize trim (fun p => !p.1) (Lexeme.pieces text) = kept at hfirst hlast hmem ⊢
  by_cases hne : kept = []
  · rw [hne]
    rfl
  · obtain ⟨hvisible, hhull⟩ := hull_ofPieces hne hfirst hlast
      (offset + byteLength ((leftMargin (fun p => !p.1) (Lexeme.pieces text)).flatMap Prod.snd))
    obtain ⟨p, rest, rfl⟩ := List.exists_cons_of_ne_nil hne
    have hp := Lexeme.ne_nil_of_mem_pieces (hmem p (by simp))
    rw [textSpans, blocks_text hvisible fun c hc => isText_of_mem_ofPieces hc, List.map_singleton,
      hhull, if_neg (by simp [hp])]

end Child

end Phrasebook.Source

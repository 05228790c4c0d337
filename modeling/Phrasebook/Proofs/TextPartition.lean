import Phrasebook.Proofs.ElementTree
import Phrasebook.Proofs.ImportPlace

/-!
The literals of element text. They are the runs of a file, one for each block of text among the
children of an element, and none overlaps another. What a translation replaces of one is its text
without the white space around it.
-/

namespace Phrasebook

open Text Source

/-- The dialect in which a file is read. A text that is no file may hold markup. -/
def Source.Dialect.ofFile : Option String → Dialect
  | some path => ofPath path
  | none => .markup

namespace Source.Document

def textLiterals (d : Document) : List Literal :=
  (d.literals.filterMap Except.toOption).filter (·.kind == .text)

def runAt (d : Document) : Node → Option Literal
  | .run start raw => some (d.runLiteral start raw)
  | _ => none

variable {d : Document}

theorem runAt_eq_some {n : Node} {l : Literal} (h : d.runAt n = some l) :
    ∃ start raw, n = .run start raw ∧ l = d.runLiteral start raw := by
  cases n with
  | run start raw => exact ⟨start, raw, rfl, (Option.some.inj h).symm⟩
  | _ => cases h

/-- Only runs are literals of element text. -/
theorem textLiterals_eq (d : Document) : d.textLiterals = d.all.filterMap d.runAt := by
  rw [textLiterals, literals, List.filterMap_filterMap, List.filter_filterMap]
  refine List.filterMap_congr fun n _ => ?_
  cases hn : d.literalAt n with
  | none =>
      cases n with
      | run start raw => cases hn
      | _ => rfl
  | some r =>
      cases r with
      | error f =>
          cases n with
          | run start raw => cases hn
          | _ => rfl
      | ok l =>
          rcases (literalAt_cases hn).2 l rfl with ⟨start, raw, rfl, rfl⟩ | ⟨_, _, _, _, hkind, rfl⟩
          · rfl
          · cases n with
            | run start raw =>
                have heq := Except.ok.inj (Option.some.inj hn)
                exact absurd (congrArg Literal.kind heq).symm hkind
            | _ => simp [quotedLiteral, Except.toOption, runAt, hkind]

theorem map_span_textLiterals (d : Document) :
    d.textLiterals.map Literal.span = Node.runSpans d.all := by
  rw [textLiterals_eq, List.map_filterMap]
  refine List.filterMap_congr fun n _ => ?_
  cases n <;> rfl

/-- Literals of element text stand one after another, and none is empty. -/
theorem Laid.apart_textLiterals (hd : d.Laid) : d.textLiterals.Pairwise Apart := by
  rw [textLiterals_eq, List.pairwise_filterMap]
  refine (List.Pairwise.and_mem.1 hd.leads).imp ?_
  rintro m n ⟨hm, hn, hleads⟩ a ha b hb
  obtain ⟨start, raw, rfl, rfl⟩ := runAt_eq_some ha
  obtain ⟨start', raw', rfl, rfl⟩ := runAt_eq_some hb
  exact hd.apart hm hn hleads rfl rfl

/-- Two literals of element text that share a piece of text are one. -/
theorem Laid.textLiteral_unique (hd : d.Laid) {a b : Literal} (ha : a ∈ d.textLiterals)
    (hb : b ∈ d.textLiterals) {span : Span} (hspan : span.start < span.stop)
    (hina : a.span.start ≤ span.start ∧ span.stop ≤ a.span.stop)
    (hinb : b.span.start ≤ span.start ∧ span.stop ≤ b.span.stop) : a = b := by
  have hcases : a = b ∨ a.span.stop ≤ b.span.start ∨ b.span.stop ≤ a.span.start :=
    List.Pairwise.forall_of_forall_of_flip
      (R := fun a b => a = b ∨ a.span.stop ≤ b.span.start ∨ b.span.stop ≤ a.span.start)
      (fun _ _ => Or.inl rfl) (hd.apart_textLiterals.imp fun h => Or.inr (Or.inl h.span))
      (hd.apart_textLiterals.imp fun h => Or.inr (Or.inr h.span)) ha hb
  rcases hcases with heq | hstop | hstop
  · exact heq
  · omega
  · omega

/-! ### What a translation replaces -/

/-- What is replaced of a literal is its text without the white space around it. -/
structure Trims (d : Document) (l : Literal) : Prop where
  bounds : l.span.start ≤ l.content.start ∧ l.content.start ≤ l.content.stop ∧
    l.content.stop ≤ l.span.stop
  content : d.excerpt l.content = strip (d.excerpt l.span)
  left : ∀ c ∈ d.excerpt ⟨l.span.start, l.content.start⟩, isSpace c = true
  right : ∀ c ∈ d.excerpt ⟨l.content.stop, l.span.stop⟩, isSpace c = true
  empty : l.content.start = l.content.stop ↔ ∀ c ∈ d.excerpt l.span, isSpace c = true

/-- The excerpts of a text in five stretches that the three in the middle are. -/
theorem excerpt_stretches {front left middle right back : List Char}
    (h : d.text = front ++ (left ++ middle ++ right) ++ back) :
    d.excerpt ⟨byteLength front, byteLength front + byteLength left⟩ = left ∧
      d.excerpt ⟨byteLength front + byteLength left,
        byteLength front + byteLength left + byteLength middle⟩ = middle ∧
      d.excerpt ⟨byteLength front + byteLength left + byteLength middle,
        byteLength front + byteLength (left ++ middle ++ right)⟩ = right := by
  refine ⟨?_, ?_, ?_⟩
  · have hsplit : d.text = front ++ left ++ (middle ++ right ++ back) := by rw [h]; simp
    rw [excerpt, hsplit, excerpt_append]
  · have hsplit : d.text = (front ++ left) ++ middle ++ (right ++ back) := by rw [h]; simp
    rw [excerpt, hsplit, ← byteLength_append, excerpt_append]
  · have hsplit : d.text = (front ++ left ++ middle) ++ right ++ back := by rw [h]; simp
    have hstop : byteLength front + byteLength (left ++ middle ++ right) =
        byteLength (front ++ left ++ middle) + byteLength right := by
      simp only [byteLength_append]
      omega
    rw [excerpt, hsplit, hstop, ← byteLength_append, ← byteLength_append, excerpt_append]

theorem Laid.trims (hd : d.Laid) {l : Literal} (hl : l ∈ d.textLiterals) : d.Trims l := by
  rw [textLiterals_eq] at hl
  obtain ⟨n, hn, hrun⟩ := List.mem_filterMap.1 hl
  obtain ⟨start, raw, rfl, rfl⟩ := runAt_eq_some hrun
  obtain ⟨front, own, back, htext, hstart, -, hspelled⟩ := hd.spelled _ hn
  obtain rfl : own = raw := hspelled
  obtain rfl : start = byteLength front := hstart
  have hmargins : leftMargin isSpace own ++ strip own ++ rightMargin isSpace own = own :=
    margins_trim isSpace own
  have hwhole : d.excerpt ⟨byteLength front, byteLength front + byteLength own⟩ = own := by
    rw [excerpt, htext, excerpt_append]
  have hlength : byteLength (leftMargin isSpace own) + byteLength (strip own) +
      byteLength (rightMargin isSpace own) = byteLength own := by
    rw [← byteLength_append, ← byteLength_append, hmargins]
  have hsplit : d.text = front ++
      (leftMargin isSpace own ++ strip own ++ rightMargin isSpace own) ++ back := by
    rw [hmargins, htext]
  obtain ⟨hleft, hmiddle, hright⟩ := excerpt_stretches hsplit
  rw [hmargins] at hright
  refine ⟨⟨Nat.le_add_right _ _, Nat.le_add_right _ _, ?_⟩, ?_, ?_, ?_, ?_⟩
  · show byteLength front + byteLength (leftMargin isSpace own) + byteLength (strip own) ≤
      byteLength front + byteLength own
    omega
  · exact hmiddle.trans (congrArg strip hwhole.symm)
  · intro c hc
    exact blank_of_mem_leftMargin isSpace (hleft ▸ hc)
  · intro c hc
    exact blank_of_mem_rightMargin isSpace (hright ▸ hc)
  · show byteLength front + byteLength (leftMargin isSpace own) =
      byteLength front + byteLength (leftMargin isSpace own) + byteLength (strip own) ↔
        ∀ c ∈ d.excerpt ⟨byteLength front, byteLength front + byteLength own⟩, isSpace c = true
    rw [hwhole]
    constructor
    · intro hempty
      refine blank_of_trim_eq_nil isSpace (Classical.byContradiction fun hne => ?_)
      have hpos : 0 < byteLength (strip own) := byteLength_pos hne
      omega
    · intro hall
      have hnil : strip own = [] := trim_eq_nil isSpace hall
      rw [hnil]
      rfl

end Source.Document

/-! ### Blocks and literals -/

theorem Source.Document.nodes_of_parse {path : Option String} {text : List Char} {d : Document}
    (h : Document.parse path text = .ok d) :
    Source.parse (Dialect.ofFile path) text = .ok d.nodes := by
  unfold Document.parse at h
  simp only at h
  split at h
  · next nodes hnodes =>
    obtain rfl := Except.ok.inj h
    cases path with
    | none => exact hnodes
    | some path => exact hnodes
  · cases h

/-- The elements of a file are those of its text. The runs of each are found child by child, and
there is one for each block of text among the children, from the first piece of the block to the
last. They are all literals of element text, so that every piece is in one of them and in no other,
and between two of one element there is a child that is no text. What is replaced of such a literal
is its text without the white space around it. -/
theorem text_literals_partition {path : Option String} {text : List Char} {d : Document}
    (hparse : Document.parse path text = .ok d) :
    d.all.filterMap Node.element? =
        (elements (.ofFile path) text).map (fun e => (e.span, Child.runs none e.children)) ∧
      (d.textLiterals.map Literal.span).Perm
        ((elements (.ofFile path) text).flatMap fun e => Child.runs none e.children) ∧
      (∀ e ∈ elements (.ofFile path) text,
        Child.runs none e.children = (Child.blocks e.children).map Child.hull ∧
        (∀ c ∈ e.children, c.isText = true → ∃! l, l ∈ d.textLiterals ∧
          l.span.start ≤ c.span.start ∧ c.span.stop ≤ l.span.stop) ∧
        (Child.runs none e.children).Pairwise fun a b =>
          ∃ c ∈ e.children, c.isText = false ∧ a.stop ≤ c.span.start ∧ c.span.stop ≤ b.start) ∧
      ∀ l ∈ d.textLiterals, d.Trims l := by
  have hd := Document.laid_of_parse hparse
  have hruns : ∀ row, Child.runs none row = Child.textSpans row :=
    fun row => Child.runs_eq_textSpans nofun
  obtain ⟨helements, hperm⟩ := elements_of_parse (Document.nodes_of_parse hparse)
  have hspans : (d.textLiterals.map Literal.span).Perm
      ((elements (.ofFile path) text).flatMap fun e => Child.textSpans e.children) := by
    rw [d.map_span_textLiterals]
    exact hperm
  simp only [hruns]
  refine ⟨helements, hspans, fun e he => ?_, fun l hl => hd.trims hl⟩
  have hrow : Child.IsRow e.children := Tree.isRow_of_mem_elementsAll he
  refine ⟨rfl, fun c hc htext => ?_, Child.separate_textSpans hrow⟩
  obtain ⟨span, hspan, hin⟩ := Child.exists_textSpan hrow hc htext
  have hmem : span ∈ d.textLiterals.map Literal.span :=
    hspans.mem_iff.2 (List.mem_flatMap.2 ⟨e, he, hspan⟩)
  obtain ⟨l, hl, rfl⟩ := List.mem_map.1 hmem
  refine ⟨l, ⟨hl, hin⟩, fun other hother => ?_⟩
  exact hd.textLiteral_unique hother.1 hl (hrow.visible c hc htext) hother.2 hin

/-- Three pieces in a block, an expression and an element after it, and another block. All text of
the inner element is white space. -/
theorem text_literals_partition_blocks :
    ∃ d, Document.parse none "<p>A&amp; \x7bb\x7d<i> </i>C</p>".toList = .ok d ∧
      d.all.filterMap Node.element? =
        [(⟨0, 26⟩, [⟨3, 10⟩, ⟨21, 22⟩]), (⟨13, 21⟩, [⟨16, 17⟩])] ∧
      (d.textLiterals.map Literal.span).Perm [⟨3, 10⟩, ⟨21, 22⟩, ⟨16, 17⟩] ∧
      ∃! l, l ∈ d.textLiterals ∧ l.span.start ≤ 4 ∧ 9 ≤ l.span.stop := by
  let outer : Element := ⟨⟨0, 26⟩, [⟨⟨3, 4⟩, true⟩, ⟨⟨4, 9⟩, true⟩, ⟨⟨9, 10⟩, true⟩,
    ⟨⟨10, 13⟩, false⟩, ⟨⟨13, 21⟩, false⟩, ⟨⟨21, 22⟩, true⟩]⟩
  let inner : Element := ⟨⟨13, 21⟩, [⟨⟨16, 17⟩, true⟩]⟩
  have helements : elements (.ofFile none) "<p>A&amp; \x7bb\x7d<i> </i>C</p>".toList =
      [outer, inner] := by
    decide +kernel
  have hread : (Document.parse none "<p>A&amp; \x7bb\x7d<i> </i>C</p>".toList).toOption.isSome =
      true := by
    decide +kernel
  cases hparse : Document.parse none "<p>A&amp; \x7bb\x7d<i> </i>C</p>".toList with
  | error e =>
      rw [hparse] at hread
      cases hread
  | ok d =>
      obtain ⟨houtline, hspans, hchildren, -⟩ := text_literals_partition hparse
      rw [helements] at houtline hspans hchildren
      have hblocks : [outer, inner].map (fun e => (e.span, Child.runs none e.children)) =
          [(⟨0, 26⟩, [⟨3, 10⟩, ⟨21, 22⟩]), (⟨13, 21⟩, [⟨16, 17⟩])] := by
        decide +kernel
      refine ⟨d, rfl, houtline.trans hblocks, ?_, ?_⟩
      · exact hspans
      · exact (hchildren outer List.mem_cons_self).2.1 ⟨⟨4, 9⟩, true⟩
          (List.mem_cons_of_mem _ List.mem_cons_self) rfl

end Phrasebook

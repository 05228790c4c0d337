import Phrasebook.Proofs.ImportPlace

/-!
The prologue of a file. A new declaration of imports goes below the line that names an interpreter
and below the directives of the file, down to the first comment: a directive that has a comment
above it may come to stand below the declaration, and is a directive no more.
-/

namespace Phrasebook

open Text Source

namespace Source.Document

/-- The line that names an interpreter and the directives, with comments left out. -/
def prologue (d : Document) : List Node := (d.nodes.filter (!·.isComment)).takeWhile isPrologue

variable {d : Document}

/-- The beginning of a line is not inside a line that names an interpreter. -/
theorem Laid.bang_le_lineStart (hd : d.Laid) {n : Node} (hn : n ∈ d.nodes)
    (hbang : n.isLeaf .hashBang = true) {before after : List Char} (h : d.text = before ++ after)
    (hblank : isBlankText (d.excerpt ⟨d.lineStart (byteLength before), byteLength before⟩) = true)
    (hle : n.stop ≤ byteLength before) : n.stop ≤ d.lineStart (byteLength before) := by
  obtain ⟨front, own, back, htext, -, hstop, hspelled⟩ := hd.spelled n (mem_all hn)
  have hown : IsBang own := by
    have hgrounded := hd.grounded n (mem_all hn)
    cases n with
    | leaf kind start text =>
        obtain rfl : kind = .hashBang := by simpa [Node.isLeaf] using hbang
        obtain rfl : own = text := hspelled
        exact hgrounded
    | _ => cases hbang
  obtain ⟨hhead, hline⟩ := hown
  obtain ⟨rest, rfl⟩ : ∃ rest, own = '#' :: rest := by
    cases own with
    | nil => cases hhead
    | cons c rest => exact ⟨rest, by rw [Option.some.inj hhead]⟩
  -- the line begins after the first character of the other one
  have hafter : byteLength (front ++ ['#']) ≤ d.lineStart (byteLength before) := by
    refine le_lineStart h hblank (c := '#') ⟨front, rest ++ back, by simp [htext], rfl⟩
      (by decide) ?_
    rw [hstop, ← byteLength_append] at hle
    refine Nat.le_trans ?_ hle
    rw [byteLength_append, byteLength_append, byteLength_cons, byteLength_cons]
    simp
  obtain ⟨above, line, rfl, hstart, -, hlast⟩ := lineStart_eq h
  rw [hstart] at hafter ⊢
  rw [hstop, ← byteLength_append]
  -- were its beginning inside the other line, there would be an end of line before it
  by_contra hlt
  have hsplit : above ++ (line ++ after) = (front ++ '#' :: rest) ++ back := by
    rw [← htext, h, List.append_assoc]
  obtain ⟨tail, htail, -⟩ := Edit.eq_append_of_byteLength_le hsplit (Nat.le_of_not_le hlt)
  obtain ⟨part, rfl, hpart⟩ := Edit.eq_append_of_byteLength_le
    (show (front ++ ['#']) ++ rest = above ++ tail by rw [← htail]; simp) hafter
  have hend : ((front ++ ['#']) ++ part).getLast? = some '\n' := by
    cases hc : ((front ++ ['#']) ++ part).getLast? with
    | none => simp at hc
    | some c => rw [hlast c hc]
  have hmem : '\n' ∈ '#' :: part := by
    rw [List.append_assoc, List.singleton_append,
      List.getLast?_append_of_ne_nil _ (List.cons_ne_nil _ _)] at hend
    exact List.mem_of_getLast? hend
  refine hline ?_
  rw [hpart, ← List.cons_append]
  exact List.mem_append_left _ hmem

/-- A node of the prologue does not reach into the blank beginning of a line below it. -/
theorem Laid.prologue_le_lineStart (hd : d.Laid) {n : Node} (hn : n ∈ d.nodes)
    (hprologue : isPrologue n = true) {before after : List Char} (h : d.text = before ++ after)
    (hblank : isBlankText (d.excerpt ⟨d.lineStart (byteLength before), byteLength before⟩) = true)
    (hle : n.stop ≤ byteLength before) : n.stop ≤ d.lineStart (byteLength before) := by
  rcases Bool.or_eq_true_iff.1 hprologue with hbang | hdirective
  · exact hd.bang_le_lineStart hn hbang h hblank hle
  · obtain ⟨-, c, hc, hquote | rfl⟩ := hd.directives n hn hdirective
    · exact le_lineStart h hblank hc (isSpace_of_isQuote hquote) hle
    · exact le_lineStart h hblank hc (by decide) hle

/-- What a new declaration leaves above ends before what it does not. -/
theorem Laid.above_le (hd : d.Laid) {target : Node} {below : List Node}
    (hdrop : d.nodes.drop d.aboveLength = target :: below) {n : Node}
    (hn : n ∈ d.nodes.takeWhile isPrologue) : n.stop ≤ target.start := by
  have hnodes : d.nodes = d.nodes.take d.aboveLength ++ target :: below := by
    rw [← hdrop, List.take_append_drop]
  have habove : n ∈ d.nodes.take d.aboveLength := by
    rw [aboveLength, List.take_add, List.mem_append,
      ← List.prefix_iff_eq_take.1 (List.takeWhile_prefix isPrologue)]
    exact Or.inl hn
  have hseparate := hd.separate
  rw [hnodes, List.pairwise_append] at hseparate
  exact hseparate.2.2 n habove target (by simp) n n.mem_preorder_self target
    target.mem_preorder_self

theorem Laid.prologue_le_insertDeclaration (hd : d.Laid) (style : ImportStyle) (text : List Char)
    {n : Node} (hn : n ∈ d.nodes.takeWhile isPrologue) :
    (n.stop : Int) ≤ (d.insertDeclaration style text).start := by
  have hmem : n ∈ d.nodes := (List.takeWhile_prefix isPrologue).subset hn
  rcases d.insertDeclaration_cases style text with
    ⟨target, below, hdrop, hplace⟩ | ⟨anchor, -, hlast, hplace⟩ | ⟨hnodes, hplace⟩
  · have hle := hd.above_le hdrop hn
    rcases hplace with ⟨hblank, hplace⟩ | hplace
    · have htarget : target ∈ d.nodes := by
        have hdropped : target ∈ d.nodes.drop d.aboveLength := by simp [hdrop]
        exact List.mem_of_mem_drop hdropped
      obtain ⟨before, own, after, htext, hstart, -, -⟩ := hd.spelled target (mem_all htarget)
      rw [List.append_assoc] at htext
      rw [hstart] at hblank hle hplace
      rw [hplace]
      exact Int.ofNat_le.2
        (hd.prologue_le_lineStart hmem (List.mem_takeWhile_imp hn) htext hblank hle)
    · rw [hplace]
      exact Int.ofNat_le.2 hle
  · rw [hplace]
    refine Int.ofNat_le.2 ?_
    -- the last of all statements is this one, or comes after it
    obtain ⟨init, hinit⟩ := List.getLast?_eq_some_iff.1 hlast
    rw [hinit, List.mem_append, List.mem_singleton] at hmem
    rcases hmem with hmem | rfl
    · have hseparate := hd.separate
      rw [hinit, List.pairwise_append] at hseparate
      have hstart := hseparate.2.2 n hmem anchor (by simp) n n.mem_preorder_self anchor
        anchor.mem_preorder_self
      exact Nat.le_trans hstart (hd.start_le_stop (mem_all (List.mem_of_getLast? hlast)))
    · exact Nat.le_refl _
  · rw [hnodes] at hmem
    cases hmem

/-! ### Comments in the prologue -/

theorem isComment_of_isPrologue {n : Node} (h : isPrologue n = true) : n.isComment = false := by
  cases n with
  | leaf kind start text =>
      obtain rfl : kind = .hashBang := by
        simpa [isPrologue, Node.isLeaf, Node.isDirective] using h
      rfl
  | _ => rfl

/-- The prologue goes on where comments end it. -/
theorem prologue_eq (d : Document) :
    d.prologue = d.nodes.takeWhile isPrologue ++
      ((d.nodes.dropWhile isPrologue).filter (!·.isComment)).takeWhile isPrologue := by
  have hkept : (d.nodes.takeWhile isPrologue).filter (!·.isComment) =
      d.nodes.takeWhile isPrologue := by
    rw [List.filter_eq_self]
    intro n hn
    rw [isComment_of_isPrologue (List.mem_takeWhile_imp hn)]
    rfl
  have hnodes : d.nodes.filter (!·.isComment) = d.nodes.takeWhile isPrologue ++
      (d.nodes.dropWhile isPrologue).filter (!·.isComment) := by
    conv_lhs => rw [← List.takeWhile_append_dropWhile (p := isPrologue) (l := d.nodes)]
    rw [List.filter_append, hkept]
  rw [prologue, hnodes, List.takeWhile_append_of_pos fun n hn => List.mem_takeWhile_imp hn]

theorem Laid.start_lt_stop_of_isPrologue (hd : d.Laid) {n : Node} (hn : n ∈ d.nodes)
    (h : isPrologue n = true) : n.start < n.stop := by
  rcases Bool.or_eq_true_iff.1 h with hbang | hdirective
  · have hgrounded := hd.grounded n (mem_all hn)
    cases n with
    | leaf kind start text =>
        obtain rfl : kind = .hashBang := by simpa [Node.isLeaf] using hbang
        refine Nat.lt_add_of_pos_right (byteLength_pos ?_)
        rintro rfl
        cases hgrounded.1
    | _ => cases hbang
  · exact (hd.directives n hn hdirective).1

/-- What the prologue has below a comment is not left above a new declaration. -/
theorem Laid.insertDeclaration_lt (hd : d.Laid) (style : ImportStyle) (text : List Char)
    {n : Node}
    (hn : n ∈ ((d.nodes.dropWhile isPrologue).filter (!·.isComment)).takeWhile isPrologue) :
    (d.insertDeclaration style text).start < n.stop := by
  have hprologue := List.mem_takeWhile_imp hn
  have hrest : n ∈ d.nodes.dropWhile isPrologue :=
    (List.mem_filter.1 ((List.takeWhile_prefix _).subset hn)).1
  have hmem : n ∈ d.nodes := (List.dropWhile_suffix isPrologue).subset hrest
  have hdropped : n ∈ d.nodes.drop d.aboveLength := by
    have hdrop : (d.nodes.takeWhile isPrologue ++ d.nodes.dropWhile isPrologue).drop
        (d.nodes.takeWhile isPrologue).length = d.nodes.dropWhile isPrologue := List.drop_left
    rw [List.takeWhile_append_dropWhile] at hdrop
    rw [aboveLength, ← List.drop_drop, hdrop]
    rw [← List.take_append_drop (d.headerLength (d.nodes.takeWhile isPrologue).getLast?
      (d.nodes.dropWhile isPrologue)) (d.nodes.dropWhile isPrologue), List.mem_append] at hrest
    -- the comments left above are not in the prologue
    refine hrest.resolve_left fun hheader => ?_
    have hcomment := isComment_of_mem_header _ _ n hheader
    rw [isComment_of_isPrologue hprologue] at hcomment
    cases hcomment
  have hlt := hd.start_lt_stop_of_isPrologue hmem hprologue
  rcases d.insertDeclaration_cases style text with
    ⟨target, below, hdrop, hplace⟩ | ⟨anchor, hdrop, -⟩ | ⟨hnodes, -⟩
  · have htarget : target.start ≤ n.start := by
      rw [hdrop, List.mem_cons] at hdropped
      rcases hdropped with rfl | hbelow
      · exact Nat.le_refl _
      · have hseparate := hd.separate
        rw [← List.take_append_drop d.aboveLength d.nodes, hdrop, List.pairwise_append,
          List.pairwise_cons] at hseparate
        have hstop := hseparate.2.1.1 n hbelow target target.mem_preorder_self n n.mem_preorder_self
        have hall : target ∈ d.nodes := by
          rw [← List.take_append_drop d.aboveLength d.nodes, hdrop]
          simp
        exact Nat.le_trans (hd.start_le_stop (mem_all hall)) hstop
    rcases hplace with ⟨-, hplace⟩ | hplace
    · have hline : d.lineStart target.start ≤ target.start := Nat.sub_le _ _
      rw [hplace]
      exact Int.ofNat_lt.2 (by omega)
    · rw [hplace]
      exact Int.ofNat_lt.2 (by omega)
  · rw [hdrop] at hdropped
    cases hdropped
  · rw [hnodes] at hmem
    cases hmem

/-- A new declaration comes after all of the prologue exactly if no comment is in it. -/
theorem Laid.after_prologue_iff (hd : d.Laid) (style : ImportStyle) (text : List Char) :
    (∀ n ∈ d.prologue, (n.stop : Int) ≤ (d.insertDeclaration style text).start) ↔
      d.prologue = d.nodes.takeWhile isPrologue := by
  constructor
  · intro h
    rw [prologue_eq, List.append_right_eq_self, List.eq_nil_iff_forall_not_mem]
    intro n hn
    have hlt := hd.insertDeclaration_lt style text hn
    have hle := h n (by rw [prologue_eq]; exact List.mem_append_right _ hn)
    omega
  · intro h n hn
    rw [h] at hn
    exact hd.prologue_le_insertDeclaration style text hn

theorem importsFrom_eq_nil {source : List Char}
    (h : (d.importsFrom source).toOption.map List.isEmpty = some true) :
    d.importsFrom source = .ok [] := by
  cases hfound : d.importsFrom source with
  | error f =>
      rw [hfound] at h
      cases h
  | ok found =>
      rw [hfound] at h
      rw [List.isEmpty_iff.1 (Option.some.inj h)]

end Source.Document

/-- If nothing is imported from its module, a binding gets a declaration of its own, which is put
after the line that names an interpreter and after every directive above the first comment. It
comes after all directives exactly if none of them has a comment above it. -/
theorem declaration_after_prologue {path : Option String} {text : List Char} {d : Document}
    {b : ImportBinding} (hparse : Document.parse path text = .ok d)
    (hnone : d.importsFrom b.source = .ok []) :
    ∃ e, d.ensureImport b = .ok (some e) ∧ e.start = e.stop ∧ e.Fits text ∧
      (∀ n ∈ d.nodes.takeWhile Document.isPrologue, (n.stop : Int) ≤ e.start) ∧
      ((∀ n ∈ d.prologue, (n.stop : Int) ≤ e.start) ↔
        d.prologue = d.nodes.takeWhile Document.isPrologue) := by
  have hd := Document.laid_of_parse hparse
  have hadmits := hd.admits_insertDeclaration d.importStyle (b.render d.importStyle)
  have hinsertion : (d.insertDeclaration d.importStyle (b.render d.importStyle)).start =
      (d.insertDeclaration d.importStyle (b.render d.importStyle)).stop := by
    rcases d.insertDeclaration_cases d.importStyle (b.render d.importStyle) with
      ⟨target, below, -, ⟨-, hplace⟩ | hplace⟩ | ⟨anchor, -, -, hplace⟩ | ⟨-, hplace⟩
    all_goals
      rw [hplace]
      rfl
  refine ⟨_, ?_, hinsertion, Document.text_of_parse hparse ▸ hadmits.fits,
    fun n hn => hd.prologue_le_insertDeclaration _ _ hn, hd.after_prologue_iff _ _⟩
  unfold Document.ensureImport
  rw [hnone]
  rfl

theorem declaration_after_prologue_bang :
    ∃ d e, Document.parse (some "a.tsx") "#!/bin/env node\n\"use client\";\nf();\n".toList = .ok d ∧
      d.importsFrom "m".toList = .ok [] ∧
      d.ensureImport ⟨"m".toList, "t".toList, .named⟩ = .ok (some e) ∧
      (d.nodes.takeWhile Document.isPrologue).map Node.stop = [15, 29] ∧
      ∀ n ∈ d.nodes.takeWhile Document.isPrologue, (n.stop : Int) ≤ e.start := by
  have hfacts : (Document.parse (some "a.tsx")
      "#!/bin/env node\n\"use client\";\nf();\n".toList).toOption.map (fun d =>
        ((d.importsFrom "m".toList).toOption.map List.isEmpty,
          (d.nodes.takeWhile Document.isPrologue).map Node.stop)) =
        some (some true, [15, 29]) := by
    decide +kernel
  cases hparse : Document.parse (some "a.tsx")
      "#!/bin/env node\n\"use client\";\nf();\n".toList with
  | error f =>
      rw [hparse] at hfacts
      cases hfacts
  | ok d =>
      rw [hparse] at hfacts
      obtain ⟨hempty, hstops⟩ := Prod.mk.inj (Option.some.inj hfacts)
      have hnone := Document.importsFrom_eq_nil hempty
      obtain ⟨e, he, -, -, hle, -⟩ :=
        declaration_after_prologue (b := ⟨"m".toList, "t".toList, .named⟩) hparse hnone
      exact ⟨d, e, rfl, hnone, he, hstops, hle⟩

/-- A comment above a directive is enough for a declaration to come to stand above both. -/
theorem declaration_before_directive :
    ∃ d e n, Document.parse (some "a.tsx") "// c\n\"use client\";\nf();\n".toList = .ok d ∧
      d.importsFrom "m".toList = .ok [] ∧
      d.ensureImport ⟨"m".toList, "t".toList, .named⟩ = .ok (some e) ∧
      n ∈ d.prologue ∧ e.start < n.start := by
  let e : Edit := ⟨0, 0, "import \x7b t \x7d from \"m\";\n".toList⟩
  have hfacts : (Document.parse (some "a.tsx") "// c\n\"use client\";\nf();\n".toList).toOption.map
      (fun d => ((d.importsFrom "m".toList).toOption.map List.isEmpty,
        d.ensureImport ⟨"m".toList, "t".toList, .named⟩,
        d.prologue.head?.map Node.start)) =
        some (some true, .ok (some e), some 5) := by
    decide +kernel
  cases hparse : Document.parse (some "a.tsx") "// c\n\"use client\";\nf();\n".toList with
  | error f =>
      rw [hparse] at hfacts
      cases hfacts
  | ok d =>
      rw [hparse] at hfacts
      obtain ⟨hempty, hrest⟩ := Prod.mk.inj (Option.some.inj hfacts)
      obtain ⟨himport, hhead⟩ := Prod.mk.inj hrest
      obtain ⟨n, hn, hstart⟩ := Option.map_eq_some_iff.1 hhead
      refine ⟨d, e, n, rfl, Document.importsFrom_eq_nil hempty, himport, List.mem_of_head? hn, ?_⟩
      rw [hstart]
      decide

end Phrasebook

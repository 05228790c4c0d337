import Phrasebook.Proofs.Exchange

/-!
Exchanging a token of an element. An element is a row of trees in three stretches: the opening
tag, the content and the closing tag. A token that may be exchanged is in one of them; the stretch
still reads with other trees in place of the token, and so does the element.
-/

namespace Phrasebook.Source

open Node Shape Source.Tree

variable {dialect : Dialect}

/-! ### Trees inside a nested tree -/

namespace Tree

def IsInner (tree : Tree) : Prop :=
  ∀ t, tree = .token t → t.kind.opens = false ∧ t.kind.closes = false

theorem isInner_of_role? {tree : Tree} (h : tree.role?.isSome = true) : tree.IsInner := by
  rintro t rfl
  by_cases hk : t.kind = .attribute
  · simp [hk, TokenKind.opens, TokenKind.closes]
  · simp [role?, hk] at h

theorem isInner_of_isContent {tree : Tree} {result : Except Fault (List Shape)}
    (h : Part.isContent (tree, result) = true) : tree.IsInner := by
  rintro t rfl
  have hk : t.kind = .text := by simpa [Part.isContent] using h
  simp [hk, TokenKind.opens, TokenKind.closes]

theorem isToken_of_role? {tree : Tree} (h : tree.role?.isSome = true) :
    tree.isToken .tagEnd = false := by
  cases tree with
  | token t =>
      by_cases hk : t.kind = .attribute
      · simp [isToken, hk]
      · simp [role?, hk] at h
  | nested opening parts ending => rfl

/-- A tree of a row with what opens and closes it is one of the parts, if it is an inner one. -/
theorem exists_parts {opening : Token} {parts : List Tree} {ending : Option Token}
    (hform : Formed true false (nested opening parts ending)) {before after : List Tree}
    {tree : Tree} (hrow : .token opening :: parts ++ ending.toList.map .token =
      before ++ tree :: after) (hinner : tree.IsInner) :
    ∃ first last, before = .token opening :: first ∧ parts = first ++ tree :: last ∧
      after = last ++ ending.toList.map .token := by
  cases hform with
  | nested proper opens closes isWhole inner =>
      cases before with
      | nil =>
          rw [List.nil_append, List.cons_append] at hrow
          rw [(hinner opening (List.cons.inj hrow).1.symm).1] at opens
          cases opens
      | cons t before =>
          rw [List.cons_append, List.cons_append] at hrow
          obtain ⟨rfl, hparts⟩ := List.cons.inj hrow
          rcases append_eq_append_cons hparts with ⟨Z, rfl, hZ⟩ | ⟨Z, rfl, rfl⟩
          · -- the tree would be the token that closes
            have hmem : tree ∈ ending.toList.map Tree.token := by rw [hZ]; simp
            obtain ⟨e, he, rfl⟩ := List.mem_map.1 hmem
            have hcloses := (closes e (by simpa using he)).2
            rw [(hinner e rfl).2] at hcloses
            cases hcloses
          · exact ⟨before, Z, rfl, rfl, rfl⟩

theorem formed_exchange {opening : Token} {first last xs : List Tree} {tree : Tree}
    {ending : Option Token} {top : Bool}
    (hform : Formed true top (nested opening (first ++ tree :: last) ending))
    (hxs : ∀ x ∈ xs, Formed true false x) :
    Formed true top (nested opening (first ++ xs ++ last) ending) := by
  cases hform with
  | nested proper opens closes isWhole inner =>
      refine .nested proper opens closes isWhole fun p hp => ?_
      rw [List.mem_append, List.mem_append] at hp
      rcases hp with (hp | hp) | hp
      · exact inner p (by simp [hp])
      · exact hxs p hp
      · exact inner p (by simp [hp])

end Tree

/-! ### Stretches -/

/-- A stretch of a row in which a token can be exchanged; `reads` says what the stretch reads
as. -/
def StretchFocused (dialect : Dialect) (reads : List Tree → List Shape → Prop)
    (trees : List Tree) (offset : Nat) (c : Cursor) : Prop :=
  ∃ before tree after site, trees = before ++ tree :: after ∧ tree.IsInner ∧
    Located (Tree.tokensAll trees) site offset c ∧
    ∀ new found, Fits dialect site.token new found → ∃ xs shapes,
      Tree.tokensAll (before ++ xs ++ after) = site.replaced new ∧
      (∀ x ∈ xs, Formed true false x) ∧ reads (before ++ xs ++ after) shapes ∧
      Renewed site offset c found shapes

theorem RowFocused.stretch {goal : Goal} {trees : List Tree} {shapes : List Shape} {offset : Nat}
    {c : Cursor} {reads : List Tree → List Shape → Prop}
    (h : RowFocused dialect goal trees shapes offset c)
    (hreads : ∀ before tree after x shapes', trees = before ++ tree :: after →
      tree.role?.isSome = true → x.role?.isSome = true →
      Part.readAs dialect goal (readEach dialect (before ++ x :: after)) = .ok shapes' →
      reads (before ++ x :: after) shapes') :
    StretchFocused dialect reads trees offset c := by
  obtain ⟨before, tree, after, site, htrees, hrole, hloc, hexchange⟩ := h
  refine ⟨before, tree, after, site, htrees, isInner_of_role? hrole, hloc,
    fun new found hfits => ?_⟩
  obtain ⟨x, shapes', hx⟩ := hexchange new found hfits
  have hcons : before ++ [x] ++ after = before ++ x :: after := by simp
  refine ⟨[x], shapes', ?_, by simpa using hx.formed, ?_, hx.renewed⟩
  · rw [hcons]
    exact hx.tokens_eq
  · rw [hcons]
    exact hreads before tree after x shapes' htrees hrole (by rw [hx.role_eq]; exact hrole) hx.reads

structure IsOpening (dialect : Dialect) (trees : List Tree) (shapes : List Shape) : Prop where
  reads : Part.readAs dialect .openingTag (readEach dialect trees) = .ok shapes
  ends : ∃ front last, trees = front ++ [last] ∧ last.isToken .tagEnd = true ∧
    ∀ t ∈ front, t.isToken .tagEnd = false

structure IsContentRow (dialect : Dialect) (trees : List Tree) (shapes : List Shape) : Prop where
  reads : ∃ table, Part.shapes (readEach dialect trees) = .ok table ∧ shapes = table.flatten
  content : ∀ p ∈ readEach dialect trees, Part.isContent p = true

structure IsClosing (dialect : Dialect) (trees : List Tree) (shapes : List Shape) : Prop where
  reads : Part.readAs dialect .closingTag (readEach dialect trees) = .ok shapes
  head : ∀ p ∈ (readEach dialect trees).head?, Part.isContent p = false

section

variable {trees : List Tree} {shapes : List Shape} {offset : Nat} {c : Cursor}

theorem IsOpening.focused (h : IsOpening dialect trees shapes) (hsound : RowSound dialect trees)
    (hn : preorderAll (nodesAll offset shapes) = c.nodes) (hforeign : IsForeign c.node) :
    StretchFocused dialect (IsOpening dialect) trees offset c := by
  refine (readAs_focused hsound h.reads hn hforeign).stretch ?_
  intro before tree after x shapes' htrees hrole hx hreads
  obtain ⟨front, last, hends, hlast, hfront⟩ := h.ends
  refine ⟨hreads, ?_⟩
  rw [htrees] at hends
  rcases append_eq_append_cons hends.symm with ⟨Z, rfl, hZ⟩ | ⟨Z, rfl, rfl⟩
  · -- the tree would be the end of the tag
    obtain ⟨-, rfl, -⟩ := List.append_eq_singleton_iff.1 hZ.symm |>.resolve_right (by simp)
    rw [isToken_of_role? hrole] at hlast
    cases hlast
  · refine ⟨before ++ x :: Z, last, by simp, hlast, fun t ht => ?_⟩
    rw [List.mem_append, List.mem_cons] at ht
    rcases ht with ht | rfl | ht
    · exact hfront t (by simp [ht])
    · exact isToken_of_role? hx
    · exact hfront t (by simp [ht])

theorem IsClosing.focused (h : IsClosing dialect trees shapes) (hsound : RowSound dialect trees)
    (hn : preorderAll (nodesAll offset shapes) = c.nodes) (hforeign : IsForeign c.node) :
    StretchFocused dialect (IsClosing dialect) trees offset c := by
  refine (readAs_focused hsound h.reads hn hforeign).stretch ?_
  intro before tree after x shapes' htrees hrole hx hreads
  refine ⟨hreads, ?_⟩
  obtain ⟨shown, table, hshown, -, -⟩ := Part.readAs_eq_ok.1 h.reads
  obtain ⟨t, rest, hhead, hk⟩ := head_of_closingTag hshown
  have hfirst := h.head
  rw [readEach_fst, htrees] at hhead
  rw [readEach_eq_map, htrees] at hfirst
  rw [readEach_eq_map]
  cases before with
  | nil =>
      -- what is read on its own is no token of a closing tag
      rw [List.nil_append, outline] at hhead
      obtain ⟨role, hr⟩ := Option.isSome_iff_exists.1 hrole
      have hshown : tree.shown 0 = ⟨.nested role 0, tree.gap, role.mark⟩ := by rw [Tree.shown, hr]
      rw [← (List.cons.inj hhead).1, hshown] at hk
      simp at hk
  | cons b before => exact hfirst

end

/-! ### Putting stretches together -/

def Cursor.within (c : Cursor) (before after : List Node) : Cursor :=
  ⟨before ++ c.before, c.node, c.after ++ after⟩

section

variable {front middle back : List Token} {A B D : List Shape} {site : Site} {offset : Nat}
  {c : Cursor} {found : List (List Shape)}

/-- A node of two stretches is in the first or in the second. -/
theorem Cursor.cases (hn : preorderAll (nodesAll offset (A ++ B)) = c.nodes) :
    (∃ inner : Cursor, preorderAll (nodesAll offset A) = inner.nodes ∧
      c = inner.within [] (preorderAll
        (nodesAll (offset + byteLength (charsOf (Shape.tokensAll A))) B))) ∨
    ∃ inner : Cursor,
      preorderAll (nodesAll (offset + byteLength (charsOf (Shape.tokensAll A))) B) = inner.nodes ∧
      c = inner.within (preorderAll (nodesAll offset A)) [] := by
  obtain ⟨before, node, after⟩ := c
  rw [nodesAll_append, preorderAll_append, Cursor.nodes] at hn
  rcases append_eq_append_cons hn with ⟨Z, rfl, hZ⟩ | ⟨Z, hZ, rfl⟩
  · exact Or.inr ⟨⟨Z, node, after⟩, hZ, by simp [Cursor.within]⟩
  · exact Or.inl ⟨⟨before, node, Z⟩, hZ, by rw [Cursor.within, List.nil_append]⟩

theorem Located.within (hA : charsOf (Shape.tokensAll A) = charsOf front)
    (h : Located middle site (offset + byteLength (charsOf front)) c) (o : Nat) :
    Located (front ++ middle ++ back) (site.within front back) offset
      (c.within (preorderAll (nodesAll offset A)) (preorderAll (nodesAll o D))) := by
  have hle := h.left_le_start
  refine ⟨?_, ?_, fun htext m hm => ?_⟩
  · rw [Site.tokens_within, h.tokens_eq]
  · have hnode := h.node_eq
    rw [Nat.add_assoc, ← byteLength_append, ← charsOf_append] at hnode
    exact hnode
  · rcases List.mem_append.1 hm with hm | hm
    · -- what comes before the stretch has ended before it
      have hstop := (within_of_mem_nodesAll _ _ m hm).stop
      rw [hA] at hstop
      refine Or.inl ?_
      simp only [Cursor.within]
      omega
    · exact h.order htext m hm

theorem Renewed.within (hA : charsOf (Shape.tokensAll A) = charsOf front)
    (h : Renewed site (offset + byteLength (charsOf front)) c found B) (o : Nat) :
    Renewed (site.within front back) offset
      (c.within (preorderAll (nodesAll offset A)) (preorderAll (nodesAll o D))) found
      (A ++ B ++ D) := by
  refine ⟨?_, ?_⟩
  · rw [nodesAll_append, nodesAll_append, skeleton_append, skeleton_append,
      (alike_nodesAll A 0 offset).skeletons, (alike_nodesAll B _ 0).skeletons,
      (alike_nodesAll D _ o).skeletons, h.skeleton_eq]
    simp [Cursor.within, skeleton]
  · obtain ⟨earlier, later, hplaced⟩ := h.placed
    refine ⟨preorderAll (nodesAll offset A) ++ earlier, later ++ preorderAll
      (nodesAll (offset + byteLength (charsOf (Shape.tokensAll (A ++ B)))) D), ?_⟩
    rw [nodesAll_append, nodesAll_append, preorderAll_append, preorderAll_append, hA, hplaced,
      Site.within, charsOf_append, byteLength_append, ← Nat.add_assoc]
    simp

end

/-- A node of a row of parts is in one of them. -/
theorem exists_entry {trees : List Tree} {table : List (List Shape)}
    (h : Part.shapes (readEach dialect trees) = .ok table) {offset : Nat} {c : Cursor}
    (hn : preorderAll (nodesAll offset table.flatten) = c.nodes) :
    ∃ before tree after first entry last, ∃ inner : Cursor, ∃ o,
      trees = before ++ tree :: after ∧
      Part.shapes (readEach dialect before) = .ok first ∧ tree.read dialect = .ok entry ∧
      Part.shapes (readEach dialect after) = .ok last ∧
      preorderAll (nodesAll (offset + byteLength (charsOf (Shape.tokensAll first.flatten))) entry) =
        inner.nodes ∧
      c = inner.within (preorderAll (nodesAll offset first.flatten))
        (preorderAll (nodesAll o last.flatten)) := by
  induction trees generalizing offset c table with
  | nil =>
      obtain rfl := Except.ok.inj h
      simp [Cursor.nodes] at hn
  | cons tree trees ih =>
      have hrow : Part.shapes (readEach dialect ([] ++ tree :: trees)) = .ok table := h
      obtain ⟨first, entry, last, rfl, hentry, hfirst, hlast⟩ := shapes_readEach_append hrow
      obtain rfl := Except.ok.inj hfirst
      rw [List.nil_append, List.flatten_cons] at hn
      rcases Cursor.cases hn with ⟨inner, hinner, rfl⟩ | ⟨inner, hinner, rfl⟩
      · exact ⟨[], tree, trees, [], entry, last, inner, _, rfl, hfirst, hentry, hlast,
          by simpa using hinner, by rw [List.flatten_nil, nodesAll_nil, preorderAll_nil]⟩
      · obtain ⟨before, other, after, first, found, last, deeper, o, rfl, hfirst, hfound, hlast,
          hdeeper, rfl⟩ := ih hlast hinner
        have hbefore : Part.shapes (readEach dialect ([] ++ tree :: before)) =
            .ok ([] ++ entry :: first) := shapes_readEach_cons rfl hentry hfirst
        refine ⟨tree :: before, other, after, entry :: first, found, last, deeper, o, rfl,
          hbefore, hfound, hlast, ?_, ?_⟩
        · rw [← hdeeper]
          simp [Nat.add_assoc]
        · simp [Cursor.within, nodesAll_append]

theorem IsContentRow.focused {trees : List Tree} {shapes : List Shape} {offset : Nat} {c : Cursor}
    (h : IsContentRow dialect trees shapes)
    (hsound : ∀ t ∈ trees, Exchangeable dialect t)
    (hn : preorderAll (nodesAll offset shapes) = c.nodes) (hforeign : IsForeign c.node) :
    StretchFocused dialect (IsContentRow dialect) trees offset c := by
  obtain ⟨table, htable, rfl⟩ := h.reads
  obtain ⟨before, tree, after, first, entry, last, inner, o, rfl, hfirst, hentry, hlast, hinner,
    rfl⟩ := exists_entry htable hn
  have hcontent := h.content
  rw [readEach_eq_map, List.map_append, List.map_cons, List.forall_mem_append,
    List.forall_mem_cons, ← readEach_eq_map, ← readEach_eq_map] at hcontent
  obtain ⟨hbefore, htree, hafter⟩ := hcontent
  have hfront : charsOf (Shape.tokensAll first.flatten) = charsOf (Tree.tokensAll before) := by
    have hrecut := Part.shapes_recut (fun p hp => ?_) hfirst
    · rw [readEach_fst] at hrecut
      exact hrecut.chars
    · rw [readEach_eq_map] at hp
      obtain ⟨t, ht, rfl⟩ := List.mem_map.1 hp
      exact faithful_read (hsound t (by simp [ht])).formed
  rw [hfront] at hinner
  obtain ⟨site, hloc, hexchange⟩ := (hsound tree (by simp)).focused hentry hinner hforeign
  refine ⟨before, tree, after, site.within (Tree.tokensAll before) (Tree.tokensAll after), rfl,
    isInner_of_isContent htree, ?_, fun new found hfits => ?_⟩
  · rw [Tree.tokensAll_append, Tree.tokensAll_cons, ← List.append_assoc]
    exact hloc.within hfront o
  · obtain ⟨xs, results, hx⟩ := hexchange new found hfits
    refine ⟨xs, (first ++ results ++ last).flatten, ?_, hx.formed, ⟨⟨_, ?_, rfl⟩, ?_⟩, ?_⟩
    · rw [Tree.tokensAll_append, Tree.tokensAll_append, hx.tokens_eq, Site.replaced_within]
    · rw [readEach_append, readEach_append]
      exact Part.shapes_append (Part.shapes_append hfirst hx.reads) hlast
    · rw [readEach_append, readEach_append, List.forall_mem_append, List.forall_mem_append]
      exact ⟨⟨hbefore, hx.content htree⟩, hafter⟩
    · rw [List.flatten_append, List.flatten_append]
      exact hx.renewed.within hfront o

/-! ### Elements -/

/-- An element of three stretches reads as a node around what they read as. -/
theorem readElement_of_stretches {opening content closing : List Tree} {A B D : List Shape}
    (hA : IsOpening dialect opening A) (hB : IsContentRow dialect content B)
    (hD : IsClosing dialect closing D) :
    Part.readElement dialect (readEach dialect (opening ++ content ++ closing)) =
      .ok [.node .element (A ++ B ++ D)] := by
  obtain ⟨front, last, rfl, hlast, hfront⟩ := hA.ends
  obtain ⟨table, htable, rfl⟩ := hB.reads
  let cut : Part.Cut := ⟨readEach dialect front, (last, last.read dialect),
    readEach dialect content, readEach dialect closing⟩
  have hvalid : cut.Valid := by
    refine ⟨fun p hp => ?_, hlast, hB.content, hD.head⟩
    rw [show cut.opening = readEach dialect front from rfl, readEach_eq_map] at hp
    obtain ⟨t, ht, rfl⟩ := List.mem_map.1 hp
    exact hfront t ht
  have hrow : readEach dialect (front ++ [last] ++ content ++ closing) = cut.row := by
    simp [Part.Cut.row, cut, readEach_append, readEach]
  have hopening : Part.readAs dialect .openingTag (cut.opening ++ [cut.tagEnd]) = .ok A := by
    have hreads := hA.reads
    rwa [readEach_append, show readEach dialect [last] = [cut.tagEnd] from rfl] at hreads
  rw [hrow, Part.readElement_cut hvalid]
  refine ⟨A, table.flatten ++ D, hopening, ?_, by simp⟩
  exact (Part.readContent_cut hvalid).2 ⟨table, D, htable, hD.reads, rfl⟩

/-- An element that reads is an opening tag only, or has the three stretches. -/
theorem stretches_of_readElement {trees : List Tree} {shapes : List Shape}
    (h : Part.readElement dialect (readEach dialect trees) = .ok shapes) :
    (∃ A, shapes = [.node .element A] ∧ (∀ t ∈ trees, t.isToken .tagEnd = false) ∧
      Part.readAs dialect .openingTag (readEach dialect trees) = .ok A) ∨
    ∃ opening content closing A B D, trees = opening ++ content ++ closing ∧
      IsOpening dialect opening A ∧ IsContentRow dialect content B ∧ IsClosing dialect closing D ∧
      shapes = [.node .element (A ++ B ++ D)] := by
  by_cases hend : ∃ p ∈ readEach dialect trees, Part.endsTag p = true
  · obtain ⟨p, hp, ht⟩ := hend
    obtain ⟨cut, hvalid, hrow⟩ := Part.Cut.exists_valid hp ht
    rw [← hrow] at h
    obtain ⟨A, rest, hA, hrest, rfl⟩ := (Part.readElement_cut hvalid).1 h
    obtain ⟨table, D, htable, hD, rfl⟩ := (Part.readContent_cut hvalid).1 hrest
    rw [Part.Cut.row, readEach_eq_map] at hrow
    obtain ⟨front, others, rfl, hfront, hothers⟩ := List.map_eq_append_iff.1 hrow.symm
    obtain ⟨last, others, rfl, hlast, hothers⟩ := List.map_eq_cons_iff.1 hothers
    obtain ⟨content, closing, rfl, hcontent, hclosing⟩ := List.map_eq_append_iff.1 hothers
    rw [← readEach_eq_map] at hfront hcontent hclosing
    rw [← hfront, ← hlast] at hA
    rw [← hcontent] at htable
    rw [← hclosing] at hD
    refine Or.inr ⟨front ++ [last], content, closing, A, table.flatten, D, by simp,
      ⟨by rw [readEach_append]; exact hA, front, last, rfl, ?_, fun t ht => ?_⟩,
      ⟨⟨table, htable, rfl⟩, by rw [hcontent]; exact hvalid.content⟩,
      ⟨hD, by rw [hclosing]; exact hvalid.closing⟩, by simp⟩
    · have htag := hvalid.tagEnd
      rw [← hlast] at htag
      exact htag
    · refine hvalid.opening (t, t.read dialect) ?_
      rw [← hfront, readEach_eq_map]
      exact List.mem_map_of_mem ht
  · have hall : ∀ p ∈ readEach dialect trees, Part.endsTag p = false := by simpa using hend
    obtain ⟨A, hA, rfl⟩ := (Part.readElement_simple hall).1 h
    refine Or.inl ⟨A, rfl, fun t ht => hall (t, t.read dialect) ?_, hA⟩
    rw [readEach_eq_map]
    exact List.mem_map_of_mem ht

section

variable {opening : Token} {parts : List Tree} {ending : Option Token} {A B D : List Shape}
  {offset : Nat} {c : Cursor}

theorem read_element (helement : ∀ value, opening.kind ≠ .hole value) :
    (nested opening parts ending).read dialect = Part.readElement dialect
      (readEach dialect (.token opening :: parts ++ ending.toList.map .token)) := by
  rw [read_nested, readNested, row_eq_readEach]
  split
  · next value hk => exact absurd hk (helement value)
  · rfl

/-- The sketch of an element says nothing of what is in it. -/
theorem sketch_element (span : Span) (children : List Node) :
    (Node.branch .element span children).sketch = .branch .element ⟨0, 0⟩ [] := by
  simp [sketch_branch]

theorem Renewed.inElement {site : Site} {found : List (List Shape)}
    (h : Renewed site offset c found A) (span : Span) (children : List Node) :
    Renewed site offset (c.within [.branch .element span children] []) found
      [.node .element A] := by
  refine ⟨?_, ?_⟩
  · rw [nodesAll_cons, nodesAll_nil, List.append_nil, nodes_node, skeleton_branch,
      h.skeleton_eq, sketch_element]
    simp [Cursor.within, sketch_element]
  · obtain ⟨earlier, later, hplaced⟩ := h.placed
    rw [nodesAll_cons, nodesAll_nil, List.append_nil, nodes_node, preorderAll_cons,
      preorder_branch, preorderAll_nil, hplaced]
    exact ⟨_ :: earlier, later, by simp; rfl⟩

/-- Exchanging a token in a stretch of an element. -/
theorem focused_of_stretch (hform : Formed true false (nested opening parts ending))
    (helement : ∀ value, opening.kind ≠ .hole value) (front : List Tree) {middle : List Tree}
    (back : List Tree)
    (hrow : .token opening :: parts ++ ending.toList.map .token = front ++ middle ++ back)
    (hread : (nested opening parts ending).read dialect = .ok [.node .element (A ++ B ++ D)])
    (hfront : charsOf (Shape.tokensAll A) = charsOf (Tree.tokensAll front))
    {reads : List Tree → List Shape → Prop}
    (hreads : ∀ trees shapes, reads trees shapes →
      Part.readElement dialect (readEach dialect (front ++ trees ++ back)) =
        .ok [.node .element (A ++ shapes ++ D)])
    (hmiddle : StretchFocused dialect reads middle
      (offset + byteLength (charsOf (Tree.tokensAll front))) c) {span : Span}
    (hspan : span.start = offset + leadOf (Shape.tokensAll (A ++ B ++ D)))
    (children : List Node) (o : Nat) :
    Focused dialect (nested opening parts ending) [.node .element (A ++ B ++ D)] offset
      ((c.within (preorderAll (nodesAll offset A)) (preorderAll (nodesAll o D))).within
        [.branch .element span children] []) := by
  obtain ⟨before, tree, after, site, rfl, hinner, hloc, hexchange⟩ := hmiddle
  have hsplit : .token opening :: parts ++ ending.toList.map .token =
      (front ++ before) ++ tree :: (after ++ back) := by
    rw [hrow]
    simp
  obtain ⟨first, last, hbefore, rfl, hafter⟩ := exists_parts hform hsplit hinner
  have htokens : (nested opening (first ++ tree :: last) ending).tokens =
      Tree.tokensAll front ++ Tree.tokensAll (before ++ tree :: after) ++ Tree.tokensAll back := by
    rw [← tokensAll_row, hrow, Tree.tokensAll_append, Tree.tokensAll_append]
  have hlocated : Located (nested opening (first ++ tree :: last) ending).tokens
      (site.within (Tree.tokensAll front) (Tree.tokensAll back)) offset
      (c.within (preorderAll (nodesAll offset A)) (preorderAll (nodesAll o D))) := by
    rw [htokens]
    exact hloc.within hfront o
  obtain ⟨role, hrole⟩ := role?_nested opening (first ++ tree :: last) ending
  refine ⟨site.within (Tree.tokensAll front) (Tree.tokensAll back),
    ⟨hlocated.tokens_eq, hlocated.node_eq, fun htext m hm => ?_⟩, fun new found hfits => ?_⟩
  · rcases List.mem_append.1 hm with hm | hm
    · obtain rfl := List.mem_singleton.1 hm
      have hlt := (hlocated.lead_lt_start hform (by simp [hrole]) hread htext).2
      rw [Shape.tokensAll_cons, tokens_node, Shape.tokensAll_nil, List.append_nil, ← hspan] at hlt
      exact Or.inr hlt
    · exact hlocated.order htext m hm
  · obtain ⟨xs, shapes, hxtokens, hxs, hxreads, hrenewed⟩ := hexchange new found hfits
    have hxrow : .token opening :: (first ++ xs ++ last) ++ ending.toList.map .token =
        front ++ (before ++ xs ++ after) ++ back := by
      have h : .token opening :: (first ++ xs ++ last) ++ ending.toList.map .token =
          (.token opening :: first) ++ xs ++ (last ++ ending.toList.map .token) := by simp
      rw [h, ← hbefore, ← hafter]
      simp
    have hxread : (nested opening (first ++ xs ++ last) ending).read dialect =
        .ok [.node .element (A ++ shapes ++ D)] := by
      rw [read_element helement, hxrow]
      exact hreads _ _ hxreads
    have hreadEach : readEach dialect [nested opening (first ++ xs ++ last) ending] =
        [(nested opening (first ++ xs ++ last) ending,
          .ok [.node .element (A ++ shapes ++ D)])] := by
      rw [readEach_eq_map, List.map_singleton, hxread]
    refine ⟨[nested opening (first ++ xs ++ last) ending],
      [[.node .element (A ++ shapes ++ D)]], ⟨?_, ?_, ?_, ?_, ?_, ?_, ?_⟩⟩
    · rw [Site.replaced_within, ← hxtokens, Tree.tokensAll_cons, Tree.tokensAll_nil,
        List.append_nil, ← tokensAll_row, hxrow, Tree.tokensAll_append, Tree.tokensAll_append]
    · exact List.forall_mem_singleton.2 (formed_exchange hform hxs)
    · rw [hreadEach]
      rfl
    · exact fun role hr => ⟨_, rfl, hr, rfl⟩
    · rw [hreadEach]
      exact fun _ => List.forall_mem_singleton.2 rfl
    · exact (hrenewed.within hfront o).inElement span children
    · intro _ _ _
      simp [nodesAll_cons, nodes_node, sketch_element]

/-- A node in an element that is not the element. -/
theorem Cursor.cases_element (hn : preorderAll (nodesAll offset [.node .element A]) = c.nodes)
    (hforeign : IsForeign c.node) :
    ∃ inner : Cursor, ∃ span children, preorderAll (nodesAll offset A) = inner.nodes ∧
      span.start = offset + leadOf (Shape.tokensAll A) ∧
      c = inner.within [.branch .element span children] [] := by
  obtain ⟨before, node, after⟩ := c
  rw [nodesAll_cons, nodesAll_nil, List.append_nil, nodes_node, preorderAll_cons, preorder_branch,
    preorderAll_nil, List.append_nil, Cursor.nodes] at hn
  cases before with
  | nil =>
      obtain ⟨rfl, -⟩ := List.cons.inj hn
      exact hforeign.elim
  | cons b before =>
      obtain ⟨rfl, hinner⟩ := List.cons.inj hn
      exact ⟨⟨before, node, after⟩, ⟨offset + leadOf (Shape.tokensAll A),
        offset + byteLength (charsOf (Shape.tokensAll A))⟩, nodesAll offset A, hinner, rfl,
        by simp [Cursor.within]⟩

/-- Exchanging a token in an expression in braces. -/
theorem focused_of_row {goal : Goal} {shapes : List Shape}
    (hform : Formed true false (nested opening parts ending))
    (hreads : ∀ parts, (nested opening parts ending).read dialect = Part.readAs dialect goal
      (readEach dialect (.token opening :: parts ++ ending.toList.map .token)))
    (h : RowFocused dialect goal (.token opening :: parts ++ ending.toList.map .token) shapes
      offset c) : Focused dialect (nested opening parts ending) shapes offset c := by
  obtain ⟨before, tree, after, site, hrow, hrole, hloc, hexchange⟩ := h
  obtain ⟨first, last, rfl, rfl, rfl⟩ := exists_parts hform hrow (isInner_of_role? hrole)
  rw [tokensAll_row] at hloc
  refine ⟨site, hloc, fun new found hfits => ?_⟩
  obtain ⟨x, shapes', hx⟩ := hexchange new found hfits
  have hxrow : .token opening :: first ++ x :: (last ++ ending.toList.map .token) =
      .token opening :: (first ++ [x] ++ last) ++ ending.toList.map .token := by simp
  have hxread : (nested opening (first ++ [x] ++ last) ending).read dialect = .ok shapes' := by
    rw [hreads, ← hxrow]
    exact hx.reads
  have hreadEach : readEach dialect [nested opening (first ++ [x] ++ last) ending] =
      [(nested opening (first ++ [x] ++ last) ending, .ok shapes')] := by
    rw [readEach_eq_map, List.map_singleton, hxread]
  have hflat : [shapes'].flatten = shapes' := by simp
  refine ⟨[nested opening (first ++ [x] ++ last) ending], [shapes'], ⟨?_, ?_, ?_, ?_, ?_, ?_, ?_⟩⟩
  · rw [Tree.tokensAll_cons, Tree.tokensAll_nil, List.append_nil, ← tokensAll_row, ← hxrow]
    exact hx.tokens_eq
  · exact List.forall_mem_singleton.2
      (formed_exchange hform (List.forall_mem_singleton.2 hx.formed))
  · rw [hreadEach]
    rfl
  · exact fun role hr => ⟨_, rfl, hr, rfl⟩
  · rw [hreadEach]
    exact fun _ => List.forall_mem_singleton.2 rfl
  · rw [hflat]
    exact hx.renewed
  · rw [hflat]
    exact fun _ _ _ => hx.sketches

end

theorem exchangeable_token {t : Token} (hproper : t.isProper = true)
    (hinner : (Tree.token t).IsInner) : Exchangeable dialect (.token t) := by
  obtain ⟨hopens, hcloses⟩ := hinner t rfl
  refine ⟨.token hproper hopens fun hk => by simp [hcloses] at hk, fun hread hn _ => ?_⟩
  rw [read_token] at hread
  obtain rfl := Except.ok.inj hread
  exact focused_token hn

/-- The trees in a nested tree can be exchanged if its parts can. -/
theorem exchangeable_of_mem_row {opening : Token} {parts : List Tree} {ending : Option Token}
    (hform : Formed true false (nested opening parts ending))
    (hparts : ∀ t ∈ parts, Exchangeable dialect t) {t : Tree}
    (ht : t ∈ Tree.token opening :: parts ++ ending.toList.map .token) (hinner : t.IsInner) :
    Exchangeable dialect t := by
  obtain ⟨hproper, ⟨hmem, -⟩ | htoken⟩ := formed_row hform t ht
  · exact hparts t hmem
  · rw [htoken] at hinner ⊢
    exact exchangeable_token hproper hinner

theorem rowSound_of_subset {opening : Token} {parts : List Tree} {ending : Option Token}
    (hform : Formed true false (nested opening parts ending))
    (hparts : ∀ t ∈ parts, Exchangeable dialect t) {trees : List Tree}
    (hsub : ∀ t ∈ trees, t ∈ Tree.token opening :: parts ++ ending.toList.map .token) :
    RowSound dialect trees := by
  refine ⟨fun t ht => ?_, fun t ht hrole =>
    exchangeable_of_mem_row hform hparts (hsub t ht) (isInner_of_role? hrole)⟩
  obtain ⟨hproper, ⟨-, hform⟩ | htoken⟩ := formed_row hform t (hsub t ht)
  · exact faithful_read hform
  · rw [htoken]
    exact faithful_token (Token.isOwn_of_isProper hproper)

/-- Reading a stretch of a nested tree keeps its characters. -/
theorem readAs_chars_of_subset {goal : Goal} (hgoal : goal.TakesAll) {opening : Token}
    {parts : List Tree} {ending : Option Token}
    (hform : Formed true false (nested opening parts ending)) {trees : List Tree}
    {shapes : List Shape}
    (hsub : ∀ t ∈ trees, t ∈ Tree.token opening :: parts ++ ending.toList.map .token)
    (hsound : RowSound dialect trees)
    (hread : Part.readAs dialect goal (readEach dialect trees) = .ok shapes) :
    charsOf (Shape.tokensAll shapes) = charsOf (Tree.tokensAll trees) := by
  have hparts : ∀ p ∈ readEach dialect trees, p.Faithful ∧ p.1.first.isProper = true := by
    intro p hp
    rw [readEach_eq_map] at hp
    obtain ⟨t, ht, rfl⟩ := List.mem_map.1 hp
    exact ⟨hsound.faithful t ht, (formed_row hform t (hsub t ht)).1⟩
  rw [(Part.readAs_recut hgoal hparts hread).chars, readEach_fst]

/-- An element that is an opening tag only. -/
theorem focused_simple {opening : Token} {parts : List Tree} {ending : Option Token}
    (hform : Formed true false (nested opening parts ending))
    (hsound : RowSound dialect (.token opening :: parts ++ ending.toList.map .token))
    (helement : ∀ value, opening.kind ≠ .hole value) {A : List Shape}
    (hread : (nested opening parts ending).read dialect = .ok [.node .element A])
    (hall : ∀ t ∈ Tree.token opening :: parts ++ ending.toList.map .token,
      t.isToken .tagEnd = false)
    (hA : Part.readAs dialect .openingTag
      (readEach dialect (.token opening :: parts ++ ending.toList.map .token)) = .ok A)
    {offset : Nat} {inner : Cursor} (hinner : preorderAll (nodesAll offset A) = inner.nodes)
    (hforeign : IsForeign inner.node) {span : Span}
    (hspan : span.start = offset + leadOf (Shape.tokensAll A)) (children : List Node) :
    Focused dialect (nested opening parts ending) [.node .element A] offset
      (inner.within [.branch .element span children] []) := by
  let reads (trees : List Tree) (shapes : List Shape) : Prop :=
    (∀ t ∈ trees, t.isToken .tagEnd = false) ∧
      Part.readAs dialect .openingTag (readEach dialect trees) = .ok shapes
  have hmiddle : StretchFocused dialect reads
      (.token opening :: parts ++ ending.toList.map .token) offset inner := by
    refine (readAs_focused hsound hA hinner hforeign).stretch ?_
    intro before tree after x shapes' htrees _ hx hreads
    refine ⟨fun t ht => ?_, hreads⟩
    rw [htrees] at hall
    rw [List.mem_append, List.mem_cons] at ht
    rcases ht with ht | rfl | ht
    · exact hall t (by simp [ht])
    · exact isToken_of_role? hx
    · exact hall t (by simp [ht])
  have hreads : ∀ trees shapes, reads trees shapes →
      Part.readElement dialect (readEach dialect ([] ++ trees ++ [])) =
        .ok [.node .element ([] ++ shapes ++ [])] := by
    rintro trees shapes ⟨hends, hshapes⟩
    simp only [List.nil_append, List.append_nil]
    refine (Part.readElement_simple fun p hp => ?_).2 ⟨shapes, hshapes, rfl⟩
    rw [readEach_eq_map] at hp
    obtain ⟨t, ht, rfl⟩ := List.mem_map.1 hp
    exact hends t ht
  have hfocused := focused_of_stretch (A := []) (B := A) (D := []) hform helement [] []
    (by simp) (by simpa using hread) rfl hreads hmiddle (by simpa using hspan) children 0
  simpa [Cursor.within] using hfocused

theorem focused_element {opening : Token} {parts : List Tree} {ending : Option Token}
    (hform : Formed true false (nested opening parts ending))
    (hparts : ∀ t ∈ parts, Exchangeable dialect t)
    (helement : ∀ value, opening.kind ≠ .hole value) {shapes : List Shape}
    (hread : (nested opening parts ending).read dialect = .ok shapes) {offset : Nat} {c : Cursor}
    (hn : preorderAll (nodesAll offset shapes) = c.nodes) (hforeign : IsForeign c.node) :
    Focused dialect (nested opening parts ending) shapes offset c := by
  have hrow := hread
  rw [read_element helement] at hrow
  rcases stretches_of_readElement hrow with
    ⟨A, rfl, hall, hA⟩ | ⟨front, content, back, A, B, D, htrees, hA, hB, hD, rfl⟩
  · obtain ⟨inner, span, children, hinner, hspan, rfl⟩ := Cursor.cases_element hn hforeign
    have hsound := rowSound_of_subset hform hparts fun t ht => ht
    exact focused_simple hform hsound helement hread hall hA hinner hforeign hspan children
  · obtain ⟨inner, span, children, hinner, hspan, rfl⟩ := Cursor.cases_element hn hforeign
    have hsub : ∀ t ∈ front ++ content ++ back,
        t ∈ Tree.token opening :: parts ++ ending.toList.map .token := by
      rw [htrees]
      exact fun t ht => ht
    have hcontent : ∀ t ∈ content, Exchangeable dialect t := by
      intro t ht
      refine exchangeable_of_mem_row hform hparts (hsub t (by simp [ht])) (isInner_of_isContent
        (hB.content (t, t.read dialect) ?_))
      rw [readEach_eq_map]
      exact List.mem_map_of_mem ht
    have hfrontSub : ∀ t ∈ front, t ∈ Tree.token opening :: parts ++ ending.toList.map .token :=
      fun t ht => hsub t (by simp [ht])
    have hfrontSound := rowSound_of_subset hform hparts hfrontSub
    have hbackSound : RowSound dialect back :=
      rowSound_of_subset hform hparts fun t ht => hsub t (by simp [ht])
    have hA' := readAs_chars_of_subset (by simp [Goal.TakesAll]) hform hfrontSub hfrontSound
        hA.reads
    have hB' : charsOf (Shape.tokensAll B) = charsOf (Tree.tokensAll content) := by
      obtain ⟨table, htable, rfl⟩ := hB.reads
      have hrecut := Part.shapes_recut (fun p hp => ?_) htable
      · rw [readEach_fst] at hrecut
        exact hrecut.chars
      · rw [readEach_eq_map] at hp
        obtain ⟨t, ht, rfl⟩ := List.mem_map.1 hp
        exact faithful_read (hcontent t ht).formed
    -- the node is in the opening tag, in the content or in the closing tag
    rw [List.append_assoc] at hinner
    rcases Cursor.cases hinner with ⟨deeper, hdeeper, rfl⟩ | ⟨later, hlater, rfl⟩
    · have hfocused := focused_of_stretch (A := []) (B := A) (D := B ++ D) hform helement
        [] (content ++ back) (by simpa using htrees) (by simpa using hread) rfl
          (fun trees shapes hreads => by
          simpa using readElement_of_stretches hreads hB hD)
        (hA.focused hfrontSound hdeeper hforeign) (by simpa using hspan) children
        (offset + byteLength (charsOf (Shape.tokensAll A)))
      simpa [Cursor.within] using hfocused
    · rcases Cursor.cases hlater with ⟨deeper, hdeeper, rfl⟩ | ⟨deeper, hdeeper, rfl⟩
      · rw [hA'] at hdeeper
        have hfocused := focused_of_stretch (A := A) (B := B) (D := D) hform helement front back
          htrees hread hA' (fun trees shapes hreads => readElement_of_stretches hA hreads hD)
          (hB.focused hcontent hdeeper hforeign) hspan children
          (offset + byteLength (charsOf (Shape.tokensAll A)) +
            byteLength (charsOf (Shape.tokensAll B)))
        simpa [Cursor.within] using hfocused
      · have hAB : charsOf (Shape.tokensAll (A ++ B)) =
            charsOf (Tree.tokensAll (front ++ content)) := by simp [hA', hB']
        have hoffset : offset + byteLength (charsOf (Shape.tokensAll A)) +
            byteLength (charsOf (Shape.tokensAll B)) =
              offset + byteLength (charsOf (Tree.tokensAll (front ++ content))) := by
          rw [← hAB]
          simp [Nat.add_assoc]
        rw [hoffset] at hdeeper
        have hfocused := focused_of_stretch (A := A ++ B) (B := D) (D := []) hform helement
          (front ++ content) [] (by simpa using htrees) (by simpa using hread) hAB
            (fun trees shapes hreads => by
            simpa using readElement_of_stretches hA hB hreads)
          (hD.focused hbackSound hdeeper hforeign) (by simpa using hspan) children 0
        simpa [Cursor.within, nodesAll_append] using hfocused

/-- In a whole tree every token can be exchanged that may be. -/
theorem exchangeable_of_formed {t : Tree} (hform : Formed true false t) :
    Exchangeable dialect t := by
  induction t using Tree.induction_parts with
  | htoken t =>
      have hcloses := hform.closes_eq_false
      cases hform with
      | token proper opens closes =>
          refine exchangeable_token proper ?_
          rintro u ⟨⟩
          exact ⟨opens, hcloses⟩
  | hnested opening parts ending ih =>
      have hparts : ∀ p ∈ parts, Exchangeable dialect p := by
        cases hform with
        | nested _ _ _ _ inner => exact fun p hp => ih p hp (inner p hp)
      refine ⟨hform, fun hread hn hforeign => ?_⟩
      by_cases hhole : ∃ value, opening.kind = .hole value
      · obtain ⟨value, hk⟩ := hhole
        have hreads : ∀ parts, (nested opening parts ending).read dialect =
            Part.readAs dialect .hole
              (readEach dialect (.token opening :: parts ++ ending.toList.map .token)) := by
          intro parts
          rw [read_nested, readNested, hk, row_eq_readEach]
        rw [hreads] at hread
        have hsound := rowSound_of_subset hform hparts fun t ht => ht
        exact focused_of_row hform hreads (readAs_focused hsound hread hn hforeign)
      · exact focused_element hform hparts (fun value hk => hhole ⟨value, hk⟩) hread hn hforeign

end Phrasebook.Source

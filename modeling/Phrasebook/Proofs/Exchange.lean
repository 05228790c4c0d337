import Phrasebook.Proofs.Sketch

/-!
Exchanging a text. A run of element text comes from a token of the text; if other trees that may
stand between tags take the place of that token, the file still reads, the new trees have their
nodes where the run was, and all other nodes are what they were, but for their places.
-/

namespace Phrasebook.Source

open Node Shape Source.Tree

/-! ### Outlines -/

namespace Tree

theorem shown_congr {a b : Tree} {role : Role} (ha : a.role? = some role)
    (hb : b.role? = some role) (hgap : a.gap = b.gap) (i : Nat) : a.shown i = b.shown i := by
  rw [shown, shown, ha, hb, hgap]

end Tree

/-! ### The place of a token and what may take it -/

structure Site where
  left : List Token
  token : Token
  right : List Token

namespace Site

def tokens (s : Site) : List Token := s.left ++ s.token :: s.right

def replaced (s : Site) (new : List Tree) : List Token :=
  s.left ++ Tree.tokensAll new ++ s.right

def within (s : Site) (before after : List Token) : Site :=
  ⟨before ++ s.left, s.token, s.right ++ after⟩

theorem tokens_within (s : Site) (before after : List Token) :
    (s.within before after).tokens = before ++ s.tokens ++ after := by
  simp [tokens, within]

theorem replaced_within (s : Site) (before after : List Token) (new : List Tree) :
    (s.within before after).replaced new = before ++ s.replaced new ++ after := by
  simp [replaced, within]

end Site

/-- Trees that may take the place of a token: what may stand between tags in place of a text, and
the value of an attribute in place of another. -/
structure Fits (dialect : Dialect) (t : Token) (new : List Tree) (found : List (List Shape)) :
    Prop where
  formed : ∀ x ∈ new, Formed true false x
  reads : Part.shapes (readEach dialect new) = .ok found
  place : t.kind = .text ∧ (∀ p ∈ readEach dialect new, Part.isContent p = true) ∨
    t.kind = .attribute ∧ ∃ x, new = [x] ∧ x.role? = some .value ∧ x.gap = t.gap

structure Cursor where
  before : List Node
  node : Node
  after : List Node

def Cursor.nodes (c : Cursor) : List Node := c.before ++ c.node :: c.after

/-- The nodes of shapes in which others have taken the place of a node. -/
structure Renewed (site : Site) (offset : Nat) (c : Cursor) (found : List (List Shape))
    (shapes : List Shape) : Prop where
  skeleton_eq : skeleton (nodesAll 0 shapes) =
    c.before.map sketch ++ skeleton (nodesAll 0 found.flatten) ++ c.after.map sketch
  placed : ∃ earlier later, preorderAll (nodesAll offset shapes) = earlier ++
    preorderAll (nodesAll (offset + byteLength (charsOf site.left)) found.flatten) ++ later

structure Located (tokens : List Token) (site : Site) (offset : Nat) (c : Cursor) : Prop where
  tokens_eq : tokens = site.tokens
  node_eq : nodesAll (offset + byteLength (charsOf site.left)) (tokenShapes site.token) = [c.node]
  /-- Whatever comes before a run of text has ended there, or is around it. -/
  order : site.token.kind = .text → ∀ m ∈ c.before,
    m.stop ≤ c.node.start ∨ m.start < c.node.start

/-- What becomes of a tree when other trees take the place of a token in it: one tree in the same
role, or, if the tree is the token itself, the other trees. -/
structure Exchanged (dialect : Dialect) (tree : Tree) (shapes : List Shape) (site : Site)
    (offset : Nat) (c : Cursor) (new : List Tree) (found : List (List Shape)) (trees : List Tree)
    (table : List (List Shape)) : Prop where
  tokens_eq : Tree.tokensAll trees = site.replaced new
  formed : ∀ x ∈ trees, Formed true false x
  reads : Part.shapes (readEach dialect trees) = .ok table
  single : ∀ role, tree.role? = some role →
    ∃ x, trees = [x] ∧ x.role? = some role ∧ x.gap = tree.gap
  content : Part.isContent (tree, tree.read dialect) = true →
    ∀ p ∈ readEach dialect trees, Part.isContent p = true
  renewed : Renewed site offset c found table.flatten
  /-- What is around a value hides it. -/
  sketches : ∀ role, tree.role? = some role → role ≠ .value →
    (nodesAll 0 table.flatten).map sketch = (nodesAll 0 shapes).map sketch

/-- The token of a node of a tree, and that it can be exchanged. -/
def Focused (dialect : Dialect) (tree : Tree) (shapes : List Shape) (offset : Nat) (c : Cursor) :
    Prop :=
  ∃ site, Located tree.tokens site offset c ∧ ∀ new found, Fits dialect site.token new found →
    ∃ trees table, Exchanged dialect tree shapes site offset c new found trees table

/-! ### Tokens -/

theorem nodesAll_stretch_token (offset : Nat) (text : List Char) :
    nodesAll offset (stretch (.token none) text) = [] := by
  unfold stretch
  split <;> simp [nodesAll, nodes]

theorem nodesAll_stretch_run (offset : Nat) (text : List Char) :
    nodesAll offset (stretch .run text) = if text.isEmpty then [] else [.run offset text] := by
  unfold stretch
  split <;> simp [nodesAll, nodes]

/-- The nodes of an element text. -/
theorem nodesAll_ofText (offset : Nat) (text : List Char) :
    nodesAll offset (ofText text) = if (Lexeme.textRun text).isEmpty then []
      else [.run (offset + byteLength (Lexeme.layoutBefore text)) (Lexeme.textRun text)] := by
  rw [ofText_eq, nodesAll_append, nodesAll_append, nodesAll_stretch_token, nodesAll_stretch_token,
    stretch_chars _ (by simp), nodesAll_stretch_run]
  simp

theorem role?_of_text {t : Token} (h : t.kind = .text) : (Tree.token t).role? = none := by
  simp [role?, h]

theorem role?_of_attribute {t : Token} (h : t.kind = .attribute) :
    (Tree.token t).role? = some .value := by
  simp [role?, h]

/-- A token that is read on its own has one node at most. -/
theorem nodesAll_tokenShapes (offset : Nat) (t : Token) :
    nodesAll offset (tokenShapes t) = [] ∨ ∃ n, nodesAll offset (tokenShapes t) = [n] ∧
      n.preorder = [n] ∧ (t.kind = .text ∨ t.kind = .attribute) := by
  unfold tokenShapes
  split
  · next hk =>
    rw [nodesAll_ofText]
    split
    · exact Or.inl rfl
    · exact Or.inr ⟨_, rfl, preorder_run _ _, Or.inl hk⟩
  · next hk =>
    refine Or.inr ⟨.leaf (.string .attribute) (offset + byteLength t.gap) t.text, ?_,
      preorder_leaf _ _ _, Or.inr hk⟩
    simp [nodesAll, nodes]
  · exact Or.inl (by simp [nodesAll, nodes])

theorem focused_token {dialect : Dialect} {t : Token} {offset : Nat} {c : Cursor}
    (h : preorderAll (nodesAll offset (tokenShapes t)) = c.nodes) :
    Focused dialect (token t) (tokenShapes t) offset c := by
  obtain ⟨before, node, after⟩ := c
  rcases nodesAll_tokenShapes offset t with hnil | ⟨n, hn, hpre, hk⟩
  · rw [hnil] at h
    simp [Cursor.nodes] at h
  · rw [hn, preorderAll_cons, hpre, preorderAll_nil, List.append_nil, Cursor.nodes] at h
    obtain ⟨rfl, rfl, rfl⟩ : before = [] ∧ after = [] ∧ node = n := by
      cases before <;> simp_all
    refine ⟨⟨[], t, []⟩, ⟨rfl, by simpa using hn, by simp⟩, fun new found hfits => ?_⟩
    refine ⟨new, found, ⟨by simp [Site.replaced], hfits.formed, hfits.reads, ?_, ?_, ?_, ?_⟩⟩
    · intro role hrole
      rcases hfits.place with ⟨hk, -⟩ | ⟨hk, x, hx, hxrole, hgap⟩
      · rw [role?_of_text hk] at hrole
        cases hrole
      · rw [role?_of_attribute hk] at hrole
        exact ⟨x, hx, hxrole.trans hrole, hgap⟩
    · intro hcontent
      rcases hfits.place with ⟨-, hc⟩ | ⟨hk, -⟩
      · exact hc
      · have hk : t.kind = .attribute := hk
        simp [Part.isContent, hk] at hcontent
    · exact ⟨by simp, [], [], by simp⟩
    · intro role hrole hvalue
      rcases hk with hk | hk
      · rw [role?_of_text hk] at hrole
        cases hrole
      · rw [role?_of_attribute hk] at hrole
        exact absurd (Option.some.inj hrole).symm hvalue

/-! ### The first token of a nested tree -/

variable {dialect : Dialect}

theorem shown_opening {opening : Token} (h : opening.kind.opens = true) (i : Nat) :
    (Tree.token opening).shown i = opening ∧ opening.IsOwn := by
  have hk : opening.kind ≠ .attribute := fun hk => by simp [hk, TokenKind.opens] at h
  refine ⟨by simp [shown, role?, hk, first], fun role index hk => ?_⟩
  simp [hk, TokenKind.opens] at h

theorem readAs_head {goal : Goal} (hgoal : goal.TakesAll) {opening : Token}
    (h : opening.kind.opens = true) {parts : List Part} {shapes : List Shape}
    {result : Except Fault (List Shape)}
    (hread : Part.readAs dialect goal ((.token opening, result) :: parts) = .ok shapes) :
    ∃ rest, Shape.tokensAll shapes = opening :: rest := by
  obtain ⟨shown, table, hshown, -, rfl⟩ := Part.readAs_eq_ok.1 hread
  obtain ⟨rest, hrest, hend⟩ := atEnd_of_readAll hgoal hshown
  rw [List.map_cons, outline, (shown_opening h 0).1] at hrest
  rw [tokensAll_fillAll (readAll_ok hshown).2]
  cases hts : Shape.tokensAll shown with
  | nil =>
      -- nothing has been read, so the row ends where it begins
      rw [hts, List.nil_append] at hrest
      rw [← hrest] at hend
      have hkind : opening.kind = .stop ∨ opening.kind = .border := by
        simpa [atEnd, isEnd] using hend
      rcases hkind with hk | hk <;> simp [hk, TokenKind.opens] at h
  | cons t ts =>
      rw [hts, List.cons_append] at hrest
      obtain ⟨rfl, -⟩ := List.cons.inj hrest
      rw [List.flatMap_cons, (shown_opening h 0).2.filled_eq]
      exact ⟨_, rfl⟩

/-- What a nested tree reads as begins with the token that opens the tree. -/
theorem tokensAll_of_read {opening : Token} (h : opening.kind.opens = true) {parts : List Tree}
    {ending : Option Token} {shapes : List Shape}
    (hread : (nested opening parts ending).read dialect = .ok shapes) :
    ∃ rest, Shape.tokensAll shapes = opening :: rest := by
  rw [read_nested, readNested] at hread
  split at hread
  · exact readAs_head (by simp [Goal.TakesAll]) h hread
  · by_cases hend : ∃ p ∈ row opening (readEach dialect parts) ending, Part.endsTag p = true
    · obtain ⟨p, hp, ht⟩ := hend
      obtain ⟨c, hc, hrow⟩ := Part.Cut.exists_valid hp ht
      rw [← hrow] at hread
      obtain ⟨tag, content, htag, -, rfl⟩ := (Part.readElement_cut hc).1 hread
      have hhead : ∃ others, c.opening ++ [c.tagEnd] = tokenPart opening :: others := by
        rw [row, Part.Cut.row] at hrow
        cases hco : c.opening with
        | nil =>
            rw [hco] at hrow
            exact ⟨[], by rw [(List.cons.inj hrow).1]; rfl⟩
        | cons q others =>
            rw [hco] at hrow
            exact ⟨others ++ [c.tagEnd], by rw [(List.cons.inj hrow).1]; rfl⟩
      obtain ⟨others, hothers⟩ := hhead
      rw [hothers] at htag
      obtain ⟨rest, hrest⟩ := readAs_head (by simp [Goal.TakesAll]) h htag
      exact ⟨rest ++ Shape.tokensAll content, by simp [hrest]⟩
    · have hall : ∀ p ∈ row opening (readEach dialect parts) ending, Part.endsTag p = false := by
        simpa using hend
      obtain ⟨tag, htag, rfl⟩ := (Part.readElement_simple hall).1 hread
      obtain ⟨rest, hrest⟩ := readAs_head (by simp [Goal.TakesAll]) h htag
      exact ⟨rest, by simp [hrest]⟩

theorem Located.left_le_start {tokens : List Token} {site : Site} {offset : Nat} {c : Cursor}
    (h : Located tokens site offset c) :
    offset + byteLength (charsOf site.left) ≤ c.node.start := by
  have hmem : c.node ∈ preorderAll
      (nodesAll (offset + byteLength (charsOf site.left)) (tokenShapes site.token)) := by
    rw [h.node_eq]
    simpa using c.node.mem_preorder_self
  obtain ⟨p, q, -, hstart⟩ := (within_of_mem_nodesAll _ _ _ hmem).start
  omega

/-- A run of text in a nested tree begins after the token that opens the tree. -/
theorem Located.lead_lt_start {tree : Tree} {shapes : List Shape} {site : Site} {offset : Nat}
    {c : Cursor} (hform : Formed true false tree) (hrole : tree.role?.isSome = true)
    (hread : tree.read dialect = .ok shapes) (h : Located tree.tokens site offset c)
    (htext : site.token.kind = .text) :
    Shape.tokensAll shapes ≠ [] ∧ offset + leadOf (Shape.tokensAll shapes) < c.node.start := by
  have hle := h.left_le_start
  have htokens := h.tokens_eq
  rw [Site.tokens] at htokens
  cases hform with
  | @token _ t proper opens closes =>
      -- a token with a role is no text
      rw [Tree.tokens_token] at htokens
      obtain rfl : site.token = t := by
        cases hl : site.left <;> simp_all
      rw [role?_of_text htext] at hrole
      cases hrole
  | @nested _ opening parts ending proper opens closes isWhole inner =>
      obtain ⟨rest, hrest⟩ := tokensAll_of_read opens hread
      rw [hrest]
      refine ⟨by simp, ?_⟩
      obtain ⟨left, hleft⟩ : ∃ left, site.left = opening :: left := by
        cases hl : site.left with
        | nil =>
            rw [hl, Tree.tokens_nested] at htokens
            rw [← (List.cons.inj htokens).1] at htext
            simp [htext, TokenKind.opens] at opens
        | cons t left =>
            rw [hl, Tree.tokens_nested] at htokens
            exact ⟨left, by rw [(List.cons.inj htokens).1]⟩
      have htextne : 0 < byteLength opening.text := by
        cases ht : opening.text with
        | nil => cases hk : opening.kind <;> simp_all [Token.isProper, TokenKind.opens]
        | cons c r =>
            have hc := Char.utf8Size_pos c
            rw [byteLength_cons]
            omega
      rw [hleft, charsOf_cons, byteLength_append, byteLength_append] at hle
      rw [leadOf]
      omega

/-! ### Rows -/

/-- What becomes of a row that reads as a goal when one tree of it is exchanged for another in the
same role. -/
structure RowExchanged (dialect : Dialect) (goal : Goal) (before : List Tree) (tree : Tree)
    (after : List Tree) (shapes : List Shape) (site : Site) (offset : Nat) (c : Cursor)
    (new : List Tree) (found : List (List Shape)) (x : Tree) (shapes' : List Shape) : Prop where
  role_eq : x.role? = tree.role?
  gap_eq : x.gap = tree.gap
  formed : Formed true false x
  tokens_eq : Tree.tokensAll (before ++ x :: after) = site.replaced new
  reads : Part.readAs dialect goal (readEach dialect (before ++ x :: after)) = .ok shapes'
  renewed : Renewed site offset c found shapes'
  sketches : (nodesAll 0 shapes').map sketch = (nodesAll 0 shapes).map sketch

/-- The tree of a row that a node is in, and that its token can be exchanged. -/
def RowFocused (dialect : Dialect) (goal : Goal) (trees : List Tree) (shapes : List Shape)
    (offset : Nat) (c : Cursor) : Prop :=
  ∃ before tree after site, trees = before ++ tree :: after ∧ tree.role?.isSome = true ∧
    Located (Tree.tokensAll trees) site offset c ∧
    ∀ new found, Fits dialect site.token new found → ∃ x shapes',
      RowExchanged dialect goal before tree after shapes site offset c new found x shapes'

/-- A tree in which the token of a node can be exchanged, whichever node it is. -/
structure Exchangeable (dialect : Dialect) (t : Tree) : Prop where
  formed : Formed true false t
  focused : ∀ {shapes offset c}, t.read dialect = .ok shapes →
    preorderAll (nodesAll offset shapes) = Cursor.nodes c → IsForeign c.node →
    Focused dialect t shapes offset c

structure RowSound (dialect : Dialect) (trees : List Tree) : Prop where
  faithful : ∀ t ∈ trees, Part.Faithful (t, t.read dialect)
  exchangeable : ∀ t ∈ trees, t.role?.isSome = true → Exchangeable dialect t

/-- The shapes of the trees of a row around one of them. -/
theorem shapes_readEach_append {before after : List Tree} {tree : Tree}
    {table : List (List Shape)}
    (h : Part.shapes (readEach dialect (before ++ tree :: after)) = .ok table) :
    ∃ first shapes last, table = first ++ shapes :: last ∧ tree.read dialect = .ok shapes ∧
      Part.shapes (readEach dialect before) = .ok first ∧
      Part.shapes (readEach dialect after) = .ok last := by
  rw [readEach_eq_map, List.map_append, List.map_cons, ← readEach_eq_map, ← readEach_eq_map] at h
  obtain ⟨first, others, hfirst, hothers, rfl⟩ := Part.shapes_append_ok h
  rw [Part.shapes_eq_ok] at hothers
  obtain ⟨shapes, last, rfl, hs, hlast⟩ := List.map_eq_cons_iff.1 hothers.symm
  exact ⟨first, shapes, last, rfl, hs.symm, hfirst, Part.shapes_eq_ok.2 hlast.symm⟩

theorem shapes_readEach_cons {before after : List Tree} {tree : Tree}
    {first last : List (List Shape)} {shapes : List Shape}
    (hfirst : Part.shapes (readEach dialect before) = .ok first)
    (hs : tree.read dialect = .ok shapes)
    (hlast : Part.shapes (readEach dialect after) = .ok last) :
    Part.shapes (readEach dialect (before ++ tree :: after)) = .ok (first ++ shapes :: last) := by
  rw [Part.shapes_eq_ok] at hfirst hlast ⊢
  rw [readEach_eq_map] at hfirst hlast ⊢
  simp [hfirst, hlast, hs]

theorem length_of_shapes {trees : List Tree} {table : List (List Shape)}
    (h : Part.shapes (readEach dialect trees) = .ok table) : table.length = trees.length := by
  have hlen := congrArg List.length (Part.shapes_eq_ok.1 h)
  simpa [readEach_eq_map] using hlen.symm

/-- Exchanging an entry of a table changes nothing for tokens before and after it. -/
theorem sameAt_of_outline {before after : List Tree} (hb : ∀ t ∈ before, t.first.IsOwn)
    (ha : ∀ t ∈ after, t.first.IsOwn) {first last : List (List Shape)} (s s' : List Shape)
    (hlen : first.length = before.length) {t : Token}
    (ht : t ∈ outline 0 before ∨ t ∈ outline (before.length + 1) after) :
    SameAt (first ++ s :: last) (first ++ s' :: last) t := by
  intro role index hk
  rcases ht with ht | ht
  · have hlt := (index_of_mem_outline hb ht hk).2
    simp only [List.getD_eq_getElem?_getD]
    rw [List.getElem?_append_left (by omega), List.getElem?_append_left (by omega)]
  · have hle := (index_of_mem_outline ha ht hk).1
    simp only [List.getD_eq_getElem?_getD]
    rw [List.getElem?_append_right (by omega), List.getElem?_append_right (by omega)]
    obtain ⟨k, hk⟩ : ∃ k, index - first.length = k + 1 := ⟨index - first.length - 1, by omega⟩
    rw [hk, List.getElem?_cons_succ, List.getElem?_cons_succ]

theorem shapes_readEach_singleton {x : Tree} {table : List (List Shape)}
    (h : Part.shapes (readEach dialect [x]) = .ok table) :
    ∃ shapes, table = [shapes] ∧ x.read dialect = .ok shapes := by
  have hrow : Part.shapes (readEach dialect ([] ++ x :: [])) = .ok table := h
  obtain ⟨first, shapes, last, rfl, hs, hfirst, hlast⟩ := shapes_readEach_append hrow
  have h0 := length_of_shapes hfirst
  have h1 := length_of_shapes hlast
  rw [List.length_nil, List.length_eq_zero_iff] at h0 h1
  exact ⟨shapes, by simp [h0, h1], hs⟩

/-- The tree of a row that a node comes from, with its place in the outline of the row. -/
structure RowSpot (dialect : Dialect) (goal : Goal) (trees : List Tree) (shapes : List Shape)
    (offset : Nat) (c : Cursor) where
  before : List Tree
  tree : Tree
  after : List Tree
  trees_eq : trees = before ++ tree :: after
  first : List (List Shape)
  entry : List Shape
  last : List (List Shape)
  firstReads : Part.shapes (readEach dialect before) = .ok first
  entryReads : tree.read dialect = .ok entry
  lastReads : Part.shapes (readEach dialect after) = .ok last
  shown : List Shape
  shown_eq : readAll dialect goal (outline 0 trees) = .ok shown
  shapes_eq : shapes = fillAll (first ++ entry :: last) shown
  spot : Spot (first ++ entry :: last) (Shape.tokensAll shown)
    (fun table => fillAll table shown) offset c.before c.node c.after
  hidden : spot.role = .value → spot.cover = .hidden
  role_eq : tree.role? = some spot.role
  index_eq : spot.index = before.length
  left_eq : spot.left = outline 0 before
  right_subset : ∀ t ∈ spot.right, t ∈ outline (before.length + 1) after

theorem exists_rowSpot {goal : Goal} {trees : List Tree}
    (hown : ∀ t ∈ trees, t.first.IsOwn) {shapes : List Shape}
    (hread : Part.readAs dialect goal (readEach dialect trees) = .ok shapes) {offset : Nat}
    {c : Cursor} (hn : preorderAll (nodesAll offset shapes) = c.nodes)
    (hforeign : IsForeign c.node) : Nonempty (RowSpot dialect goal trees shapes offset c) := by
  obtain ⟨shown, table, hshown, htable, rfl⟩ := Part.readAs_eq_ok.1 hread
  obtain ⟨⟨rest, hrest⟩, hcode⟩ := readAll_ok hshown
  obtain ⟨spot, hhidden⟩ := exists_spot hcode hforeign hn
  have hvalue : spot.role = .value → spot.cover = .hidden := fun h =>
    hhidden (lacks_value_of_readAll hshown
      (by simp [Token.isValue, spot.kind_eq, h, TokenKind.isNested]))
  rw [readEach_fst] at hrest hshown
  have hspot : outline 0 trees = spot.left ++ spot.token :: (spot.right ++ rest) := by
    have hall := congrArg (· ++ rest) spot.tokens_eq
    simpa [hrest] using hall
  obtain ⟨before, tree, after, rfl, hleft, hindex, hrole, hright⟩ :=
    outline_eq_append hown hspot spot.kind_eq
  rw [Nat.zero_add] at hindex
  obtain ⟨first, entry, last, rfl, hentry, hfirst, hlast⟩ := shapes_readEach_append htable
  refine ⟨⟨before, tree, after, rfl, first, entry, last, hfirst, hentry, hlast, shown, hshown, rfl,
    spot, hvalue, hrole, hindex, hleft, fun t ht => ?_⟩⟩
  rw [← hindex, ← hright]
  exact List.mem_append_left _ ht

namespace RowSpot

variable {goal : Goal} {trees : List Tree} {shapes : List Shape} {offset : Nat} {c : Cursor}
  (r : RowSpot dialect goal trees shapes offset c)

def start : Nat := offset + byteLength (charsOf (Tree.tokensAll r.before))

theorem tree_mem : r.tree ∈ trees := (congrArg (r.tree ∈ ·) r.trees_eq).mpr (by simp)

theorem getD_index (entry : List Shape) :
    (r.first ++ entry :: r.last).getD r.spot.index [] = entry := by
  have hlen : r.first.length = r.before.length := length_of_shapes r.firstReads
  simp [r.index_eq, ← hlen]

theorem sameAt (hown : ∀ t ∈ trees, t.first.IsOwn) (entry : List Shape) :
    ∀ t ∈ r.spot.left ++ r.spot.right,
      SameAt (r.first ++ r.entry :: r.last) (r.first ++ entry :: r.last) t := by
  intro t ht
  have hb : ∀ u ∈ r.before, u.first.IsOwn := fun u hu => hown u (by rw [r.trees_eq]; simp [hu])
  have ha : ∀ u ∈ r.after, u.first.IsOwn := fun u hu => hown u (by rw [r.trees_eq]; simp [hu])
  refine sameAt_of_outline hb ha _ _ (length_of_shapes r.firstReads) ?_
  rcases List.mem_append.1 ht with ht | ht
  · rw [r.left_eq] at ht
    exact Or.inl ht
  · exact Or.inr (r.right_subset t ht)

theorem start_eq (hfaith : ∀ t ∈ trees, Part.Faithful (t, t.read dialect)) :
    offset + byteLength (charsOf (r.spot.left.flatMap
      (Token.filled (r.first ++ r.entry :: r.last)))) = r.start := by
  have hbefore : ∀ p ∈ readEach dialect r.before, p.Faithful := by
    rw [readEach_eq_map]
    intro p hp
    obtain ⟨t, ht, rfl⟩ := List.mem_map.1 hp
    exact hfaith t (by rw [r.trees_eq]; simp [ht])
  have hfilled := (Part.outline_filled hbefore r.firstReads [] (r.entry :: r.last)).chars
  rw [readEach_fst] at hfilled
  rw [r.left_eq, start, ← hfilled]
  rfl

theorem inner (hfaith : ∀ t ∈ trees, Part.Faithful (t, t.read dialect)) :
    preorderAll (nodesAll r.start r.entry) =
      (Cursor.mk r.spot.innerBefore c.node r.spot.innerAfter).nodes := by
  have h := r.spot.inner
  rw [r.start_eq hfaith, r.getD_index] at h
  exact h

/-- The row with another tree in the same role reads, and its shapes are those of the outline with
the other entry. -/
theorem readAs_exchange {x : Tree} (hrole : x.role? = r.tree.role?) (hgap : x.gap = r.tree.gap)
    {entry : List Shape} (hx : x.read dialect = .ok entry) :
    Part.readAs dialect goal (readEach dialect (r.before ++ x :: r.after)) =
      .ok (fillAll (r.first ++ entry :: r.last) r.shown) := by
  rw [Part.readAs_eq_ok]
  refine ⟨r.shown, _, ?_, shapes_readEach_cons r.firstReads hx r.lastReads, rfl⟩
  have houtline : outline 0 (r.before ++ x :: r.after) = outline 0 trees := by
    have htrees := congrArg (outline 0) r.trees_eq
    rw [htrees, outline_append, outline_append, outline, outline,
      shown_congr (hrole.trans r.role_eq) r.role_eq hgap]
  rw [readEach_fst, houtline]
  exact r.shown_eq

theorem order (hsound : RowSound dialect trees) {site : Site}
    (hloc : Located r.tree.tokens site r.start ⟨r.spot.innerBefore, c.node, r.spot.innerAfter⟩)
    (htext : site.token.kind = .text) :
    ∀ m ∈ c.before, m.stop ≤ c.node.start ∨ m.start < c.node.start := by
  have hrole : r.tree.role?.isSome = true := by simp [r.role_eq]
  have hform := (hsound.exchangeable r.tree r.tree_mem hrole).formed
  obtain ⟨hne, hlt⟩ := hloc.lead_lt_start hform hrole r.entryReads htext
  have hle := hloc.left_le_start
  intro m hm
  rw [r.spot.before_eq, List.mem_append] at hm
  rcases hm with hm | hm
  · have h := r.spot.order (by rwa [r.getD_index]) m hm
    rw [r.start_eq hsound.faithful, r.getD_index] at h
    simp only [] at hlt hle
    omega
  · exact hloc.order htext m hm

end RowSpot

theorem readAs_focused {goal : Goal} {trees : List Tree} (hsound : RowSound dialect trees)
    {shapes : List Shape} (hread : Part.readAs dialect goal (readEach dialect trees) = .ok shapes)
    {offset : Nat} {c : Cursor} (hn : preorderAll (nodesAll offset shapes) = c.nodes)
    (hforeign : IsForeign c.node) : RowFocused dialect goal trees shapes offset c := by
  have hown : ∀ t ∈ trees, t.first.IsOwn := fun t ht => (hsound.faithful t ht).own
  obtain ⟨r⟩ := exists_rowSpot hown hread hn hforeign
  have hrole : r.tree.role?.isSome = true := by simp [r.role_eq]
  obtain ⟨site, hloc, hexchange⟩ := (hsound.exchangeable r.tree r.tree_mem hrole).focused
    r.entryReads (r.inner hsound.faithful) hforeign
  have htokens : Tree.tokensAll trees =
      Tree.tokensAll r.before ++ r.tree.tokens ++ Tree.tokensAll r.after := by
    have h := congrArg Tree.tokensAll r.trees_eq
    simpa using h
  have hstart : offset + byteLength (charsOf (Tree.tokensAll r.before ++ site.left)) =
      r.start + byteLength (charsOf site.left) := by
    rw [RowSpot.start, charsOf_append, byteLength_append]
    omega
  refine ⟨r.before, r.tree, r.after,
    site.within (Tree.tokensAll r.before) (Tree.tokensAll r.after), r.trees_eq, hrole,
    ⟨?_, ?_, fun htext => r.order hsound hloc htext⟩, fun new found hfits => ?_⟩
  · rw [Site.tokens_within, htokens, hloc.tokens_eq]
  · rw [Site.within, hstart]
    exact hloc.node_eq
  · obtain ⟨xs, table, hx⟩ := hexchange new found hfits
    obtain ⟨x, rfl, hxrole, hxgap⟩ := hx.single _ r.role_eq
    obtain ⟨entry, rfl, hxread⟩ := shapes_readEach_singleton hx.reads
    have hsame := r.sameAt hown entry
    have hflat : [entry].flatten = entry := by simp
    have hexposed : r.spot.cover = .hidden ∨
        (nodesAll 0 ((r.first ++ entry :: r.last).getD r.spot.index [])).map sketch =
          (nodesAll 0 ((r.first ++ r.entry :: r.last).getD r.spot.index [])).map sketch := by
      by_cases hvalue : r.spot.role = .value
      · exact Or.inl (r.hidden hvalue)
      · have hsketch := hx.sketches _ r.role_eq hvalue
        rw [hflat] at hsketch
        exact Or.inr (by rw [r.getD_index, r.getD_index, hsketch])
    refine ⟨x, _, ⟨hxrole.trans r.role_eq.symm, hxgap, hx.formed x (by simp), ?_,
      r.readAs_exchange (hxrole.trans r.role_eq.symm) hxgap hxread, ⟨?_, ?_⟩, ?_⟩⟩
    · have hxtokens : x.tokens = site.replaced new := by simpa using hx.tokens_eq
      rw [Site.replaced_within, ← hxtokens]
      simp
    · have hskeleton := hx.renewed.skeleton_eq
      have h := r.spot.skeleton_eq _ hsame (hexposed.imp_left fun h => by simp [h]) 0
      rw [hflat] at hskeleton
      rw [r.getD_index, hskeleton] at h
      have hbefore := congrArg (List.map sketch) r.spot.before_eq
      have hafter := congrArg (List.map sketch) r.spot.after_eq
      rw [h, hbefore, hafter]
      simp
    · obtain ⟨earlier, later, hplaced⟩ := hx.renewed.placed
      obtain ⟨outerEarlier, outerLater, h⟩ := r.spot.placed _ hsame
      rw [hflat] at hplaced
      rw [r.start_eq hsound.faithful, r.getD_index, hplaced] at h
      rw [h, Site.within, hstart]
      exact ⟨outerEarlier ++ earlier, later ++ outerLater, by simp⟩
    · rw [r.spot.sketches _ hsame hexposed 0, ← r.shapes_eq]
      exact (alike_nodesAll shapes offset 0).sketches

end Phrasebook.Source

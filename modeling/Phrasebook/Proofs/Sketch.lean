import Phrasebook.Proofs.Absence
import Phrasebook.Proofs.Layout

/-!
Sketches: nodes without their place, and without what is in an element or a group. The sketches of
the nodes of a shape do not depend on where it stands; and a node of a shape that was put together
from an outline and its parts comes from one of the parts, so that another part in its place changes
nothing else.
-/

namespace Phrasebook.Source

namespace Node

mutual

/-- A node without its place, and without what is in it if it is an element or a group. -/
def sketch : Node → Node
  | leaf kind _ text => leaf kind 0 text
  | run _ text => run 0 text
  | branch kind _ children =>
      branch kind ⟨0, 0⟩ (if kind = .element ∨ kind = .group then [] else sketchAll children)

def sketchAll : List Node → List Node
  | [] => []
  | n :: following => n.sketch :: sketchAll following

end

theorem sketchAll_eq_map (ns : List Node) : sketchAll ns = ns.map sketch := by
  induction ns with
  | nil => simp [sketchAll]
  | cons n ns ih => simp [sketchAll, ih]

@[simp] theorem sketch_leaf (kind : Leaf) (start : Nat) (text : List Char) :
    (leaf kind start text).sketch = leaf kind 0 text := by simp [sketch]

@[simp] theorem sketch_run (start : Nat) (text : List Char) :
    (run start text).sketch = run 0 text := by simp [sketch]

theorem sketch_branch (kind : Construct) (span : Span) (children : List Node) :
    (branch kind span children).sketch =
      branch kind ⟨0, 0⟩ (if kind = .element ∨ kind = .group then [] else children.map sketch) := by
  simp [sketch, sketchAll_eq_map]

/-- The sketches of nodes and of all below them, in reading order. -/
def skeleton (ns : List Node) : List Node := (preorderAll ns).map sketch

@[simp] theorem skeleton_nil : skeleton [] = [] := by simp [skeleton]

@[simp] theorem skeleton_append (a b : List Node) :
    skeleton (a ++ b) = skeleton a ++ skeleton b := by
  simp [skeleton]

theorem skeleton_branch (kind : Construct) (span : Span) (children : List Node) :
    skeleton [branch kind span children] =
      (branch kind span children).sketch :: skeleton children := by
  simp [skeleton]

end Node

namespace Shape

open Node

/-! ### Sketches do not depend on the offset -/

/-- Two lists of nodes that differ in their places at most, and inside elements and groups. -/
structure Alike (a b : List Node) : Prop where
  sketches : a.map sketch = b.map sketch
  skeletons : skeleton a = skeleton b

theorem Alike.append {a b c d : List Node} (h : Alike a b) (k : Alike c d) :
    Alike (a ++ c) (b ++ d) :=
  ⟨by simp [h.sketches, k.sketches], by simp [h.skeletons, k.skeletons]⟩

theorem alike_nodesAll_of {ss : List Shape}
    (h : ∀ s ∈ ss, ∀ o o', Alike (s.nodes o) (s.nodes o')) (o o' : Nat) :
    Alike (nodesAll o ss) (nodesAll o' ss) := by
  induction ss generalizing o o' with
  | nil => exact ⟨by simp, by simp⟩
  | cons s ss ih =>
      rw [nodesAll_cons, nodesAll_cons]
      exact (h s (by simp) o o').append (ih (fun u hu => h u (by simp [hu])) _ _)

theorem alike_nodes (s : Shape) : ∀ o o', Alike (s.nodes o) (s.nodes o') := by
  induction s using induction_parts with
  | htoken kind t =>
      intro o o'
      cases kind <;> exact ⟨by simp [nodes], by simp [nodes, skeleton]⟩
  | hrun t => exact fun o o' => ⟨by simp [nodes], by simp [nodes, skeleton]⟩
  | hnode kind parts ih =>
      intro o o'
      have hparts := alike_nodesAll_of ih o o'
      rw [nodes_node, nodes_node]
      have hsketch : ∀ span span', (branch kind span (nodesAll o parts)).sketch =
          (branch kind span' (nodesAll o' parts)).sketch := by
        intro span span'
        rw [sketch_branch, sketch_branch, hparts.sketches]
      refine ⟨congrArg (fun n => [n]) (hsketch _ _), ?_⟩
      rw [skeleton_branch, skeleton_branch, hparts.skeletons]
      exact congrArg (· :: _) (hsketch _ _)

theorem alike_nodesAll (ss : List Shape) (o o' : Nat) : Alike (nodesAll o ss) (nodesAll o' ss) :=
  alike_nodesAll_of (fun s _ => alike_nodes s) o o'

/-! ### Nodes that come from a part -/

/-- A node that no outline has by itself: a run of element text, or the value of an attribute. -/
def IsForeign : Node → Prop
  | .run _ _ => True
  | .leaf kind _ _ => isCodeLeaf (some kind) = false
  | .branch _ _ _ => False

def SameAt (table table' : List (List Shape)) (t : Token) : Prop :=
  ∀ role index, t.kind = .nested role index → table'.getD index [] = table.getD index []

theorem IsCode.fill_congr {table table' : List (List Shape)} {s : Shape} (h : s.IsCode)
    (hsame : ∀ t ∈ s.tokens, SameAt table table' t) : s.fill table' = s.fill table := by
  induction h with
  | token leaf t =>
      have ht := hsame t (by simp)
      simp only [fill]
      split
      · next hk => exact ht _ _ hk
      · rfl
  | @node kind parts made visible inner ih =>
      rw [tokens_node] at hsame
      rw [fill_node, fill_node]
      congr 2
      clear made visible inner
      induction parts with
      | nil => simp
      | cons s parts ihp =>
          rw [fillAll_cons, fillAll_cons, ih s (by simp) fun t ht => hsame t (by simp [ht]),
            ihp (fun u hu => ih u (by simp [hu])) fun t ht => hsame t (by simp [ht])]

theorem fillAll_congr {table table' : List (List Shape)} {ss : List Shape}
    (h : ∀ s ∈ ss, s.IsCode) (hsame : ∀ t ∈ tokensAll ss, SameAt table table' t) :
    fillAll table' ss = fillAll table ss := by
  induction ss with
  | nil => simp
  | cons s ss ih =>
      rw [fillAll_cons, fillAll_cons, (h s (by simp)).fill_congr fun t ht => hsame t (by simp [ht]),
        ih (fun u hu => h u (by simp [hu])) fun t ht => hsame t (by simp [ht])]

/-- What an outline has around a part: nothing, a node that shows what is in it, or a group as the
innermost node, which does not. -/
inductive Cover where
  | bare
  | shown
  | hidden
  deriving DecidableEq

def Cover.within (cover : Cover) (kind : Construct) : Cover :=
  match cover with
  | .bare => if kind = .group then .hidden else .shown
  | cover => cover

/-- The place of a node in the shapes that an outline and a table of parts make up: the token of
the outline that the node is from, and the nodes around and beside its part. -/
structure Spot (table : List (List Shape)) (tokens : List Token)
    (filled : List (List Shape) → List Shape) (offset : Nat) (before : List Node) (n : Node)
    (after : List Node) where
  left : List Token
  token : Token
  right : List Token
  role : Role
  index : Nat
  tokens_eq : tokens = left ++ token :: right
  kind_eq : token.kind = .nested role index
  outerBefore : List Node
  innerBefore : List Node
  innerAfter : List Node
  outerAfter : List Node
  before_eq : before = outerBefore ++ innerBefore
  after_eq : after = innerAfter ++ outerAfter
  inner : preorderAll (nodesAll (offset + byteLength (charsOf (left.flatMap (Token.filled table))))
    (table.getD index [])) = innerBefore ++ n :: innerAfter
  /-- What comes before the part has ended there, or is around it. -/
  order : tokensAll (table.getD index []) ≠ [] → ∀ m ∈ outerBefore,
    m.stop ≤ offset + byteLength (charsOf (left.flatMap (Token.filled table))) ∨
      m.start ≤ offset + byteLength (charsOf (left.flatMap (Token.filled table))) +
        leadOf (tokensAll (table.getD index []))
  cover : Cover
  /-- Another part changes no sketch but its own, if it has the same or is hidden. -/
  sketches : ∀ table', (∀ t ∈ left ++ right, SameAt table table' t) →
    (cover = .hidden ∨ (nodesAll 0 (table'.getD index [])).map sketch =
      (nodesAll 0 (table.getD index [])).map sketch) →
    ∀ o, (nodesAll o (filled table')).map sketch = (nodesAll offset (filled table)).map sketch
  skeleton_eq : ∀ table', (∀ t ∈ left ++ right, SameAt table table' t) →
    (cover ≠ .shown ∨ (nodesAll 0 (table'.getD index [])).map sketch =
      (nodesAll 0 (table.getD index [])).map sketch) →
    ∀ o, skeleton (nodesAll o (filled table')) =
      outerBefore.map sketch ++ skeleton (nodesAll 0 (table'.getD index [])) ++
        outerAfter.map sketch
  /-- Another part has its nodes where the part had its own. -/
  placed : ∀ table', (∀ t ∈ left ++ right, SameAt table table' t) →
    ∃ earlier later, preorderAll (nodesAll offset (filled table')) =
      earlier ++ preorderAll (nodesAll
        (offset + byteLength (charsOf (left.flatMap (Token.filled table))))
        (table'.getD index [])) ++ later

section

variable {table : List (List Shape)} {offset : Nat} {before after : List Node} {n : Node}

def Spot.ofToken {kind : Option Leaf} {t : Token} {role : Role} {index : Nat}
    (hk : t.kind = .nested role index)
    (h : preorderAll (nodesAll offset (table.getD index [])) = before ++ n :: after) :
    Spot table [t] (fun table => (Shape.token kind t).fill table) offset before n after where
  left := []
  token := t
  right := []
  role := role
  index := index
  tokens_eq := rfl
  kind_eq := hk
  outerBefore := []
  innerBefore := before
  innerAfter := after
  outerAfter := []
  before_eq := rfl
  after_eq := by simp
  inner := h
  order := by simp
  cover := .bare
  sketches := by
    intro table' _ hsketch o
    have hfill : ∀ table : List (List Shape),
        (Shape.token kind t).fill table = table.getD index [] := by
      intro table
      simp [fill, hk]
    rw [hfill, hfill, (alike_nodesAll (table'.getD index []) o 0).sketches,
      hsketch.resolve_left (by simp), (alike_nodesAll (table.getD index []) offset 0).sketches]
  skeleton_eq := by
    intro table' _ _ o
    have hnew := (alike_nodesAll (table'.getD index []) o 0).skeletons
    simpa [fill, hk] using hnew
  placed := by
    intro table' _
    exact ⟨[], [], by simp [fill, hk]⟩

theorem leadOf_append_le (a b : List Token) :
    leadOf (a ++ b) ≤ byteLength (charsOf a) + leadOf b := by
  cases a with
  | nil => simp
  | cons t a =>
      simp only [List.cons_append, leadOf, charsOf_cons, byteLength_append]
      omega

theorem leadOf_append_of_ne_nil {a : List Token} (h : a ≠ []) (b : List Token) :
    leadOf (a ++ b) = leadOf a := by
  cases a with
  | nil => exact absurd rfl h
  | cons t a => rfl

/-- The tokens that an outline stands for, around the spot. -/
theorem Spot.filled_eq {tokens : List Token} {filled : List (List Shape) → List Shape}
    (spot : Spot table tokens filled offset before n after) :
    tokens.flatMap (Token.filled table) =
      spot.left.flatMap (Token.filled table) ++
        (tokensAll (table.getD spot.index []) ++ spot.right.flatMap (Token.filled table)) := by
  have htoken : Token.filled table spot.token = tokensAll (table.getD spot.index []) := by
    simp only [Token.filled, spot.kind_eq]
  have hall := congrArg (List.flatMap (Token.filled table)) spot.tokens_eq
  rwa [List.flatMap_append, List.flatMap_cons, htoken] at hall

/-- The parts around a spot begin before what is put in there. -/
theorem Spot.lead_le {parts : List Shape} (hparts : ∀ s ∈ parts, s.IsCode)
    (spot : Spot table (tokensAll parts) (fun table => fillAll table parts) offset before n after)
    (hne : tokensAll (table.getD spot.index []) ≠ []) :
    offset + leadOf (tokensAll (fillAll table parts)) ≤
      offset + byteLength (charsOf (spot.left.flatMap (Token.filled table))) +
        leadOf (tokensAll (table.getD spot.index [])) := by
  have hlead : leadOf (tokensAll (fillAll table parts)) ≤
      byteLength (charsOf (spot.left.flatMap (Token.filled table))) +
        leadOf (tokensAll (table.getD spot.index [])) := by
    rw [tokensAll_fillAll hparts, spot.filled_eq, ← leadOf_append_of_ne_nil hne]
    exact leadOf_append_le _ _
  omega

theorem Cover.within_eq_hidden {cover : Cover} {kind : Construct}
    (h : cover.within kind ≠ .shown) : cover.within kind = .hidden := by
  unfold within at *
  cases cover with
  | bare => by_cases hkind : kind = .group <;> simp_all
  | _ => simp_all

theorem Cover.ne_shown_of_within {cover : Cover} {kind : Construct}
    (h : cover.within kind ≠ .shown) : cover ≠ .shown := by
  rintro rfl
  exact h rfl

/-- The sketch of a node around the spot. -/
theorem Spot.sketch_eq {kind : Construct} {parts : List Shape}
    (spot : Spot table (tokensAll parts) (fun table => fillAll table parts) offset before n after)
    {table' : List (List Shape)} (hsame : ∀ t ∈ spot.left ++ spot.right, SameAt table table' t)
    (hsketch : spot.cover.within kind = .hidden ∨
      (nodesAll 0 (table'.getD spot.index [])).map sketch =
        (nodesAll 0 (table.getD spot.index [])).map sketch) (o : Nat) (a b : Span) :
    (branch kind a (nodesAll o (fillAll table' parts))).sketch =
      (branch kind b (nodesAll offset (fillAll table parts))).sketch := by
  rw [sketch_branch, sketch_branch]
  split
  · rfl
  · next hkind =>
    rw [spot.sketches table' hsame (hsketch.imp_left fun h => ?_) o]
    unfold Cover.within at h
    split at h
    · simp_all
    · exact h

def Spot.inNode (kind : Construct) {parts : List Shape} (hparts : ∀ s ∈ parts, s.IsCode)
    (spot : Spot table (tokensAll parts) (fun table => fillAll table parts) offset before n after)
    {span : Span} (hspan : span.start = offset + leadOf (tokensAll (fillAll table parts))) :
    Spot table (tokensAll parts) (fun table => (Shape.node kind parts).fill table) offset
      (.branch kind span (nodesAll offset (fillAll table parts)) :: before) n after where
  __ := spot
  outerBefore := .branch kind span (nodesAll offset (fillAll table parts)) :: spot.outerBefore
  before_eq := by simp [spot.before_eq]
  order := by
    intro hne m hm
    rcases List.mem_cons.1 hm with rfl | hm
    · refine Or.inr ?_
      simp only [Node.start, Node.span, hspan]
      exact spot.lead_le hparts hne
    · exact spot.order hne m hm
  cover := spot.cover.within kind
  sketches := by
    intro table' hsame hsketch o
    simp only [fill_node, nodesAll_cons, nodesAll_nil, List.append_nil, nodes_node]
    exact congrArg (fun n => [n]) (spot.sketch_eq hsame hsketch o _ _)
  skeleton_eq := by
    intro table' hsame hsketch o
    simp only [fill_node, nodesAll_cons, nodesAll_nil, List.append_nil, nodes_node]
    rw [skeleton_branch,
      spot.skeleton_eq table' hsame (hsketch.imp_left Cover.ne_shown_of_within) o,
      spot.sketch_eq hsame (hsketch.imp_left Cover.within_eq_hidden) o _ span]
    rfl
  placed := by
    intro table' hsame
    obtain ⟨earlier, later, hplaced⟩ := spot.placed table' hsame
    simp only [fill_node, nodesAll_cons, nodesAll_nil, List.append_nil, nodes_node,
      preorderAll_cons, preorder_branch, preorderAll_nil]
    rw [hplaced]
    exact ⟨_ :: earlier, later, rfl⟩

def Spot.inHead {s : Shape} {ss : List Shape} (hss : ∀ u ∈ ss, u.IsCode)
    (spot : Spot table s.tokens (fun table => s.fill table) offset before n after) (o : Nat) :
    Spot table (tokensAll (s :: ss)) (fun table => fillAll table (s :: ss)) offset before n
      (after ++ preorderAll (nodesAll o (fillAll table ss))) where
  __ := spot
  right := spot.right ++ tokensAll ss
  tokens_eq := by
    have hall := congrArg (· ++ tokensAll ss) spot.tokens_eq
    simpa using hall
  outerAfter := spot.outerAfter ++ preorderAll (nodesAll o (fillAll table ss))
  after_eq := by simp [spot.after_eq]
  sketches := by
    intro table' hsame hsketch o'
    rw [← List.append_assoc] at hsame
    obtain ⟨hspot, hlater⟩ := List.forall_mem_append.1 hsame
    simp only [fillAll_cons, fillAll_congr hss hlater, nodesAll_append]
    rw [List.map_append, List.map_append, spot.sketches table' hspot hsketch o',
      (alike_nodesAll (fillAll table ss) _ _).sketches]
  skeleton_eq := by
    intro table' hsame hsketch o'
    rw [← List.append_assoc] at hsame
    obtain ⟨hspot, hlater⟩ := List.forall_mem_append.1 hsame
    simp only [fillAll_cons, fillAll_congr hss hlater, nodesAll_append]
    rw [skeleton_append, spot.skeleton_eq table' hspot hsketch o',
      (alike_nodesAll (fillAll table ss) _ o).skeletons]
    simp [skeleton]
  placed := by
    intro table' hsame
    rw [← List.append_assoc] at hsame
    obtain ⟨earlier, later, hplaced⟩ := spot.placed table' (List.forall_mem_append.1 hsame).1
    rw [fillAll_cons, nodesAll_append, preorderAll_append, hplaced]
    exact ⟨earlier, later ++ _, List.append_assoc _ _ _⟩

def Spot.inTail {s : Shape} {ss : List Shape} (hs : s.IsCode)
    (spot : Spot table (tokensAll ss) (fun table => fillAll table ss)
      (offset + byteLength (charsOf (tokensAll (s.fill table)))) before n after) :
    Spot table (tokensAll (s :: ss)) (fun table => fillAll table (s :: ss)) offset
      (preorderAll (nodesAll offset (s.fill table)) ++ before) n after :=
  have hoffset : offset + byteLength (charsOf ((s.tokens ++ spot.left).flatMap
      (Token.filled table))) = offset + byteLength (charsOf (tokensAll (s.fill table))) +
        byteLength (charsOf (spot.left.flatMap (Token.filled table))) := by
    have hchars : byteLength (charsOf (tokensAll (s.fill table))) =
        byteLength (charsOf (s.tokens.flatMap (Token.filled table))) := by
      rw [hs.tokensAll_fill]
    rw [List.flatMap_append, charsOf_append, byteLength_append]
    omega
  { spot with
    left := s.tokens ++ spot.left
    tokens_eq := by
      have hall := congrArg (s.tokens ++ ·) spot.tokens_eq
      simpa using hall
    outerBefore := preorderAll (nodesAll offset (s.fill table)) ++ spot.outerBefore
    before_eq := by simp [spot.before_eq]
    inner := by
      rw [hoffset]
      exact spot.inner
    order := by
      intro hne m hm
      rw [hoffset]
      rcases List.mem_append.1 hm with hm | hm
      · have hstop := (within_of_mem_nodesAll _ _ m hm).stop
        exact Or.inl (Nat.le_trans hstop (Nat.le_add_right _ _))
      · exact spot.order hne m hm
    sketches := by
      intro table' hsame hsketch o
      rw [List.append_assoc] at hsame
      obtain ⟨hearlier, hspot⟩ := List.forall_mem_append.1 hsame
      simp only [fillAll_cons, hs.fill_congr hearlier, nodesAll_append]
      rw [List.map_append, List.map_append, (alike_nodesAll (s.fill table) o offset).sketches,
        spot.sketches table' hspot hsketch]
    skeleton_eq := by
      intro table' hsame hsketch o
      rw [List.append_assoc] at hsame
      obtain ⟨hearlier, hspot⟩ := List.forall_mem_append.1 hsame
      simp only [fillAll_cons, hs.fill_congr hearlier, nodesAll_append]
      rw [skeleton_append, spot.skeleton_eq table' hspot hsketch,
        (alike_nodesAll (s.fill table) o offset).skeletons]
      simp [skeleton]
    placed := by
      intro table' hsame
      rw [List.append_assoc] at hsame
      obtain ⟨hearlier, hspot⟩ := List.forall_mem_append.1 hsame
      obtain ⟨earlier, later, hplaced⟩ := spot.placed table' hspot
      rw [hoffset, fillAll_cons, hs.fill_congr hearlier, nodesAll_append, preorderAll_append,
        hplaced]
      exact ⟨preorderAll (nodesAll offset (s.fill table)) ++ earlier, later, by simp⟩ }

/-- The shapes of a list, given the spots in each of them. -/
theorem exists_spot_of {P : Token → Cover → Prop} {ss : List Shape} (hss : ∀ s ∈ ss, s.IsCode)
    (h : ∀ s ∈ ss, ∀ offset before after,
      preorderAll (nodesAll offset (s.fill table)) = before ++ n :: after →
      ∃ spot : Spot table s.tokens (fun table => s.fill table) offset before n after,
        P spot.token spot.cover)
    (hn : preorderAll (nodesAll offset (fillAll table ss)) = before ++ n :: after) :
    ∃ spot : Spot table (tokensAll ss) (fun table => fillAll table ss) offset before n after,
      P spot.token spot.cover := by
  induction ss generalizing offset before with
  | nil => simp at hn
  | cons s ss ih =>
      rw [fillAll_cons, nodesAll_append, preorderAll_append] at hn
      have hlater : ∀ u ∈ ss, u.IsCode := fun u hu => hss u (by simp [hu])
      rcases append_eq_append_cons hn with ⟨Z, rfl, hZ⟩ | ⟨Z, hZ, rfl⟩
      · obtain ⟨spot, hspot⟩ := ih hlater (fun u hu => h u (by simp [hu])) hZ
        exact ⟨spot.inTail (hss s (by simp)), hspot⟩
      · obtain ⟨spot, hspot⟩ := h s (by simp) offset before Z hZ
        exact ⟨spot.inHead hlater _, hspot⟩

theorem IsCode.exists_spot {s : Shape} (hs : s.IsCode) (hforeign : IsForeign n) :
    ∀ offset before after, preorderAll (nodesAll offset (s.fill table)) = before ++ n :: after →
      ∃ spot : Spot table s.tokens (fun table => s.fill table) offset before n after,
        (s.Lacks IsGroup spot.token → spot.cover = .hidden) ∧
          (s.isNode = false → spot.cover = .bare) := by
  induction hs with
  | @token kind leaf t =>
      intro offset before after h
      rw [tokens_token]
      by_cases hk : ∃ role index, t.kind = .nested role index
      · obtain ⟨role, index, hk⟩ := hk
        have hfill : (Shape.token kind t).fill table = table.getD index [] := by simp [fill, hk]
        rw [hfill] at h
        refine ⟨Spot.ofToken hk h, fun hlacks => ?_, fun _ => rfl⟩
        cases hlacks with
        | token other => exact absurd rfl other
      · -- the token stands for itself, and no leaf of code is foreign
        have hfill : (Shape.token kind t).fill table = [.token kind t] := by
          simp only [fill]
          split
          · next hk' => exact absurd ⟨_, _, hk'⟩ hk
          · rfl
        rw [hfill, nodesAll_cons, nodesAll_nil, List.append_nil] at h
        cases kind with
        | none => simp [nodes] at h
        | some kind =>
            simp only [nodes, preorderAll_cons, preorder_leaf, preorderAll_nil,
              List.append_nil] at h
            obtain ⟨-, rfl, -⟩ := List.append_eq_singleton_iff.1 h.symm |>.resolve_right (by simp)
            simp [IsForeign, leaf] at hforeign
  | @node kind parts made visible inner ih =>
      intro offset before after h
      rw [fill_node, nodesAll_cons, nodesAll_nil, List.append_nil, nodes_node, preorderAll_cons,
        preorder_branch, preorderAll_nil, List.append_nil] at h
      rw [tokens_node]
      cases before with
      | nil =>
          obtain ⟨rfl, -⟩ := List.cons.inj h
          exact hforeign.elim
      | cons b before =>
          obtain ⟨rfl, hparts⟩ := List.cons.inj h
          obtain ⟨spot, hhidden, hdirect⟩ : ∃ spot : Spot table (tokensAll parts)
              (fun table => fillAll table parts) offset before n after,
              ((∀ p ∈ parts, p.Lacks IsGroup spot.token) → spot.cover = .hidden) ∧
                ((∀ p ∈ parts, p.isNode = true → p.Lacks IsGroup spot.token) →
                  spot.cover ≠ .shown) := by
            refine exists_spot_of (P := fun t cover =>
              ((∀ p ∈ parts, p.Lacks IsGroup t) → cover = .hidden) ∧
                ((∀ p ∈ parts, p.isNode = true → p.Lacks IsGroup t) → cover ≠ .shown)) inner
              (fun p hp offset before after h => ?_) hparts
            obtain ⟨spot, hhidden, hbare⟩ := ih p hp offset before after h
            refine ⟨spot, fun hall => hhidden (hall p hp), fun hnodes => ?_⟩
            cases hpart : p.isNode with
            | true => simp [hhidden (hnodes p hp hpart)]
            | false => simp [hbare hpart]
          refine ⟨spot.inNode kind inner rfl, fun hlacks => ?_, by simp [isNode]⟩
          change spot.cover.within kind = .hidden
          cases hlacks with
          | node all =>
              rw [hhidden all]
              rfl
          | direct group nodes =>
              have hshown := hdirect nodes
              obtain rfl : kind = .group := group
              cases hc : spot.cover <;> simp_all [Cover.within]

/-- A foreign node of an outline with its parts is in one of the parts, which is hidden if no token
stands for it but in groups. -/
theorem exists_spot {ss : List Shape} (hss : ∀ s ∈ ss, s.IsCode) (hforeign : IsForeign n)
    (hn : preorderAll (nodesAll offset (fillAll table ss)) = before ++ n :: after) :
    ∃ spot : Spot table (tokensAll ss) (fun table => fillAll table ss) offset before n after,
      (∀ s ∈ ss, s.Lacks IsGroup spot.token) → spot.cover = .hidden := by
  refine exists_spot_of (P := fun t cover => (∀ s ∈ ss, s.Lacks IsGroup t) → cover = .hidden) hss
    (fun s hs offset before after h => ?_) hn
  obtain ⟨spot, hhidden, -⟩ := (hss s hs).exists_spot hforeign offset before after h
  exact ⟨spot, fun hall => hhidden (hall s hs)⟩

end

end Shape

end Phrasebook.Source

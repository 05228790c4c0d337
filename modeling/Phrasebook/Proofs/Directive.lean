import Mathlib.Data.List.GetD
import Phrasebook.Proofs.Layout

/-!
Directives. An expression is read as one shape, a leaf, a node or an element that is read on its
own, and a statement adds nothing to it but a semicolon and comments. So a statement of which
nothing is left but a string is that string, with semicolons at most.
-/

namespace Phrasebook.Source

open Shape Rule

namespace Shape

def IsOperand : Shape → Prop
  | token none t => t.isSign ';' = true ∨ t.kind.isNested .element = true
  | token (some _) t => t.IsOwn
  | run _ => False
  | node _ _ => True

theorem isOperand_comment {t : Token} (h : t.kind = .comment) :
    (token (some .comment) t).IsOperand :=
  isOwn_of_kind h (by simp)

def IsStatement : Shape → Prop
  | token none _ | run _ => False
  | token (some _) t => t.IsOwn
  | node .expressionStatement parts => ∀ p ∈ parts, p.IsOperand
  | node _ _ => True

theorem isStatement_comment {t : Token} (h : t.kind = .comment) :
    (token (some .comment) t).IsStatement :=
  isOwn_of_kind h (by simp)

end Shape

/-! ### Expressions -/

def Goal.isOperand : Goal → Bool
  | .sequence | .expression _ | .unary | .primary | .template | .object | .functionExpression
  | .classExpression => true
  | _ => false

section

variable {dialect : Dialect} {goal : Goal → State → Outcome} {bound : Nat}

theorem adds_primary
    (hgoal : ∀ g : Goal, g.isOperand = true → (Rule.goal g).Adds goal bound IsOperand) :
    Grammar.primary.Adds goal bound IsOperand := by
  have hword : ∀ (kind : Leaf) (w : String), (Goal.wordAs kind w).Adds goal bound IsOperand := by
    intro kind w t ht _
    simp only [Token.isWord, Bool.and_eq_true, beq_iff_eq] at ht
    exact isOwn_of_kind ht.1 (by simp)
  have hkind : ∀ (k : Leaf) (kind : TokenKind), (∀ role index, kind ≠ .nested role index) →
      (Rule.leaf k fun t => t.kind == kind).Adds goal bound IsOperand := by
    intro k kind hk t ht _
    exact isOwn_of_kind (beq_iff_eq.1 ht) hk
  refine ⟨?_, hgoal _ rfl, hkind _ _ (by simp), hkind _ _ (by simp), fun _ _ _ _ => trivial,
    fun _ _ _ _ => trivial, hgoal _ rfl, hgoal _ rfl, hgoal _ rfl,
    ⟨fun _ _ _ _ => trivial, fun _ _ _ _ => trivial⟩,
    ⟨fun _ _ _ _ => trivial, hword _ _, trivial⟩, hword _ _, ?_, ⟨?_, trivial⟩, ?_, hword _ _, ?_⟩
  · intro t _ ht
    exact isOwn_of_kind (beq_iff_eq.1 ht) (by simp)
  · intro t ht _
    obtain ⟨w, -, hw⟩ := List.any_eq_true.1 ht
    simp only [Token.isWord, Bool.and_eq_true, beq_iff_eq] at hw
    exact isOwn_of_kind hw.1 (by simp)
  · intro t _ ht
    exact isOwn_of_kind (beq_iff_eq.1 ht) (by simp)
  · intro t ht
    exact Or.inr ht
  · intro t _ ht
    exact isOwn_of_kind (beq_iff_eq.1 ht) (by simp)

/-- What nodes are made of does not matter here, nor what is put around the last shape. -/
theorem adds_operand
    (hgoal : ∀ g : Goal, g.isOperand = true → (Rule.goal g).Adds goal bound IsOperand) (g : Goal)
    (hg : g.isOperand = true) : (grammar dialect g).Adds goal bound IsOperand := by
  have hnode : ∀ kind (r : Rule Goal), (Rule.node kind r).Adds goal bound IsOperand :=
    fun _ _ _ _ _ _ => trivial
  have hextend : ∀ kind (r : Rule Goal), (Rule.extend kind r).Adds goal bound IsOperand :=
    fun _ _ _ _ _ _ => trivial
  cases g with
  | sequence => exact ⟨hgoal _ rfl, fun _ _ _ _ => trivial⟩
  | expression typed =>
      exact ⟨hnode _ _, hnode _ _, hnode _ _, hgoal _ rfl, hextend _ _, hextend _ _, hextend _ _,
        hextend _ _⟩
  | unary =>
      refine ⟨hnode _ _, ?_, hgoal _ rfl, ?_, hextend _ _, trivial⟩
      · cases dialect
        · exact hnode _ _
        · trivial
      · exact ⟨hextend _ _, hextend _ _, hextend _ _, hextend _ _, hextend _ _, hextend _ _,
          hextend _ _, hextend _ _, hextend _ _, hextend _ _⟩
  | primary => exact adds_primary hgoal
  | template | object | functionExpression | classExpression => exact hnode _ _
  | _ => cases hg

end

variable {dialect : Dialect}

theorem operand_read (fuel : Nat) (g : Goal) (hg : g.isOperand = true) :
    ∀ s t, (∀ x ∈ s.shapes, x.IsOperand) → read (grammar dialect) fuel g s = .ok t →
      ∀ x ∈ t.shapes, x.IsOperand := by
  induction fuel generalizing g with
  | zero => intro s t _ h; cases h
  | succ fuel ih =>
      exact forall_run (fun _ => isOperand_comment) (grammar dialect g) (adds_operand ih g hg)

/-! ### Statements -/

theorem adds_expressionStatement (fuel bound : Nat) :
    Grammar.expressionStatement.Adds (read (grammar dialect) fuel) bound IsStatement := by
  intro s t hs h p hp
  refine forall_run (fun _ => isOperand_comment) _ ?_ s t (by simp [hs.shapes]) h p
    (List.mem_reverse.1 hp)
  exact ⟨trivial, operand_read fuel .sequence rfl, fun _ => Or.inl⟩

theorem statement_block (fuel : Nat) :
    ∀ s t, (∀ x ∈ s.shapes, x.IsStatement) → read (grammar dialect) fuel .block s = .ok t →
      ∀ x ∈ t.shapes, x.IsStatement := by
  cases fuel with
  | zero => intro s t _ h; cases h
  | succ fuel =>
      exact forall_run (fun _ => isStatement_comment) (grammar dialect .block)
        (fun _ _ _ _ => trivial)

theorem statement_read (fuel : Nat) :
    ∀ s t, (∀ x ∈ s.shapes, x.IsStatement) → read (grammar dialect) fuel .statement s = .ok t →
      ∀ x ∈ t.shapes, x.IsStatement := by
  cases fuel with
  | zero => intro s t _ h; cases h
  | succ fuel =>
      have hgroup : ∀ r : Rule Goal,
          (Rule.node .group r).Adds (read (grammar dialect) fuel) fuel IsStatement :=
        fun _ _ _ _ _ => trivial
      refine forall_run (fun _ => isStatement_comment) (grammar dialect .statement) ?_
      refine ⟨statement_block fuel, hgroup _, ⟨hgroup _, hgroup _, hgroup _, hgroup _⟩, hgroup _,
        hgroup _, hgroup _, hgroup _, hgroup _, hgroup _, hgroup _, ⟨hgroup _, hgroup _⟩, hgroup _,
        hgroup _, hgroup _, hgroup _, hgroup _, hgroup _, hgroup _, hgroup _, hgroup _, hgroup _,
        hgroup _, adds_expressionStatement fuel fuel⟩

theorem statement_of_section {ts : List Token} {shapes : List Shape}
    (h : readAll dialect .section ts = .ok shapes) : ∀ x ∈ shapes, x.IsStatement := by
  unfold readAll at h
  split at h
  · next s hs =>
    obtain rfl := Except.ok.inj h
    have hd : depth ts = 32 * (ts.length + 1) - 1 + 1 := by
      unfold depth
      omega
    rw [hd] at hs
    have hadds : (grammar dialect .section).Adds
        (read (grammar dialect) (32 * (ts.length + 1) - 1)) (32 * (ts.length + 1) - 1)
        IsStatement := by
      refine ⟨⟨?_, trivial⟩, ⟨⟨?_, ?_, ?_, ?_⟩, trivial⟩, statement_read _, trivial⟩
      · intro t _ ht
        exact isOwn_of_kind (beq_iff_eq.1 ht) (by simp)
      all_goals exact fun _ _ _ _ => trivial
    have hread := forall_run (fun _ => isStatement_comment) _ hadds _ s (by simp [State.start]) hs
    intro x hx
    exact forall_skip (fun _ => isStatement_comment) hread x (List.mem_reverse.1 hx)
  · cases h

/-! ### Parts put in -/

/-- A statement that is an expression has no tokens of its own but semicolons. -/
def Shape.IsEnded : Shape → Prop
  | node .expressionStatement parts => ∀ t, token none t ∈ parts → t.isSign ';' = true
  | _ => True

/-- An element reads as one node. -/
theorem Tree.read_element {tree : Tree} {shapes : List Shape} (hrole : tree.role? = some .element)
    (h : tree.read dialect = .ok shapes) : ∃ inner, shapes = [.node .element inner] := by
  cases tree with
  | token t =>
      simp only [role?] at hrole
      split at hrole <;> cases hrole
  | nested opening parts ending =>
      have hangle : opening.kind = .angle false := by
        simp only [role?] at hrole
        split at hrole
        · cases hrole
        · cases hrole
        · assumption
        · cases hrole
      rw [Tree.read, readNested, hangle] at h
      by_cases hend : ∃ p ∈ row opening (readEach dialect parts) ending, Part.endsTag p = true
      · obtain ⟨p, hp, ht⟩ := hend
        obtain ⟨c, hc, hrow⟩ := Part.Cut.exists_valid hp ht
        rw [← hrow] at h
        obtain ⟨tag, content, -, -, rfl⟩ := (Part.readElement_cut hc).1 h
        exact ⟨_, rfl⟩
      · obtain ⟨tag, -, rfl⟩ := (Part.readElement_simple (by simpa using hend)).1 h
        exact ⟨_, rfl⟩

/-- What an outline shows as an element is one node in the end. -/
theorem Tree.entry_element {trees : List Tree} (hown : ∀ t ∈ trees, t.first.IsOwn)
    {table : List (List Shape)} (htable : Part.shapes (readEach dialect trees) = .ok table)
    {t : Token} (ht : t ∈ outline 0 trees) (hk : t.kind.isNested .element = true) :
    ∃ index inner, t.kind = .nested .element index ∧
      table.getD index [] = [.node .element inner] := by
  obtain ⟨index, hindex⟩ : ∃ index, t.kind = .nested .element index := by
    cases hkind : t.kind <;> simp_all [TokenKind.isNested]
  obtain ⟨left, right, hsplit⟩ := List.append_of_mem ht
  obtain ⟨before, tree, after, rfl, -, rfl, hrole, -⟩ := outline_eq_append hown hsplit hindex
  rw [readEach_append] at htable
  obtain ⟨front, back, hfront, hback, rfl⟩ := Part.shapes_append_ok htable
  obtain ⟨shapes, others, hshapes, rfl⟩ : ∃ shapes others,
      tree.read dialect = .ok shapes ∧ back = shapes :: others := by
    rw [Part.shapes_eq_ok, readEach_eq_map] at hback
    cases back with
    | nil => simp at hback
    | cons shapes others => exact ⟨shapes, others, (List.cons.inj hback).1, rfl⟩
  obtain ⟨inner, rfl⟩ := read_element hrole hshapes
  refine ⟨_, inner, hindex, ?_⟩
  have hlength : front.length = before.length := by
    have hmap := congrArg List.length (Part.shapes_eq_ok.1 hfront)
    simpa [readEach_eq_map] using hmap.symm
  rw [Nat.zero_add, ← hlength, List.getD_append_right _ _ _ _ (Nat.le_refl _), Nat.sub_self]
  rfl

/-- The statements of a section, when all parts have been put in. -/
theorem Tree.ended_of_section {trees : List Tree} (hown : ∀ t ∈ trees, t.first.IsOwn)
    {result : List Shape}
    (h : Part.readAs dialect .section (readEach dialect trees) = .ok result) :
    ∀ x ∈ result, x.IsEnded := by
  obtain ⟨shown, table, hshown, htable, rfl⟩ := Part.readAs_eq_ok.1 h
  rw [readEach_fst] at hshown
  obtain ⟨⟨rest, hrest⟩, -⟩ := readAll_ok hshown
  intro x hx
  obtain ⟨s, hs, hx⟩ := mem_fillAll.1 hx
  have hstatement := statement_of_section hshown s hs
  have htokens : ∀ t ∈ s.tokens, t ∈ outline 0 trees := by
    intro t ht
    rw [hrest]
    exact List.mem_append_left _ (Shape.mem_tokensAll.2 ⟨s, hs, ht⟩)
  cases s with
  | token kind t =>
      cases kind with
      | none => exact hstatement.elim
      | some kind =>
          rw [fill_of_isOwn hstatement, List.mem_singleton] at hx
          rw [hx]
          trivial
  | run t => exact hstatement.elim
  | node kind parts =>
      rw [fill_node, List.mem_singleton] at hx
      subst hx
      cases kind with
      | expressionStatement =>
          intro u hu
          obtain ⟨p, hp, hu⟩ := mem_fillAll.1 hu
          have hpart := hstatement p hp
          cases p with
          | token kind t =>
              have hmem : t ∈ outline 0 trees := by
                refine htokens t ?_
                rw [tokens_node]
                exact Shape.mem_tokensAll.2 ⟨_, hp, by simp⟩
              cases kind with
              | none =>
                  rcases hpart with hmark | hnested
                  · have hkind : t.kind = .sign := by
                      simp only [Token.isSign, Bool.and_eq_true, beq_iff_eq] at hmark
                      exact hmark.1
                    rw [fill_of_isOwn (isOwn_of_kind hkind (by simp)), List.mem_singleton] at hu
                    cases hu
                    exact hmark
                  · obtain ⟨index, inner, hkind, hentry⟩ := entry_element hown htable hmem hnested
                    simp only [fill, hkind, hentry, List.mem_singleton] at hu
                    cases hu
              | some kind =>
                  rw [fill_of_isOwn hpart, List.mem_singleton] at hu
                  cases hu
          | run t => exact hpart.elim
          | node kind inner =>
              rw [fill_node, List.mem_singleton] at hu
              cases hu
      | _ => trivial

end Phrasebook.Source

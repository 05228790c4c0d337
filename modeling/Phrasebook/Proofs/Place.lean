import Phrasebook.Proofs.Construct
import Phrasebook.Source.Literal

/-!
Where nodes stand, and what they look like. In reading order a node ends before the next begins,
or else contains it; and since places in a file go forward, different places have different
positions.
-/

namespace Phrasebook.Source

open Shape

/-! ### Nodes of shapes in a row -/

namespace Shape

theorem nodes_length (s : Shape) (offset : Nat) : (s.nodes offset).length ≤ 1 := by
  cases s with
  | token kind t => cases kind <;> simp [nodes]
  | run t => simp [nodes]
  | node kind parts => simp [nodes_node]

/-- The shape of a node among shapes in a row. -/
theorem exists_of_mem_nodesAll {ss : List Shape} {offset : Nat} {n : Node}
    (h : n ∈ nodesAll offset ss) :
    ∃ before s after, ss = before ++ s :: after ∧
      s.nodes (offset + byteLength (charsOf (tokensAll before))) = [n] := by
  induction ss generalizing offset with
  | nil => simp at h
  | cons s ss ih =>
      rw [nodesAll_cons, List.mem_append] at h
      rcases h with h | h
      · refine ⟨[], s, ss, rfl, ?_⟩
        obtain ⟨m, hm⟩ := List.length_eq_one_iff.1
          (Nat.le_antisymm (nodes_length s offset) (List.length_pos_of_mem h))
        rw [hm, List.mem_singleton] at h
        simpa [h] using hm
      · obtain ⟨before, t, after, rfl, ht⟩ := ih h
        refine ⟨s :: before, t, after, rfl, ?_⟩
        rw [tokensAll_cons, charsOf_append, byteLength_append, ← Nat.add_assoc]
        exact ht

theorem forall_nodesAll {P : Node → Prop} {ss : List Shape}
    (h : ∀ s ∈ ss, ∀ offset, ∀ n ∈ s.nodes offset, P n) (offset : Nat) :
    ∀ n ∈ nodesAll offset ss, P n := by
  intro n hn
  obtain ⟨before, s, after, rfl, hs⟩ := exists_of_mem_nodesAll hn
  exact h s (List.mem_append_right _ (by simp)) _ n (hs ▸ List.mem_singleton_self n)

end Shape

/-! ### Order -/

/-- One node comes before another, or contains it. -/
def Node.Leads (m n : Node) : Prop := m.stop ≤ n.start ∨ n ∈ Node.preorderAll m.children

namespace Shape

theorem Within.le_start {offset : Nat} {text : List Char} {n : Node} (h : Within offset text n) :
    offset ≤ n.start := by
  obtain ⟨p, q, -, hstart⟩ := h.start
  omega

theorem leads_all {ss : List Shape}
    (h : ∀ s ∈ ss, ∀ offset, (Node.preorderAll (s.nodes offset)).Pairwise Node.Leads)
    (offset : Nat) : (Node.preorderAll (nodesAll offset ss)).Pairwise Node.Leads := by
  induction ss generalizing offset with
  | nil => simp
  | cons s ss ih =>
      rw [nodesAll_cons, Node.preorderAll_append, List.pairwise_append]
      refine ⟨h s (by simp) offset, ih (fun u hu => h u (by simp [hu])) _, ?_⟩
      intro m hm n hn
      have hstop := (within_of_mem s offset m hm).stop
      have hstart := (within_of_mem_nodesAll ss _ n hn).le_start
      exact Or.inl (Nat.le_trans hstop hstart)

theorem leads_nodes (s : Shape) (offset : Nat) :
    (Node.preorderAll (s.nodes offset)).Pairwise Node.Leads := by
  induction s using induction_parts generalizing offset with
  | htoken kind t => cases kind <;> simp [nodes]
  | hrun t => simp [nodes]
  | hnode kind parts ih =>
      rw [nodes_node, Node.preorderAll_cons, Node.preorder_branch, Node.preorderAll_nil,
        List.append_nil, List.pairwise_cons]
      exact ⟨fun n hn => Or.inr hn, leads_all ih offset⟩

theorem leads_nodesAll (ss : List Shape) (offset : Nat) :
    (Node.preorderAll (nodesAll offset ss)).Pairwise Node.Leads :=
  leads_all (fun s _ => leads_nodes s) offset

end Shape

/-! ### Looks -/

namespace Node

/-- A comment, characters of a template, or a node that passes the test. -/
def isPart (test : Construct → Bool) : Node → Bool
  | leaf .chunk _ _ | leaf .comment _ _ => true
  | branch kind _ _ => test kind
  | _ => false

def isConstruct : Node → Bool
  | branch _ _ _ => true
  | _ => false

/-- What a node looks like, as far as that matters. -/
def Grounded : Node → Prop
  | leaf (.string _) _ text => IsQuoted text
  | leaf .stringKeyword _ text => text = "string".toList
  | leaf .hashBang _ text => IsBang text
  | leaf .comment _ text => IsRemark text
  | leaf .name _ text => Shown text
  | run _ text => text ≠ []
  | branch .template span children =>
      span.start < span.stop ∧ ∀ c ∈ children, c.isPart (· == .substitution) = true
  | branch .namedImports _ children => ∀ c ∈ children, c.isPart isSpecifierKind = true
  | branch (.importSpecifier _) _ children => ∀ c ∈ children, c.isConstruct = false
  | _ => True

end Node

namespace Shape

theorem Sound.looks {s : Shape} (h : s.Sound) : ∀ t ∈ s.tokens, t.Looks := by
  induction h with
  | token _ solid => simpa using solid.looks
  | run textual _ => simp [Token.Looks, textual]
  | node _ _ _ _ ih =>
      intro t ht
      obtain ⟨p, hp, ht⟩ := mem_tokensAll.1 (by simpa using ht)
      exact ih p hp t ht

theorem isPart_nodes {test : Construct → Bool} {p : Shape} (hp : p.isPart test = true)
    (offset : Nat) : ∀ n ∈ p.nodes offset, n.isPart test = true := by
  cases p with
  | token kind t =>
      cases kind with
      | none => simp [nodes]
      | some kind => cases kind <;> first | cases hp | simp [nodes, Node.isPart]
  | run t => cases hp
  | node kind parts =>
      rw [nodes_node]
      exact fun n hn => by rwa [List.mem_singleton.1 hn]

theorem isPart_nodesAll {test : Construct → Bool} {parts : List Shape}
    (h : ∀ p ∈ parts, p.isPart test = true) (offset : Nat) :
    ∀ n ∈ nodesAll offset parts, n.isPart test = true :=
  forall_nodesAll (fun p hp => isPart_nodes (h p hp)) offset

theorem isConstruct_of_isNaming {p : Shape} (hp : p.IsNaming) (offset : Nat) :
    ∀ n ∈ p.nodes offset, n.isConstruct = false := by
  cases p with
  | token kind t => cases kind <;> simp [nodes, Node.isConstruct]
  | run t => cases hp
  | node kind parts => cases hp

/-- What begins with a sign is not empty. -/
theorem lead_lt {parts : List Shape} (hlooks : ∀ t ∈ tokensAll parts, t.Looks) {c : Char}
    (h : OpensWith c (tokensAll parts)) :
    leadOf (tokensAll parts) < byteLength (charsOf (tokensAll parts)) := by
  obtain ⟨t, rest, ht, hk, -⟩ := h
  obtain ⟨d, hd, -⟩ : ∃ d, t.text = [d] ∧ Lexeme.isBlank d = false := by
    have hsign := hlooks t (by simp [ht])
    simpa [Token.Looks, hk] using hsign
  have hpos := byteLength_pos (hd ▸ List.cons_ne_nil d [] : t.text ≠ [])
  rw [ht]
  simp only [leadOf, charsOf_cons, byteLength_append]
  omega

theorem grounded_all {ss : List Shape}
    (h : ∀ s ∈ ss, ∀ offset, ∀ n ∈ Node.preorderAll (s.nodes offset), n.Grounded) (offset : Nat) :
    ∀ n ∈ Node.preorderAll (nodesAll offset ss), n.Grounded := by
  induction ss generalizing offset with
  | nil => simp
  | cons s ss ih =>
      intro n hn
      rw [nodesAll_cons, Node.preorderAll_append, List.mem_append] at hn
      rcases hn with hn | hn
      · exact h s (by simp) offset n hn
      · exact ih (fun u hu => h u (by simp [hu])) _ n hn

theorem grounded_leaf {kind : Leaf} {t : Token} (hadmits : kind.admits t = true) (hlooks : t.Looks)
    (start : Nat) : (Node.leaf kind start t.text).Grounded := by
  cases kind with
  | string place =>
      have hkind : t.kind = .string ∨ t.kind = .attribute := by
        cases place <;> simp [Leaf.admits] at hadmits <;> simp [hadmits]
      rcases hkind with hk | hk <;> simpa [Token.Looks, hk, Node.Grounded] using hlooks
  | stringKeyword =>
      simp only [Leaf.admits, Token.isWord, Bool.and_eq_true, beq_iff_eq] at hadmits
      exact hadmits.2
  | hashBang =>
      have hk : t.kind = .hashBang := beq_iff_eq.1 hadmits
      simpa [Token.Looks, hk, Node.Grounded] using hlooks
  | comment =>
      have hk : t.kind = .comment := beq_iff_eq.1 hadmits
      simpa [Token.Looks, hk, Node.Grounded] using hlooks
  | name =>
      have hk : t.kind = .word := beq_iff_eq.1 hadmits
      simpa [Token.Looks, hk, Node.Grounded] using hlooks
  | _ => trivial

theorem Sound.grounded {s : Shape} (h : s.Sound) :
    ∀ offset, ∀ n ∈ Node.preorderAll (s.nodes offset), n.Grounded := by
  induction h with
  | @token kind t admitted solid =>
      intro offset n hn
      cases kind with
      | none => simp [nodes] at hn
      | some kind =>
          obtain rfl : n = .leaf kind (offset + byteLength t.gap) t.text := by
            simpa [nodes] using hn
          exact grounded_leaf (admitted kind rfl) solid.looks _
  | @run t textual visible =>
      intro offset n hn
      obtain rfl : n = .run (offset + byteLength t.gap) t.text := by simpa [nodes] using hn
      exact visible
  | @node kind parts made firm built inner ih =>
      intro offset n hn
      rw [nodes_node, Node.preorderAll_cons, Node.preorder_branch, Node.preorderAll_nil,
        List.append_nil, List.mem_cons] at hn
      rcases hn with rfl | hn
      · cases kind with
        | template =>
            have hlooks := (Sound.node made firm built inner).looks
            rw [tokens_node] at hlooks
            have hlead := lead_lt hlooks made.1
            exact ⟨Nat.add_lt_add_left hlead _, isPart_nodesAll made.2 offset⟩
        | namedImports => exact isPart_nodesAll made offset
        | importSpecifier typeOnly =>
            exact forall_nodesAll (fun p hp => isConstruct_of_isNaming (built.1 p hp)) offset
        | _ => trivial
      · exact grounded_all ih offset n hn

theorem grounded_nodesAll {ss : List Shape} (h : ∀ s ∈ ss, s.Sound) (offset : Nat) :
    ∀ n ∈ Node.preorderAll (nodesAll offset ss), n.Grounded :=
  grounded_all (fun s hs => (h s hs).grounded) offset

end Shape

/-! ### Positions -/

namespace Position

def Before (p q : Position) : Prop := p.line < q.line ∨ p.line = q.line ∧ p.column < q.column

theorem Before.trans {p q r : Position} (h : p.Before q) (k : q.Before r) : p.Before r := by
  unfold Before at *
  omega

theorem Before.ne {p q : Position} (h : p.Before q) : p ≠ q := by
  rintro rfl
  unfold Before at h
  omega

def next (p : Position) (c : Char) : Position :=
  if c == '\n' then ⟨p.line + 1, 0⟩ else ⟨p.line, p.column + 1⟩

theorem before_next (p : Position) (c : Char) : p.Before (p.next c) := by
  unfold next Before
  split
  · exact Or.inl (Nat.lt_succ_self _)
  · exact Or.inr ⟨rfl, Nat.lt_succ_self _⟩

theorem after_append (p : Position) (a b : List Char) :
    p.after (a ++ b) (byteLength a) = a.foldl next p := by
  induction a generalizing p with
  | nil => cases b <;> simp [after]
  | cons c a ih =>
      have hpos : (byteLength (c :: a) == 0) = false := by
        have hlt := byteLength_pos (List.cons_ne_nil c a)
        simp only [beq_eq_false_iff_ne]
        omega
      rw [List.cons_append, after, hpos, byteLength_cons, Nat.add_sub_cancel_left]
      exact ih (p.next c)

theorem before_foldl {a : List Char} (h : a ≠ []) (p : Position) : p.Before (a.foldl next p) := by
  induction a generalizing p with
  | nil => exact absurd rfl h
  | cons c a ih =>
      rw [List.foldl_cons]
      cases a with
      | nil => exact before_next p c
      | cons d a => exact (before_next p c).trans (ih (List.cons_ne_nil d a) _)

/-- Places further on in a text have positions further on. -/
theorem before_ofOffset {text a b a' b' : List Char} (h : text = a ++ b) (h' : text = a' ++ b')
    (hlt : byteLength a < byteLength a') :
    (ofOffset text (byteLength a)).Before (ofOffset text (byteLength a')) := by
  obtain ⟨x, rfl⟩ : ∃ x, a' = a ++ x := by
    rcases List.append_eq_append_iff.1 (h.symm.trans h') with ⟨x, hx, -⟩ | ⟨x, hx, -⟩
    · exact ⟨x, hx⟩
    · rw [hx, byteLength_append] at hlt
      omega
  have hx : x ≠ [] := by
    rintro rfl
    simp at hlt
  rw [ofOffset, ofOffset, h', after_append, List.append_assoc, after_append, List.foldl_append]
  exact before_foldl hx _

end Position

end Phrasebook.Source

import Phrasebook.Proofs.Reading

/-!
Tokens that a construct does not hold. Some tokens are read in few places, and there as direct parts
of a node: the characters of a template between its back quotes, the value of an attribute behind
its name. That a token cannot be read elsewhere is told by the rules alone.
-/

namespace Phrasebook.Source

namespace Shape

def isNode : Shape → Bool
  | node _ _ => true
  | _ => false

/-- A token is not in a shape, but among the direct parts of nodes that have a certain form. -/
inductive Lacks (form : Construct → List Shape → Prop) (u : Token) : Shape → Prop
  | token {kind : Option Leaf} {t : Token} (other : u ≠ t) : Lacks form u (token kind t)
  | node {kind : Construct} {parts : List Shape} (inner : ∀ p ∈ parts, Lacks form u p) :
      Lacks form u (node kind parts)
  | direct {kind : Construct} {parts : List Shape} (formed : form kind parts)
      (inner : ∀ p ∈ parts, p.isNode = true → Lacks form u p) : Lacks form u (node kind parts)

/-- The same of a part, which does not matter if it is a token where tokens are exempt. -/
def Avoids (form : Construct → List Shape → Prop) (u : Token) (exempt : Bool) (s : Shape) : Prop :=
  (exempt = true → s.isNode = true) → s.Lacks form u

end Shape

open Shape

namespace Rule

variable {Goal : Type}

/-- A rule that cannot read the token but as a direct part of a node whose rule passes the test, nor
can its goals if they pass theirs. Where tokens are exempt only those in nodes matter. -/
def lacks (forms : Construct → Rule Goal → Bool) (goals : Bool → Goal → Bool) (u : Token)
    (exempt : Bool) : Rule Goal → Bool
  | .signs _ => exempt || !(u.kind == .sign)
  | .plain kind => exempt || !(u.kind == kind)
  | .one test => exempt || !test u
  | .leaf kind test => exempt || !(test u && kind.admits u)
  | .blockEnd => exempt || !u.closesBrace
  | .semicolon _ => exempt || !u.isSign ';'
  | .andThen a b | .orElse a b => a.lacks forms goals u exempt && b.lacks forms goals u exempt
  | .many a => a.lacks forms goals u exempt
  | .node kind a => a.lacks forms goals u false || forms kind a && a.lacks forms goals u true
  | .extend _ a => !exempt && a.lacks forms goals u false
  | .goal g => goals exempt g
  | .done | .look _ _ | .last _ => true

variable {form : Construct → List Shape → Prop} {forms : Construct → Rule Goal → Bool} {u : Token}
  {goals : Bool → Goal → Bool} {goal : Goal → State → Outcome} {bound : Nat}

/-- A token that passes a test is another one, or else is exempt. -/
theorem avoids_token {exempt : Bool} (test : Token → Bool) (htest : (exempt || !test u) = true)
    (k : Option Leaf) {t : Token} (ht : test t = true) : (token k t).Avoids form u exempt := by
  intro hnode
  cases exempt with
  | true => cases hnode rfl
  | false =>
      refine .token ?_
      rintro rfl
      rw [ht] at htest
      cases htest

theorem avoids_comment (hu : u.kind ≠ .comment) (exempt : Bool) {t : Token}
    (ht : t.kind = .comment) : (token (some .comment) t).Avoids form u exempt := by
  intro _
  refine .token ?_
  rintro rfl
  exact hu ht

theorem adds_avoids (hu : u.kind ≠ .comment)
    (hforms : ∀ kind a s t, forms kind a = true → s.IsFresh → a.run goal bound s = .ok t →
      form kind t.shapes.reverse)
    (hgoal : ∀ exempt g s t, goals exempt g = true → (∀ x ∈ s.shapes, x.Avoids form u exempt) →
      goal g s = .ok t → ∀ x ∈ t.shapes, x.Avoids form u exempt)
    (r : Rule Goal) (exempt : Bool) (hr : r.lacks forms goals u exempt = true) :
    r.Adds goal bound (Avoids form u exempt) := by
  induction r generalizing exempt with
  | done | look _ _ | last _ => trivial
  | signs count => exact fun t ht => avoids_token (·.kind == .sign) hr none (beq_iff_eq.2 ht)
  | plain kind => exact fun t ht => avoids_token (·.kind == kind) hr none (beq_iff_eq.2 ht)
  | one test => exact fun t ht => avoids_token test hr none ht
  | leaf kind test =>
      exact fun t ht hadmits => avoids_token (fun t => test t && kind.admits t) hr _
        (Bool.and_eq_true_iff.2 ⟨ht, hadmits⟩)
  | blockEnd => exact fun t ht => avoids_token _ hr none ht
  | semicolon operands => exact fun t ht => avoids_token (·.isSign ';') hr none ht
  | andThen a b iha ihb | orElse a b iha ihb =>
      obtain ⟨ha, hb⟩ := Bool.and_eq_true_iff.1 hr
      exact ⟨iha exempt ha, ihb exempt hb⟩
  | many a ih => exact ih exempt hr
  | node kind a ih =>
      intro s t hs h _
      have hinner : ∀ exempt, a.lacks forms goals u exempt = true →
          ∀ p ∈ t.shapes.reverse, p.Avoids form u exempt := fun exempt ha p hp =>
        forall_run (fun _ => avoids_comment hu exempt) a (ih exempt ha) s t (by simp [hs.shapes]) h
          p (List.mem_reverse.1 hp)
      rcases Bool.or_eq_true_iff.1 hr with ha | ha
      · exact .node fun p hp => hinner false ha p hp (by simp)
      · obtain ⟨hform, ha⟩ := Bool.and_eq_true_iff.1 ha
        exact .direct (hforms kind a s t hform hs h) fun p hp hnode =>
          hinner true ha p hp fun _ => hnode
  | extend kind a ih =>
      intro s t hs h _
      obtain ⟨hexempt, ha⟩ := Bool.and_eq_true_iff.1 hr
      obtain rfl : exempt = false := by simpa using hexempt
      refine .node fun p hp => ?_
      exact forall_run (fun _ => avoids_comment hu false) a (ih false ha) s t hs h p
        (List.mem_reverse.1 hp) (by simp)
  | goal g => exact fun s t hs h => hgoal exempt g s t hr hs h

end Rule

/-! ### Values of attributes -/

def Token.isValue (t : Token) : Bool := t.kind.isNested .value

/-- The form of the nodes that have an attribute and its value as their parts. -/
def IsGroup (kind : Construct) (_ : List Shape) : Prop := kind = .group

theorem grammar_lacks_value (dialect : Dialect) {u : Token} (hu : u.isValue = true) (g : Goal) :
    (grammar dialect g).lacks (fun kind _ => kind == .group) (fun exempt _ => !exempt) u false =
      true := by
  obtain ⟨kind, gap, text⟩ := u
  obtain ⟨index, rfl⟩ : ∃ index, kind = .nested .value index := by
    cases kind <;> simp_all [Token.isValue, TokenKind.isNested]
  cases g with
  | expression typed => cases typed <;> rfl
  | pattern assigned => cases assigned <;> rfl
  | _ => cases dialect <;> rfl

theorem avoids_value_read {dialect : Dialect} {u : Token} (hu : u.isValue = true) (fuel : Nat) :
    ∀ exempt (g : Goal) s t, (!exempt) = true → (∀ x ∈ s.shapes, x.Avoids IsGroup u exempt) →
      read (grammar dialect) fuel g s = .ok t → ∀ x ∈ t.shapes, x.Avoids IsGroup u exempt := by
  have hcomment : u.kind ≠ .comment := by
    intro hk
    simp [Token.isValue, hk, TokenKind.isNested] at hu
  induction fuel with
  | zero => intro exempt g s t _ _ h; cases h
  | succ fuel ih =>
      intro exempt g s t hexempt
      obtain rfl : exempt = false := by simpa using hexempt
      have hadds : ((grammar dialect g).Adds (read (grammar dialect) fuel) fuel
          (Avoids IsGroup u false)) :=
        Rule.adds_avoids hcomment
          (fun kind _ _ t h _ _ => show kind = .group from beq_iff_eq.1 h) ih _ false
          (grammar_lacks_value dialect hu g)
      exact Rule.forall_run (fun _ => Rule.avoids_comment hcomment false) _ hadds s t

/-- The value of an attribute is read as a direct part of a group. -/
theorem lacks_value_of_readAll {dialect : Dialect} {goal : Goal} {ts : List Token}
    {shapes : List Shape} (h : readAll dialect goal ts = .ok shapes) {u : Token}
    (hu : u.isValue = true) : ∀ s ∈ shapes, s.Lacks IsGroup u := by
  have hcomment : u.kind ≠ .comment := by
    intro hk
    simp [Token.isValue, hk, TokenKind.isNested] at hu
  unfold readAll at h
  split at h
  case h_2 => cases h
  case h_1 last hread =>
    obtain rfl := Except.ok.inj h
    intro s hs
    refine Rule.forall_skip (fun _ => Rule.avoids_comment hcomment false)
      (avoids_value_read hu _ false goal _ _ rfl (by simp [State.start]) hread) s
      (List.mem_reverse.1 hs) (by simp)

end Phrasebook.Source

import Phrasebook.Proofs.Reading

/-!
What a rule can write. A rule that builds on no shape but its own adds shapes behind those that are
there, and which rows of shapes it can add follows from the rule alone. So the parts of a construct
are known from the rule that has read it.
-/

namespace Phrasebook.Source

open Shape

def comments (cs : List Token) : List Shape := cs.map (token (some .comment))

def AreComments (cs : List Token) : Prop := ∀ c ∈ cs, c.kind = .comment

namespace Rule

variable {Goal : Type}

/-- No part of the rule, outside of nodes, builds on shapes that are there, and its goals are among
those that pass the test. -/
def isDirect (goals : Goal → Bool) : Rule Goal → Bool
  | .andThen a b | .orElse a b => a.isDirect goals && b.isDirect goals
  | .many a => a.isDirect goals
  | .extend _ _ | .last _ => false
  | .goal g => goals g
  | _ => true

/-- The rows of shapes that a rule can add, given those that its goals can add. Nothing is said of a
node whose parts build on one another. -/
def Writes (goals : Goal → Bool) (R : Goal → List Shape → Prop) : Rule Goal → List Shape → Prop
  | .done, ss | .look _ _, ss => ss = []
  | .signs count, ss => ∃ cs ts more, AreComments cs ∧ ts ≠ [] ∧ (∀ t ∈ ts, t.kind = .sign) ∧
      count (Source.signs (ts ++ more)) = ts.length ∧ ss = comments cs ++ ts.map (token none)
  | .plain kind, ss => ∃ cs t, AreComments cs ∧ t.kind = kind ∧ ss = comments cs ++ [token none t]
  | .one test, ss => ∃ cs t, AreComments cs ∧ test t = true ∧ ss = comments cs ++ [token none t]
  | .leaf kind test, ss => ∃ cs t, AreComments cs ∧ test t = true ∧ kind.admits t = true ∧
      ss = comments cs ++ [token (some kind) t]
  | .blockEnd, ss => ∃ cs t, AreComments cs ∧ t.closesBrace = true ∧
      ss = comments cs ++ [token none t]
  | .semicolon _, ss => ∃ cs, AreComments cs ∧
      (ss = comments cs ∨ ∃ t, t.isSign ';' = true ∧ ss = comments cs ++ [token none t])
  | .andThen a b, ss => ∃ x y, a.Writes goals R x ∧ b.Writes goals R y ∧ ss = x ++ y
  | .orElse a b, ss => a.Writes goals R ss ∨ b.Writes goals R ss
  | .many a, ss => ∃ rows : List (List Shape), (∀ x ∈ rows, a.Writes goals R x) ∧ ss = rows.flatten
  | .node kind a, ss => ∃ cs parts, AreComments cs ∧
      (a.isDirect goals = true → a.Writes goals R parts) ∧ ss = comments cs ++ [.node kind parts]
  | .goal g, ss => R g ss
  | .extend _ _, _ | .last _, _ => False

def Extends (P : List Shape → Prop) (s t : State) : Prop :=
  ∃ ss, P ss ∧ t.shapes = ss.reverse ++ s.shapes

theorem skip_of_isFresh {s : State} (h : s.IsFresh) : s.skip = s := by
  have hrest := h.rest
  rw [State.rest_skip] at hrest
  unfold State.skip
  cases hs : s.rest with
  | nil => rfl
  | cons t ts =>
      rw [State.skipComments]
      split
      · next ht =>
        -- a comment in front would have been dropped
        rw [hs, List.dropWhile_cons, if_pos ht] at hrest
        have hle := (ts.dropWhile_suffix (·.kind == .comment)).length_le
        rw [hrest, List.length_cons] at hle
        omega
      · rfl

theorem skip_extends (s : State) :
    ∃ cs, AreComments cs ∧ s.skip.shapes = (comments cs).reverse ++ s.shapes := by
  have hskip : ∀ ts (s : State), s.rest = ts → ∃ cs, AreComments cs ∧
      (State.skipComments ts s).shapes = (comments cs).reverse ++ s.shapes := by
    intro ts
    induction ts with
    | nil => exact fun s _ => ⟨[], by simp [AreComments], by simp [State.skipComments, comments]⟩
    | cons t ts ih =>
        intro s hs
        rw [State.skipComments]
        split
        · next ht =>
          have hrest : (s.advance (some .comment)).rest = ts := by simp [State.advance, hs]
          obtain ⟨cs, hcs, hshapes⟩ := ih _ hrest
          refine ⟨t :: cs, List.forall_mem_cons.2 ⟨beq_iff_eq.1 ht, hcs⟩, ?_⟩
          rw [hshapes]
          simp [State.advance, hs, comments]
        · exact ⟨[], by simp [AreComments], by simp [comments]⟩
  exact hskip s.rest s rfl

variable {goals : Goal → Bool} {R : Goal → List Shape → Prop} {goal : Goal → State → Outcome}
  {bound : Nat} {s t : State}

theorem runOne_extends {kind : Option Leaf} {test : Token → Bool} (h : runOne kind test s = .ok t) :
    ∃ cs u, AreComments cs ∧ test u = true ∧
      t.shapes = (comments cs ++ [token kind u]).reverse ++ s.shapes := by
  obtain ⟨u, rest, hrest, hu, -, rfl⟩ := runOne_ok h
  obtain ⟨cs, hcs, hshapes⟩ := skip_extends s
  exact ⟨cs, u, hcs, hu, by simp [State.advance, hrest, hshapes]⟩

theorem runSemicolon_extends {operands : Bool} {ts : List Token} (hs : s.rest = ts)
    (h : runSemicolon operands ts s = .ok t) :
    Extends ((Rule.semicolon operands : Rule Goal).Writes goals R) s t := by
  induction ts generalizing s with
  | nil =>
      obtain rfl := Except.ok.inj h
      exact ⟨[], ⟨[], by simp [AreComments], Or.inl rfl⟩, rfl⟩
  | cons u ts ih =>
      rw [runSemicolon] at h
      repeat' split at h
      · obtain rfl := Except.ok.inj h
        exact ⟨[], ⟨[], by simp [AreComments], Or.inl rfl⟩, rfl⟩
      · next hu =>
        obtain rfl := Except.ok.inj h
        exact ⟨[token none u], ⟨[], by simp [AreComments], Or.inr ⟨u, hu, rfl⟩⟩,
          by simp [State.advance, hs]⟩
      · next hu =>
        have hrest : (s.advance (some .comment)).rest = ts := by simp [State.advance, hs]
        obtain ⟨ss, ⟨cs, hcs, hss⟩, hshapes⟩ := ih hrest h
        refine ⟨token (some .comment) u :: ss,
          ⟨u :: cs, List.forall_mem_cons.2 ⟨beq_iff_eq.1 hu, hcs⟩, ?_⟩, ?_⟩
        · rcases hss with rfl | ⟨v, hv, rfl⟩
          · exact Or.inl rfl
          · exact Or.inr ⟨v, hv, rfl⟩
        · rw [hshapes]
          simp [State.advance, hs]
      · cases h

theorem repeatWithin_extends {step : State → Outcome} {P : List Shape → Prop}
    (hstep : ∀ s t, step s = .ok t → Extends P s t) (fuel : Nat) (s : State) :
    Extends (fun ss => ∃ rows : List (List Shape), (∀ x ∈ rows, P x) ∧ ss = rows.flatten) s
      (repeatWithin step fuel s) := by
  induction fuel generalizing s with
  | zero => exact ⟨[], ⟨[], by simp, rfl⟩, rfl⟩
  | succ fuel ih =>
      rw [repeatWithin]
      split
      · next t ht =>
        split
        · obtain ⟨x, hx, hshapes⟩ := hstep s t ht
          obtain ⟨ss, ⟨rows, hrows, rfl⟩, hrest⟩ := ih t
          refine ⟨x ++ rows.flatten, ⟨x :: rows, List.forall_mem_cons.2 ⟨hx, hrows⟩, rfl⟩, ?_⟩
          rw [hrest, hshapes]
          simp
        · exact ⟨[], ⟨[], by simp, rfl⟩, rfl⟩
      · exact ⟨[], ⟨[], by simp, rfl⟩, rfl⟩

/-- What a rule has added is among the rows that it can write. -/
theorem writes_run (hgoal : ∀ g s t, goals g = true → goal g s = .ok t → Extends (R g) s t)
    (r : Rule Goal) (hr : r.isDirect goals = true) :
    ∀ s t, r.run goal bound s = .ok t → Extends (r.Writes goals R) s t := by
  induction r with
  | done =>
      intro s t h
      obtain rfl := Except.ok.inj h
      exact ⟨[], rfl, rfl⟩
  | signs count =>
      intro s t h
      obtain ⟨taken, rest, hrest, hne, hall, hcount, rfl⟩ := runSigns_ok h
      obtain ⟨cs, hcs, hshapes⟩ := skip_extends s
      refine ⟨_, ⟨cs, taken, rest, hcs, hne, hall, hcount, rfl⟩, ?_⟩
      rw [(State.shapes_advanceBy hrest).1, hshapes]
      simp
  | plain kind =>
      intro s t h
      obtain ⟨cs, u, hcs, hu, hshapes⟩ := runOne_extends h
      exact ⟨_, ⟨cs, u, hcs, beq_iff_eq.1 hu, rfl⟩, hshapes⟩
  | one test =>
      intro s t h
      obtain ⟨cs, u, hcs, hu, hshapes⟩ := runOne_extends h
      exact ⟨_, ⟨cs, u, hcs, hu, rfl⟩, hshapes⟩
  | leaf kind test =>
      intro s t h
      obtain ⟨cs, u, hcs, hu, hshapes⟩ := runOne_extends h
      obtain ⟨htest, hadmits⟩ := Bool.and_eq_true_iff.1 hu
      exact ⟨_, ⟨cs, u, hcs, htest, hadmits, rfl⟩, hshapes⟩
  | look spaced test =>
      intro s t h
      obtain ⟨-, rfl⟩ := run_look_ok h
      exact ⟨[], rfl, rfl⟩
  | last test => cases hr
  | blockEnd =>
      intro s t h
      obtain ⟨u, rest, hrest, hu, rfl⟩ := runBlockEnd_ok h
      obtain ⟨cs, hcs, hshapes⟩ := skip_extends s
      exact ⟨_, ⟨cs, u, hcs, hu, rfl⟩, by simp [State.advance, hrest, hshapes]⟩
  | semicolon operands => exact fun s t h => runSemicolon_extends rfl h
  | andThen a b iha ihb =>
      intro s t h
      obtain ⟨hra, hrb⟩ := Bool.and_eq_true_iff.1 hr
      obtain ⟨u, ha, hb⟩ := run_andThen_ok h
      obtain ⟨x, hx, hxs⟩ := iha hra s u ha
      obtain ⟨y, hy, hys⟩ := ihb hrb u t hb
      exact ⟨x ++ y, ⟨x, y, hx, hy, rfl⟩, by rw [hys, hxs]; simp⟩
  | orElse a b iha ihb =>
      intro s t h
      obtain ⟨hra, hrb⟩ := Bool.and_eq_true_iff.1 hr
      rcases run_orElse_ok h with ha | ⟨f, -, hb⟩
      · obtain ⟨x, hx, hxs⟩ := iha hra s t ha
        exact ⟨x, Or.inl hx, hxs⟩
      · obtain ⟨x, hx, hxs⟩ := ihb hrb _ t hb
        exact ⟨x, Or.inr hx, hxs⟩
  | many a ih =>
      intro s t h
      obtain rfl := Except.ok.inj h
      exact repeatWithin_extends (ih hr) bound s
  | node kind a ih =>
      intro s t h
      obtain ⟨u, hu, -, rfl⟩ := run_node_ok h
      obtain ⟨cs, hcs, hshapes⟩ := skip_extends s
      refine ⟨comments cs ++ [.node kind u.shapes.reverse], ⟨cs, _, hcs, fun ha => ?_, rfl⟩, ?_⟩
      · obtain ⟨x, hx, hxs⟩ := ih ha _ u hu
        rw [hxs]
        simpa using hx
      · simp [hshapes]
  | extend kind a => cases hr
  | goal g => exact fun s t h => hgoal g s t hr h

/-! ### Choices between nodes -/

/-- A rule all of whose choices are nodes, or goals that pass the test. -/
def isNode (goals : Goal → Bool) : Rule Goal → Bool
  | .orElse a b => a.isNode goals && b.isNode goals
  | .node _ _ => true
  | .goal g => goals g
  | _ => false

def OneNode (ss : List Shape) : Prop :=
  ∃ cs kind parts, AreComments cs ∧ ss = comments cs ++ [.node kind parts]

theorem extends_of_isNode
    (hgoal : ∀ g s t, goals g = true → goal g s = .ok t → Extends OneNode s t)
    (r : Rule Goal) (hr : r.isNode goals = true) :
    ∀ s t, r.run goal bound s = .ok t → Extends OneNode s t := by
  induction r with
  | orElse a b iha ihb =>
      intro s t h
      obtain ⟨ha, hb⟩ := Bool.and_eq_true_iff.1 hr
      rcases run_orElse_ok h with h | ⟨f, -, h⟩
      · exact iha ha s t h
      · exact ihb hb { s with furthest := f } t h
  | node kind a _ =>
      intro s t h
      obtain ⟨u, -, -, rfl⟩ := run_node_ok h
      obtain ⟨cs, hcs, hshapes⟩ := skip_extends s
      exact ⟨_, ⟨cs, kind, u.shapes.reverse, hcs, rfl⟩, by simp [hshapes]⟩
  | goal g => exact fun s t h => hgoal g s t hr h
  | _ => cases hr

end Rule

end Phrasebook.Source

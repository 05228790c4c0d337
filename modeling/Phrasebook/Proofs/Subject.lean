import Phrasebook.Proofs.Derivation

/-!
What accesses and calls are built around. A member access puts its own tokens behind the last shape
that was read, and a call its arguments, so that this shape must be what is accessed or called: a
leaf, a node or an element that is read on its own, and neither a sign nor a comment. Whether it is
one follows from the rules that were read before.
-/

namespace Phrasebook.Source

open Shape

/-- A word that is a value of its own: an identifier, or `this`. -/
def Lexeme.isReference (word : List Char) : Bool := word == "this".toList || !isReserved word

namespace Shape

def IsSubject : Shape → Prop
  | token none t => t.kind.isNested .element = true
  | token (some kind) t => kind ≠ .comment ∧ (∀ role index, t.kind ≠ .nested role index) ∧
      (kind = .name → Lexeme.isReference t.text = true)
  | run _ => False
  | node _ _ => True

theorem isSubject_of_kind {leaf : Leaf} {kind : TokenKind} {t : Token} (h : t.kind = kind)
    (hleaf : leaf ≠ .comment ∧ leaf ≠ .name) (hkind : ∀ role index, kind ≠ .nested role index) :
    (token (some leaf) t).IsSubject :=
  ⟨hleaf.1, fun role index hk => hkind role index (h.symm.trans hk),
    fun hname => absurd hname hleaf.2⟩

theorem isSubject_word {leaf : Leaf} {t : Token} (hleaf : leaf ≠ .comment) (h : t.kind = .word)
    (href : leaf = .name → Lexeme.isReference t.text = true) : (token (some leaf) t).IsSubject :=
  ⟨hleaf, fun role index hk => by simp [h] at hk, href⟩

end Shape

def State.EndsInSubject (s : State) : Prop := ∃ x outer, s.shapes = x :: outer ∧ x.IsSubject

def Goal.isSubject : Goal → Bool
  | .primary | .template | .object | .functionExpression | .classExpression => true
  | _ => false

namespace Rule

/-- Whether what was read last is a subject after a rule, given whether it is one before. -/
def LeavesSubject : Rule Goal → Prop → Prop
  | .done, before | .look _ _, before | .last _, before => before
  | .one test, _ => ∀ t, test t = true → (token none t).IsSubject
  | .leaf kind test, _ => ∀ t, test t = true → kind.admits t = true →
      (token (some kind) t).IsSubject
  | .andThen a b, before => b.LeavesSubject (a.LeavesSubject before)
  | .orElse a b, before => a.LeavesSubject before ∧ b.LeavesSubject before
  | .many a, before => before ∧ a.LeavesSubject True
  | .node _ _, _ | .extend _ _, _ => True
  | .goal g, _ => g.isSubject = true
  | .signs _, _ | .plain _, _ | .blockEnd, _ | .semicolon _, _ => False

variable {goal : Goal → State → Outcome} {bound : Nat} {s t : State}

/-- What each repetition keeps, all of them keep. -/
theorem repeatWithin_keeps {step : State → Outcome} {I : State → Prop}
    (hstep : ∀ s t, I s → step s = .ok t → I t)
    (hfurthest : ∀ (s : State) f, I s → I { s with furthest := f }) (fuel : Nat) (hs : I s) :
    I (repeatWithin step fuel s) := by
  induction fuel generalizing s with
  | zero => exact hs
  | succ fuel ih =>
      unfold repeatWithin
      split
      · next t ht =>
        split
        · exact ih (hstep s t hs ht)
        · exact hs
      · exact hfurthest s _ hs

theorem endsInSubject_runOne {kind : Option Leaf} {test : Token → Bool}
    (htest : ∀ u, test u = true → (token kind u).IsSubject) (h : runOne kind test s = .ok t) :
    t.EndsInSubject := by
  obtain ⟨u, rest, hrest, hu, -, rfl⟩ := runOne_ok h
  exact ⟨token kind u, s.skip.shapes, by simp [State.advance, hrest], htest u hu⟩

theorem endsInSubject_run
    (hgoal : ∀ (g : Goal) s t, g.isSubject = true → goal g s = .ok t → t.EndsInSubject)
    (r : Rule Goal) (before : Prop) (hr : r.LeavesSubject before) :
    ∀ s t, (before → s.EndsInSubject) → r.run goal bound s = .ok t → t.EndsInSubject := by
  induction r generalizing before with
  | done =>
      intro s t hs h
      obtain rfl := Except.ok.inj h
      exact hs hr
  | look spaced test =>
      intro s t hs h
      obtain ⟨-, rfl⟩ := run_look_ok h
      exact hs hr
  | last test =>
      intro s t hs h
      rw [run] at h
      repeat' split at h
      · obtain rfl := Except.ok.inj h
        exact hs hr
      · cases h
      · cases h
  | one test => exact fun s t _ h => endsInSubject_runOne hr h
  | leaf kind test =>
      intro s t _ h
      refine endsInSubject_runOne (fun u hu => ?_) h
      obtain ⟨htest, hadmits⟩ := Bool.and_eq_true_iff.1 hu
      exact hr u htest hadmits
  | andThen a b iha ihb =>
      intro s t hs h
      obtain ⟨u, ha, hb⟩ := run_andThen_ok h
      exact ihb _ hr u t (fun hleaves => iha before hleaves s u hs ha) hb
  | orElse a b iha ihb =>
      intro s t hs h
      rcases run_orElse_ok h with ha | ⟨f, -, hb⟩
      · exact iha before hr.1 s t hs ha
      · exact ihb before hr.2 { s with furthest := f } t hs hb
  | many a ih =>
      intro s t hs h
      obtain rfl := Except.ok.inj h
      exact repeatWithin_keeps (fun u v hu => ih True hr.2 u v fun _ => hu) (fun _ _ hu => hu) _
        (hs hr.1)
  | node kind a ih =>
      intro s t _ h
      obtain ⟨u, -, -, rfl⟩ := run_node_ok h
      exact ⟨_, _, rfl, trivial⟩
  | extend kind a ih =>
      intro s t _ h
      obtain ⟨shape, outer, u, -, -, -, rfl⟩ := run_extend_ok h
      exact ⟨_, _, rfl, trivial⟩
  | goal g => exact fun s t _ h => hgoal g s t hr h
  | signs | plain | blockEnd | semicolon => exact hr.elim

end Rule

/-! ### Member accesses -/

/-- Signs that spell a text, without white space between them. -/
structure AreSigns (m : String) (ts : List Token) : Prop where
  kind : ∀ t ∈ ts, t.kind = .sign
  length_eq : ts.length = m.toList.length
  begins : ∃ more, m.toList <+: signs (ts ++ more)

namespace Shape

def IsProperty : Shape → Prop
  | token (some .property) t => t.kind = .word
  | token (some .privateName) t => t.kind = .privateWord
  | _ => False

/-- The parts of a member access: what is accessed, a dot or a question mark and a dot, and a name,
with comments between them. -/
def IsMember (parts : List Shape) : Prop :=
  ∃ subject before dots after name,
    parts = subject :: comments before ++ dots.map (token none) ++ comments after ++ [name] ∧
      subject.IsSubject ∧ AreComments before ∧ (AreSigns "." dots ∨ AreSigns "?." dots) ∧
      AreComments after ∧ name.IsProperty

end Shape

namespace Rule

variable {goals : Goal → Bool} {R : Goal → List Shape → Prop} {goal : Goal → State → Outcome}
  {bound : Nat} {s t : State} {ss : List Shape}

/-- A rule for signs takes a text, or nothing. -/
def Takes (m : String) (count : List Char → Nat) : Prop :=
  ∀ cs, count cs ≠ 0 → count cs = m.toList.length ∧ m.toList <+: cs

theorem takes_mark (m : String) :
    Takes m fun cs => if m.toList.isPrefixOf cs then m.toList.length else 0 := by
  intro cs hcount
  by_cases hbegins : m.toList.isPrefixOf cs = true
  · exact ⟨if_pos hbegins, List.isPrefixOf_iff_prefix.1 hbegins⟩
  · exact absurd (if_neg hbegins) hcount

theorem takes_operator (m : String) : Takes m fun cs =>
    match Lexeme.operator? cs with
    | some o => if [m].contains o then o.toList.length else 0
    | none => 0 := by
  intro cs hcount
  cases ho : Lexeme.operator? cs with
  | none => simp [ho] at hcount
  | some o =>
      have hbegins : o.toList.isPrefixOf cs = true := by
        rw [Lexeme.operator?, List.find?_eq_some_iff_append] at ho
        exact ho.1
      simp only [ho] at hcount ⊢
      by_cases hm : [m].contains o = true
      · obtain rfl : o = m := by simpa using hm
        exact ⟨if_pos hm, List.isPrefixOf_iff_prefix.1 hbegins⟩
      · exact absurd (if_neg hm) hcount

theorem writes_signs {m : String} {count : List Char → Nat} (hcount : Takes m count)
    (h : (Rule.signs count : Rule Goal).Writes goals R ss) :
    ∃ cs ts, AreComments cs ∧ AreSigns m ts ∧ ss = comments cs ++ ts.map (token none) := by
  obtain ⟨cs, ts, more, hcs, hne, hall, hlength, rfl⟩ := h
  obtain ⟨hm, hbegins⟩ := hcount _ (hlength ▸ fun hzero => hne (List.length_eq_zero_iff.1 hzero))
  exact ⟨cs, ts, hcs, ⟨hall, hlength.symm.trans hm, more, hbegins⟩, rfl⟩

theorem writes_memberName (h : Goal.memberName.Writes goals R ss) :
    ∃ cs name, AreComments cs ∧ name.IsProperty ∧ ss = comments cs ++ [name] := by
  rcases h with ⟨cs, u, hcs, hu, -, rfl⟩ | ⟨cs, u, hcs, -, hu, rfl⟩
  · exact ⟨cs, token (some .property) u, hcs, beq_iff_eq.1 hu, rfl⟩
  · exact ⟨cs, token (some .privateName) u, hcs, beq_iff_eq.1 hu, rfl⟩

def IsMemberRule (a : Rule Goal) : Prop :=
  a = all [mark ".", Goal.memberName] ∨ a = all [operator "?.", Goal.memberName]

theorem isMember_of_run {a : Rule Goal} (ha : a.IsMemberRule) {subject : Shape}
    (hsubject : subject.IsSubject) (hs : s.shapes = [subject]) (h : a.run goal bound s = .ok t) :
    IsMember t.shapes.reverse := by
  obtain ⟨x, dots, y, hdots, hx, hy, ht⟩ : ∃ x dots y, (AreSigns "." dots ∨ AreSigns "?." dots) ∧
      (∃ cs, AreComments cs ∧ x = comments cs ++ dots.map (token none)) ∧
      (∃ cs name, AreComments cs ∧ name.IsProperty ∧ y = comments cs ++ [name]) ∧
      t.shapes = (x ++ y).reverse ++ s.shapes := by
    have hwrites : ∀ r : Rule Goal, r.isDirect (fun _ => false) = true →
        r.run goal bound s = .ok t → Extends (r.Writes (fun _ => false) fun _ _ => False) s t :=
      fun r hr h => writes_run (fun _ _ _ hg => by cases hg) r hr s t h
    rcases ha with rfl | rfl
    · obtain ⟨_, ⟨x, y, hx, hy, rfl⟩, ht⟩ := hwrites _ rfl h
      obtain ⟨cs, dots, hcs, hdots, rfl⟩ := writes_signs (takes_mark ".") hx
      exact ⟨_, dots, y, Or.inl hdots, ⟨cs, hcs, rfl⟩, writes_memberName hy, ht⟩
    · obtain ⟨_, ⟨x, y, hx, hy, rfl⟩, ht⟩ := hwrites _ rfl h
      obtain ⟨cs, dots, hcs, hdots, rfl⟩ := writes_signs (takes_operator "?.") hx
      exact ⟨_, dots, y, Or.inr hdots, ⟨cs, hcs, rfl⟩, writes_memberName hy, ht⟩
  obtain ⟨before, hbefore, rfl⟩ := hx
  obtain ⟨after, name, hafter, hname, rfl⟩ := hy
  refine ⟨subject, before, dots, after, name, ?_, hsubject, hbefore, hdots, hafter, hname⟩
  rw [ht, hs]
  simp

end Rule

/-! ### Operands of the grammar -/

theorem isReference_of_isIdentifier {t : Token} (h : Goal.isIdentifier t = true) :
    t.kind = .word ∧ Lexeme.isReference t.text = true := by
  obtain ⟨hkind, hreserved⟩ := Bool.and_eq_true_iff.1 h
  exact ⟨beq_iff_eq.1 hkind, by rw [Lexeme.isReference, hreserved, Bool.or_true]⟩

theorem leavesSubject_identifier (before : Prop) : Goal.identifier.LeavesSubject before := by
  intro t ht _
  obtain ⟨hkind, href⟩ := isReference_of_isIdentifier ht
  exact isSubject_word (by simp) hkind fun _ => href

theorem leavesSubject_this (before : Prop) : (Goal.wordAs .name "this").LeavesSubject before := by
  intro t ht _
  obtain ⟨hkind, htext⟩ := Bool.and_eq_true_iff.1 ht
  exact isSubject_word (by simp) (beq_iff_eq.1 hkind) fun _ => by
    rw [Lexeme.isReference, htext, Bool.true_or]

theorem leavesSubject_word (word : String) (before : Prop) :
    (Goal.wordAs .other word).LeavesSubject before := by
  intro t ht _
  exact isSubject_of_kind (beq_iff_eq.1 (Bool.and_eq_true_iff.1 ht).1) (by simp) (by simp)

theorem leavesSubject_usage (before : Prop) : Goal.usage.LeavesSubject before :=
  ⟨leavesSubject_word _ _, leavesSubject_identifier _⟩

theorem leavesSubject_primary (before : Prop) : Grammar.primary.LeavesSubject before := by
  have hkind : ∀ kind : TokenKind, (∀ role index, kind ≠ .nested role index) →
      (Rule.leaf .other fun t => t.kind == kind).LeavesSubject before := by
    intro kind hkind t ht _
    exact isSubject_of_kind (beq_iff_eq.1 ht) (by simp) hkind
  refine ⟨?_, rfl, hkind _ (by simp), hkind _ (by simp), trivial, trivial, rfl, rfl, rfl,
    ⟨trivial, trivial⟩, ⟨trivial, leavesSubject_word "import" before⟩,
    leavesSubject_this before, ?_, ?_, ?_, leavesSubject_usage before⟩
  · exact fun t _ ht => isSubject_of_kind (beq_iff_eq.1 ht) (by simp) (by simp)
  · intro t ht _
    obtain ⟨word, -, hword⟩ := List.any_eq_true.1 ht
    exact isSubject_of_kind (beq_iff_eq.1 (Bool.and_eq_true_iff.1 hword).1) (by simp) (by simp)
  · exact fun t _ ht => isSubject_of_kind (beq_iff_eq.1 ht) (by simp) (by simp)
  · exact fun t ht => ht

theorem endsInSubject_read {dialect : Dialect} (fuel : Nat) :
    ∀ (g : Goal) s t, g.isSubject = true → read (grammar dialect) fuel g s = .ok t →
      t.EndsInSubject := by
  induction fuel with
  | zero => intro g s t _ h; cases h
  | succ fuel ih =>
      intro g s t hg h
      have hleaves : (grammar dialect g).LeavesSubject False := by
        cases g with
        | primary => exact leavesSubject_primary _
        | template | object | functionExpression | classExpression => trivial
        | _ => cases hg
      exact Rule.endsInSubject_run ih _ False hleaves s t False.elim h

end Phrasebook.Source

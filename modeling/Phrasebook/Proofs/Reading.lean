import Phrasebook.Source.Grammar

/-!
What reading by a grammar does, nearly whatever the grammar says. The tokens of the shapes read so
far and the tokens left are always the tokens there were; a leaf is made of a token that it can be
made of; and only few constructs are asked what they are made of. Rules are taken apart by one
lemma for each way to build them.
-/

namespace Phrasebook.Source

namespace Shape

@[simp] theorem tokens_token (kind : Option Leaf) (t : Token) : (token kind t).tokens = [t] := by
  simp [tokens]

@[simp] theorem tokens_run (t : Token) : (run t).tokens = [t] := by simp [tokens]

@[simp] theorem tokens_node (kind : Construct) (parts : List Shape) :
    (node kind parts).tokens = tokensAll parts := by simp [tokens]

@[simp] theorem tokensAll_nil : tokensAll [] = [] := by simp [tokensAll]

@[simp] theorem tokensAll_cons (s : Shape) (ss : List Shape) :
    tokensAll (s :: ss) = s.tokens ++ tokensAll ss := by simp [tokensAll]

theorem mem_tokensAll {ss : List Shape} {t : Token} :
    t ∈ tokensAll ss ↔ ∃ s ∈ ss, t ∈ s.tokens := by
  induction ss with
  | nil => simp
  | cons s ss ih => simp [ih]

@[simp] theorem tokensAll_append (a b : List Shape) :
    tokensAll (a ++ b) = tokensAll a ++ tokensAll b := by
  induction a with
  | nil => simp
  | cons s a ih => simp [ih]

/-- A leaf that code itself can have: the value of an attribute is a part of its own. -/
def isCodeLeaf (kind : Option Leaf) : Bool := kind != some (.string .attribute)

/-- A sign, a comment, characters of a template, or a node that passes the test. -/
def isPart (test : Construct → Bool) : Shape → Bool
  | token none t => t.kind == .sign
  | token (some .chunk) t => t.kind == .chunk
  | token (some .comment) t => t.kind == .comment
  | token _ _ => false
  | node kind _ => test kind
  | run _ => false

def isSpecifierKind : Construct → Bool
  | .importSpecifier _ => true
  | _ => false

def BeginsWith (kind : TokenKind) (ts : List Token) : Prop :=
  ∃ t rest, ts = t :: rest ∧ t.kind = kind

/-- The first token is a sign, and of the given character unless it is empty. -/
def OpensWith (c : Char) (ts : List Token) : Prop :=
  ∃ t rest, ts = t :: rest ∧ t.kind = .sign ∧ ∀ d ∈ t.text.head?, d = c

/-- What the parts of a construct are, where that matters: a template and a list of imports hold
nothing but their own parts, a template begins with a back quote, and an import at the top of a file
with that word. -/
def Made : Construct → List Shape → Prop
  | .template, parts =>
      OpensWith '\x60' (tokensAll parts) ∧ ∀ p ∈ parts, p.isPart (· == .substitution) = true
  | .namedImports, parts => ∀ p ∈ parts, p.isPart isSpecifierKind = true
  | .importDeclaration _, parts => BeginsWith .importWord (tokensAll parts)
  | _, _ => True

/-- A shape without runs of element text and values of attributes, and without an empty node. -/
inductive IsCode : Shape → Prop
  | token {kind : Option Leaf} (leaf : isCodeLeaf kind = true) (t : Token)
      (admitted : ∀ k ∈ kind, k.admits t = true) : IsCode (token kind t)
  | node {kind : Construct} {parts : List Shape} (made : Made kind parts)
      (visible : tokensAll parts ≠ []) (inner : ∀ s ∈ parts, IsCode s) : IsCode (node kind parts)

end Shape

open Shape

namespace State

def tokens (s : State) : List Token := tokensAll s.shapes.reverse ++ s.rest

/-- Going from one state to another loses no token, and adds code only. -/
structure Keeps (s t : State) : Prop where
  tokens_eq : t.tokens = s.tokens
  read_add : t.read + t.rest.length = s.read + s.rest.length
  code : (∀ x ∈ s.shapes, x.IsCode) → ∀ x ∈ t.shapes, x.IsCode

theorem Keeps.refl (s : State) : s.Keeps s := ⟨rfl, rfl, id⟩

theorem Keeps.trans {s t u : State} (h : s.Keeps t) (k : t.Keeps u) : s.Keeps u :=
  ⟨k.tokens_eq.trans h.tokens_eq, k.read_add.trans h.read_add, fun hs => k.code (h.code hs)⟩

theorem keeps_advance (s : State) {kind : Option Leaf} (hkind : isCodeLeaf kind = true)
    (hadmits : ∀ t ∈ s.rest.head?, ∀ k ∈ kind, k.admits t = true) :
    s.Keeps (s.advance kind) := by
  unfold advance
  split
  · next t rest h =>
    refine ⟨by simp [tokens, h], by simp [h, Nat.add_assoc, Nat.add_comm 1], fun hs => ?_⟩
    exact List.forall_mem_cons.2 ⟨.token hkind t (hadmits t (by simp [h])), hs⟩
  · exact .refl s

theorem keeps_advance_none (s : State) : s.Keeps (s.advance none) :=
  keeps_advance s rfl (by simp)

theorem keeps_advanceBy (n : Nat) (s : State) : s.Keeps (advanceBy n s) := by
  induction n generalizing s with
  | zero => exact .refl s
  | succ n ih => exact (keeps_advance_none s).trans (ih _)

theorem keeps_advance_comment {s : State} {t : Token} {ts : List Token} (hs : s.rest = t :: ts)
    (ht : (t.kind == .comment) = true) :
    s.Keeps (s.advance (some .comment)) ∧ (s.advance (some .comment)).rest = ts := by
  refine ⟨keeps_advance s rfl ?_, by simp [advance, hs]⟩
  intro u hu k hk
  obtain rfl : t = u := by simpa [hs] using hu
  obtain rfl : Leaf.comment = k := by simpa using hk
  exact ht

theorem keeps_skipComments {ts : List Token} {s : State} (hs : s.rest = ts) :
    s.Keeps (skipComments ts s) := by
  induction ts generalizing s with
  | nil => exact .refl s
  | cons t ts ih =>
      unfold skipComments
      split
      · next ht =>
        obtain ⟨hkeeps, hrest⟩ := keeps_advance_comment hs ht
        exact hkeeps.trans (ih hrest)
      · exact .refl s

theorem keeps_skip (s : State) : s.Keeps s.skip := keeps_skipComments rfl

theorem rest_skipComments {ts : List Token} {s : State} (hs : s.rest = ts) :
    (skipComments ts s).rest = ts.dropWhile (·.kind == .comment) := by
  induction ts generalizing s with
  | nil => exact hs
  | cons t ts ih =>
      unfold skipComments
      by_cases ht : (t.kind == .comment) = true
      · rw [if_pos ht, ih (keeps_advance_comment hs ht).2, List.dropWhile_cons, if_pos ht]
      · rw [if_neg ht, hs, List.dropWhile_cons, if_neg ht]

theorem rest_skip (s : State) : s.skip.rest = s.rest.dropWhile (·.kind == .comment) :=
  rest_skipComments rfl

/-- What comes after comments is no comment. -/
theorem rest_skip_eq {s t : State} (h : t.rest = s.skip.rest) : t.skip.rest = t.rest := by
  rw [rest_skip, h, rest_skip]
  generalize s.rest = ts
  induction ts with
  | nil => rfl
  | cons u ts ih =>
      by_cases hu : (u.kind == .comment) = true
      · rw [List.dropWhile_cons, if_pos hu, ih]
      · rw [List.dropWhile_cons, if_neg hu, List.dropWhile_cons, if_neg hu]

/-- Where a construct begins to be read: no comment comes next, and nothing is read yet. -/
structure IsFresh (s : State) : Prop where
  shapes : s.shapes = []
  rest : s.skip.rest = s.rest

theorem shapes_advanceBy {taken rest : List Token} {s : State} (h : s.rest = taken ++ rest) :
    (advanceBy taken.length s).shapes = (taken.map (token none)).reverse ++ s.shapes ∧
      (advanceBy taken.length s).rest = rest := by
  induction taken generalizing s with
  | nil => exact ⟨rfl, h⟩
  | cons t taken ih =>
      have hrest : (s.advance none).rest = taken ++ rest := by simp [advance, h]
      obtain ⟨hshapes, hend⟩ := ih hrest
      refine ⟨?_, hend⟩
      rw [List.length_cons, advanceBy, hshapes]
      simp [advance, h]

end State

namespace Rule

variable {Goal : Type}

/-! ### Taking rules apart -/

section

variable {goal : Goal → State → Outcome} {bound : Nat} {a b : Rule Goal} {s t : State}

theorem run_andThen_ok (h : (andThen a b).run goal bound s = .ok t) :
    ∃ u, a.run goal bound s = .ok u ∧ b.run goal bound u = .ok t := by
  rw [run] at h
  split at h
  · next u hu => exact ⟨u, hu, h⟩
  · cases h

theorem run_orElse_ok (h : (orElse a b).run goal bound s = .ok t) :
    a.run goal bound s = .ok t ∨
      ∃ f, a.run goal bound s = .error f ∧
        b.run goal bound { s with furthest := f } = .ok t := by
  rw [run] at h
  split at h
  · next u hu => exact Or.inl (hu.trans h)
  · next f hf => exact Or.inr ⟨f, hf, h⟩

theorem close_ok {kind : Construct} {outer : List Shape} {start : Nat}
    (h : close kind outer start s = .ok t) :
    start < s.read ∧ t = { s with shapes := .node kind s.shapes.reverse :: outer } := by
  unfold close at h
  split at h
  · next hr => exact ⟨hr, (Except.ok.inj h).symm⟩
  · cases h

theorem run_node_ok {kind : Construct} (h : (node kind a).run goal bound s = .ok t) :
    ∃ u, a.run goal bound { s.skip with shapes := [] } = .ok u ∧ s.skip.read < u.read ∧
      t = { u with shapes := .node kind u.shapes.reverse :: s.skip.shapes } := by
  rw [run] at h
  split at h
  · next u hu => exact ⟨u, hu, close_ok h⟩
  · cases h

theorem run_extend_ok {kind : Construct} (h : (extend kind a).run goal bound s = .ok t) :
    ∃ shape outer u, s.shapes = shape :: outer ∧
      a.run goal bound { s with shapes := [shape] } = .ok u ∧ s.read < u.read ∧
      t = { u with shapes := .node kind u.shapes.reverse :: outer } := by
  rw [run] at h
  split at h
  · next shape outer hs =>
    split at h
    · next u hu => exact ⟨shape, outer, u, hs, hu, close_ok h⟩
    · cases h
  · cases h

theorem run_look_ok {spaced : Bool} {test : List Token → Bool}
    (h : (look spaced test).run goal bound s = .ok t) :
    test (if spaced then s.skip else s).rest = true ∧ t = s := by
  by_cases ht : test (if spaced then s.skip else s).rest = true
  · exact ⟨ht, by simpa [run, ht] using h.symm⟩
  · simp [run, ht] at h

theorem runSigns_ok {count : List Char → Nat} (h : runSigns count s = .ok t) :
    ∃ taken rest, s.skip.rest = taken ++ rest ∧ taken ≠ [] ∧ (∀ u ∈ taken, u.kind = .sign) ∧
      count (Source.signs (taken ++ rest)) = taken.length ∧
      t = State.advanceBy taken.length s.skip := by
  simp only [runSigns] at h
  split at h
  · cases h
  · next hn =>
    simp only [Bool.or_eq_true, beq_iff_eq, decide_eq_true_eq, Bool.not_eq_true', not_or,
      Bool.not_eq_false, List.all_eq_true] at hn
    obtain ⟨⟨hzero, hlength⟩, hall⟩ := hn
    have htaken := Nat.le_antisymm
      (List.length_take_le (count (Source.signs s.skip.rest)) s.skip.rest)
      (Nat.le_of_not_lt hlength)
    refine ⟨_, _, (List.take_append_drop _ _).symm, ?_, hall, ?_, ?_⟩
    · intro hnil
      rw [hnil] at hlength
      exact hlength (Nat.pos_of_ne_zero hzero)
    · rw [htaken, List.take_append_drop]
    · rw [htaken]
      exact (Except.ok.inj h).symm

theorem count_ne_zero_of_runSigns {count : List Char → Nat} (h : runSigns count s = .ok t) :
    count (Source.signs s.skip.rest) ≠ 0 := by
  intro hzero
  simp [runSigns, hzero] at h

theorem runOne_ok {kind : Option Leaf} {test : Token → Bool} (h : runOne kind test s = .ok t) :
    ∃ u rest, s.skip.rest = u :: rest ∧ test u = true ∧ isEnd u = false ∧
      t = s.skip.advance kind := by
  simp only [runOne] at h
  split at h
  · next hhead =>
    cases hr : s.skip.rest with
    | nil => simp [hr] at hhead
    | cons u rest =>
        simp only [hr, List.head?_cons, Option.any_some, Bool.and_eq_true,
          Bool.not_eq_true'] at hhead
        exact ⟨u, rest, rfl, hhead.1, hhead.2, (Except.ok.inj h).symm⟩
  · cases h

theorem runBlockEnd_ok (h : runBlockEnd s = .ok t) :
    ∃ u rest, s.skip.rest = u :: rest ∧ u.closesBrace = true ∧ t = s.skip.advance none := by
  simp only [runBlockEnd] at h
  split at h
  · cases h
  · split at h
    · next hhead =>
      cases hr : s.skip.rest with
      | nil => simp [hr] at hhead
      | cons u rest => exact ⟨u, rest, rfl, by simpa [hr] using hhead, (Except.ok.inj h).symm⟩
    · cases h

end

/-! ### Nothing is lost -/

/-- A rule all of whose shapes are parts in the sense of the test. -/
def adds (test : Construct → Bool) : Rule Goal → Bool
  | .done | .signs _ | .look _ _ | .last _ => true
  | .leaf kind _ => kind == .chunk
  | .andThen a b | .orElse a b => a.adds test && b.adds test
  | .many a => a.adds test
  | .node kind _ => test kind
  | _ => false

def beginsWith (kind : TokenKind) : Rule Goal → Bool
  | .plain k => k == kind
  | .andThen a _ => a.beginsWith kind
  | _ => false

/-- A rule that begins with signs, the first of them the given one. -/
def Opens (c : Char) : Rule Goal → Prop
  | .signs count => ∀ cs, count cs ≠ 0 → cs.head? = some c
  | .andThen a _ => a.Opens c
  | _ => False

/-- A rule that reads templates from their back quote on. -/
def Quotes : Rule Goal → Prop
  | .andThen a b | .orElse a b => a.Quotes ∧ b.Quotes
  | .many a | .extend _ a => a.Quotes
  | .node kind a => (kind = .template → a.Opens '\x60') ∧ a.Quotes
  | _ => True

def isUnquoted : Rule Goal → Bool
  | .andThen a b | .orElse a b => a.isUnquoted && b.isUnquoted
  | .many a | .extend _ a => a.isUnquoted
  | .node kind a => kind != .template && a.isUnquoted
  | _ => true

theorem quotes_of_isUnquoted (r : Rule Goal) (h : r.isUnquoted = true) : r.Quotes := by
  induction r with
  | andThen a b iha ihb | orElse a b iha ihb =>
      obtain ⟨ha, hb⟩ := Bool.and_eq_true_iff.1 h
      exact ⟨iha ha, ihb hb⟩
  | many a ih | extend kind a ih => exact ih h
  | node kind a ih =>
      obtain ⟨hkind, ha⟩ := Bool.and_eq_true_iff.1 h
      exact ⟨fun htemplate => absurd htemplate (bne_iff_ne.1 hkind), ih ha⟩
  | _ => trivial

def makes : Construct → Rule Goal → Bool
  | .template, r => r.adds (· == .substitution)
  | .namedImports, r => r.adds isSpecifierKind
  | .importDeclaration _, r => r.beginsWith .importWord
  | _, _ => true

/-- A construct around a shape that has been read already. -/
def mayExtend : Construct → Bool
  | .template | .namedImports | .importDeclaration _ => false
  | _ => true

/-- A rule with leaves of code only, whose constructs are made of what they should be. -/
def isCode : Rule Goal → Bool
  | .leaf kind _ => isCodeLeaf (some kind)
  | .andThen a b | .orElse a b => a.isCode && b.isCode
  | .many a => a.isCode
  | .node kind a => makes kind a && a.isCode
  | .extend kind a => mayExtend kind && a.isCode
  | _ => true

theorem keeps_runSigns {count : List Char → Nat} {s t : State} (h : runSigns count s = .ok t) :
    s.Keeps t := by
  obtain ⟨taken, rest, -, -, -, -, rfl⟩ := runSigns_ok h
  exact s.keeps_skip.trans (State.keeps_advanceBy _ _)

theorem keeps_runOne {kind : Option Leaf} (hkind : isCodeLeaf kind = true) {test : Token → Bool}
    (htest : ∀ u, test u = true → ∀ k ∈ kind, k.admits u = true) {s t : State}
    (h : runOne kind test s = .ok t) : s.Keeps t := by
  obtain ⟨u, rest, hrest, hu, -, rfl⟩ := runOne_ok h
  refine s.keeps_skip.trans (State.keeps_advance _ hkind ?_)
  intro v hv
  obtain rfl : u = v := by simpa [hrest] using hv
  exact htest u hu

theorem keeps_runBlockEnd {s t : State} (h : runBlockEnd s = .ok t) : s.Keeps t := by
  obtain ⟨u, rest, -, -, rfl⟩ := runBlockEnd_ok h
  exact s.keeps_skip.trans (State.keeps_advance_none _)

theorem keeps_runSemicolon {operands : Bool} {ts : List Token} {s t : State}
    (hs : s.rest = ts) (h : runSemicolon operands ts s = .ok t) : s.Keeps t := by
  induction ts generalizing s with
  | nil =>
      obtain rfl := Except.ok.inj h
      exact .refl s
  | cons u ts ih =>
      unfold runSemicolon at h
      repeat' split at h
      · obtain rfl := Except.ok.inj h
        exact .refl s
      · obtain rfl := Except.ok.inj h
        exact s.keeps_advance_none
      · next hcomment =>
        obtain ⟨hkeeps, hrest⟩ := State.keeps_advance_comment hs hcomment
        exact hkeeps.trans (ih hrest h)
      · cases h

theorem keeps_repeatWithin {step : State → Outcome}
    (hstep : ∀ s t, step s = .ok t → s.Keeps t) (fuel : Nat) (s : State) :
    s.Keeps (repeatWithin step fuel s) := by
  induction fuel generalizing s with
  | zero => exact .refl s
  | succ fuel ih =>
      unfold repeatWithin
      split
      · next t ht =>
        split
        · exact (hstep s t ht).trans (ih t)
        · exact .refl s
      · exact ⟨rfl, rfl, id⟩

/-- A node around what has been read on its own. -/
theorem keeps_node {kind : Construct} {s u : State} (hmade : Made kind u.shapes.reverse)
    (inner : List Shape) {outer : List Shape} (hs : s.shapes = inner.reverse ++ outer)
    (h : State.Keeps { s with shapes := inner.reverse } u) (hread : s.read < u.read) :
    s.Keeps { u with shapes := .node kind u.shapes.reverse :: outer } := by
  have ht := h.tokens_eq
  simp only [State.tokens, List.reverse_reverse] at ht
  refine ⟨?_, h.read_add, fun hcode => ?_⟩
  · simp [State.tokens, hs, ht]
  · rw [hs] at hcode
    have hin := h.code fun x hx => hcode x (List.mem_append_left _ hx)
    refine List.forall_mem_cons.2
      ⟨.node hmade (fun hnil => ?_) ?_, fun x hx => hcode x (List.mem_append_right _ hx)⟩
    · -- something has been read, so that fewer tokens are left
      have hadd : u.read + u.rest.length = s.read + s.rest.length := h.read_add
      have hlength := congrArg List.length ht
      rw [hnil, List.length_append, List.length_append, List.length_nil] at hlength
      omega
    · simpa using hin

/-! ### Going forward -/

/-- Tokens have been taken off the front, and no end among them. -/
def Forward (s t : State) : Prop :=
  ∃ taken, s.rest = taken ++ t.rest ∧ ∀ u ∈ taken, isEnd u = false

theorem Forward.refl (s : State) : Forward s s := ⟨[], rfl, by simp⟩

theorem Forward.trans {s t u : State} (h : Forward s t) (k : Forward t u) : Forward s u := by
  obtain ⟨first, hfirst, hs⟩ := h
  obtain ⟨second, hsecond, ht⟩ := k
  refine ⟨first ++ second, by simp [hfirst, hsecond], ?_⟩
  intro v hv
  exact (List.mem_append.1 hv).elim (hs v) (ht v)

theorem forward_advance (kind : Option Leaf) {s : State} {u : Token} {rest : List Token}
    (hrest : s.rest = u :: rest) (hu : isEnd u = false) : Forward s (s.advance kind) :=
  ⟨[u], by simp [State.advance, hrest], by simpa using hu⟩

theorem isEnd_of_kind {u : Token} {kind : TokenKind} (h : u.kind = kind)
    (hstop : kind ≠ .stop) (hborder : kind ≠ .border) : isEnd u = false := by
  simp [isEnd, h, hstop, hborder]

theorem forward_skipComments {ts : List Token} {s : State} (hs : s.rest = ts) :
    Forward s (State.skipComments ts s) := by
  induction ts generalizing s with
  | nil => exact .refl s
  | cons t ts ih =>
      unfold State.skipComments
      split
      · next ht =>
        have hend := isEnd_of_kind (beq_iff_eq.1 ht) (by simp) (by simp)
        exact (forward_advance _ hs hend).trans (ih (State.keeps_advance_comment hs ht).2)
      · exact .refl s

theorem forward_skip (s : State) : Forward s s.skip := forward_skipComments rfl

theorem forward_runOne {kind : Option Leaf} {test : Token → Bool} {s t : State}
    (h : runOne kind test s = .ok t) : Forward s t := by
  obtain ⟨u, rest, hrest, -, hend, rfl⟩ := runOne_ok h
  exact (forward_skip s).trans (forward_advance _ hrest hend)

theorem forward_runSigns {count : List Char → Nat} {s t : State} (h : runSigns count s = .ok t) :
    Forward s t := by
  obtain ⟨taken, rest, hrest, -, hall, -, rfl⟩ := runSigns_ok h
  refine (forward_skip s).trans ⟨taken, by rw [(State.shapes_advanceBy hrest).2, hrest], ?_⟩
  exact fun u hu => isEnd_of_kind (hall u hu) (by simp) (by simp)

theorem forward_runBlockEnd {s t : State} (h : runBlockEnd s = .ok t) : Forward s t := by
  obtain ⟨u, rest, hrest, hu, rfl⟩ := runBlockEnd_ok h
  simp only [Token.closesBrace, Token.isSign, Bool.or_eq_true, Bool.and_eq_true, beq_iff_eq] at hu
  refine (forward_skip s).trans (forward_advance _ hrest ?_)
  obtain hu | hu := hu
  · exact isEnd_of_kind hu.1 (by simp) (by simp)
  · exact isEnd_of_kind hu (by simp) (by simp)

theorem forward_runSemicolon {operands : Bool} {ts : List Token} {s t : State} (hs : s.rest = ts)
    (h : runSemicolon operands ts s = .ok t) : Forward s t := by
  induction ts generalizing s with
  | nil =>
      obtain rfl := Except.ok.inj h
      exact .refl s
  | cons u ts ih =>
      unfold runSemicolon at h
      repeat' split at h
      · obtain rfl := Except.ok.inj h
        exact .refl s
      · next hsign =>
        obtain rfl := Except.ok.inj h
        simp only [Token.isSign, Bool.and_eq_true, beq_iff_eq] at hsign
        exact forward_advance _ hs (isEnd_of_kind hsign.1 (by simp) (by simp))
      · next hcomment =>
        have hend := isEnd_of_kind (beq_iff_eq.1 hcomment) (by simp) (by simp)
        exact (forward_advance _ hs hend).trans
          (ih (State.keeps_advance_comment hs hcomment).2 h)
      · cases h

theorem forward_repeatWithin {step : State → Outcome}
    (hstep : ∀ s t, step s = .ok t → Forward s t) (fuel : Nat) (s : State) :
    Forward s (repeatWithin step fuel s) := by
  induction fuel generalizing s with
  | zero => exact .refl s
  | succ fuel ih =>
      unfold repeatWithin
      split
      · next t ht =>
        split
        · exact (hstep s t ht).trans (ih t)
        · exact .refl s
      · exact .refl s

theorem forward_run {goal : Goal → State → Outcome} {bound : Nat}
    (hgoal : ∀ g s t, goal g s = .ok t → Forward s t) (r : Rule Goal) :
    ∀ s t, r.run goal bound s = .ok t → Forward s t := by
  induction r with
  | done =>
      intro s t h
      obtain rfl := Except.ok.inj h
      exact .refl s
  | signs count => exact fun s t h => forward_runSigns h
  | plain kind => exact fun s t h => forward_runOne h
  | one test => exact fun s t h => forward_runOne h
  | leaf kind test => exact fun s t h => forward_runOne h
  | look spaced test =>
      intro s t h
      obtain ⟨-, rfl⟩ := run_look_ok h
      exact .refl t
  | last test =>
      intro s t h
      rw [run] at h
      repeat' split at h
      · obtain rfl := Except.ok.inj h
        exact .refl s
      · cases h
      · cases h
  | blockEnd => exact fun s t h => forward_runBlockEnd h
  | semicolon operands => exact fun s t h => forward_runSemicolon rfl h
  | andThen a b iha ihb =>
      intro s t h
      obtain ⟨u, ha, hb⟩ := run_andThen_ok h
      exact (iha s u ha).trans (ihb u t hb)
  | orElse a b iha ihb =>
      intro s t h
      rcases run_orElse_ok h with ha | ⟨f, -, hb⟩
      · exact iha s t ha
      · exact ihb { s with furthest := f } t hb
  | many a ih =>
      intro s t h
      obtain rfl := Except.ok.inj h
      exact forward_repeatWithin ih _ s
  | node kind a ih =>
      intro s t h
      obtain ⟨u, hu, -, rfl⟩ := run_node_ok h
      exact (forward_skip s).trans (ih { s.skip with shapes := [] } u hu)
  | extend kind a ih =>
      intro s t h
      obtain ⟨shape, outer, u, -, hu, -, rfl⟩ := run_extend_ok h
      exact ih { s with shapes := [shape] } u hu
  | goal g => exact fun s t h => hgoal g s t h

/-- A rule that begins with a token of a kind reads it first. -/
theorem begins_run {goal : Goal → State → Outcome} {bound : Nat} {kind : TokenKind}
    (hgoal : ∀ g s t, goal g s = .ok t → Forward s t) (r : Rule Goal)
    (hr : r.beginsWith kind = true) :
    ∀ s t, r.run goal bound s = .ok t →
      ∃ u taken, s.skip.rest = u :: taken ++ t.rest ∧ u.kind = kind := by
  induction r with
  | plain k =>
      intro s t h
      obtain ⟨u, rest, hrest, hu, -, rfl⟩ := runOne_ok h
      have hk : k = kind := by simpa [beginsWith] using hr
      have hkind : u.kind = k := by simpa using hu
      exact ⟨u, [], by simp [State.advance, hrest], hkind.trans hk⟩
  | andThen a b iha _ =>
      intro s t h
      obtain ⟨v, ha, hb⟩ := run_andThen_ok h
      obtain ⟨u, taken, hrest, hkind⟩ := iha hr s v ha
      obtain ⟨further, hfurther, -⟩ := forward_run hgoal b v t hb
      exact ⟨u, taken ++ further, by simp [hrest, hfurther], hkind⟩
  | _ => cases hr

theorem opens_run {goal : Goal → State → Outcome} {bound : Nat} {c : Char}
    (hgoal : ∀ g s t, goal g s = .ok t → Forward s t) (r : Rule Goal) (hr : r.Opens c) :
    ∀ s t, r.run goal bound s = .ok t →
      ∃ u taken, s.skip.rest = u :: taken ++ t.rest ∧ u.kind = .sign ∧
        ∀ d ∈ u.text.head?, d = c := by
  induction r with
  | signs count =>
      intro s t h
      have hhead := hr _ (count_ne_zero_of_runSigns h)
      obtain ⟨taken, rest, hrest, hne, hall, -, rfl⟩ := runSigns_ok h
      obtain ⟨u, taken, rfl⟩ := List.exists_cons_of_ne_nil hne
      have hkind := hall u (by simp)
      refine ⟨u, taken, ?_, hkind, fun d hd => ?_⟩
      · rw [(State.shapes_advanceBy hrest).2, hrest]
      · have hd : u.text.head? = some d := hd
        rw [hrest, List.cons_append, Source.signs, hkind, beq_self_eq_true, if_pos rfl,
          List.head?_append, hd] at hhead
        exact Option.some.inj hhead
  | andThen a b iha _ =>
      intro s t h
      obtain ⟨v, ha, hb⟩ := run_andThen_ok h
      obtain ⟨u, taken, hrest, hfirst⟩ := iha hr s v ha
      obtain ⟨further, hfurther, -⟩ := forward_run hgoal b v t hb
      exact ⟨u, taken ++ further, by simp [hrest, hfurther], hfirst⟩
  | _ => cases hr

/-! ### What constructs are made of -/

section

variable {P : Shape → Prop}

theorem forall_advance {kind : Option Leaf} {s : State} (hs : ∀ x ∈ s.shapes, P x)
    (hhead : ∀ t ∈ s.rest.head?, P (token kind t)) : ∀ x ∈ (s.advance kind).shapes, P x := by
  unfold State.advance
  split
  · next t rest h => exact List.forall_mem_cons.2 ⟨hhead t (by simp [h]), hs⟩
  · exact hs

theorem forall_skip (hcomment : ∀ t : Token, t.kind = .comment → P (token (some .comment) t))
    {s : State} (hs : ∀ x ∈ s.shapes, P x) : ∀ x ∈ s.skip.shapes, P x := by
  have hskip : ∀ ts (s : State), s.rest = ts → (∀ x ∈ s.shapes, P x) →
      ∀ x ∈ (State.skipComments ts s).shapes, P x := by
    intro ts
    induction ts with
    | nil => exact fun s _ hs => hs
    | cons t ts ih =>
        intro s hrest hs
        unfold State.skipComments
        split
        · next ht =>
          refine ih _ (State.keeps_advance_comment hrest ht).2 (forall_advance hs ?_)
          intro u hu
          obtain rfl : t = u := by simpa [hrest] using hu
          exact hcomment t (beq_iff_eq.1 ht)
        · exact hs
  exact hskip _ s rfl hs

theorem forall_runOne (hcomment : ∀ t : Token, t.kind = .comment → P (token (some .comment) t))
    {kind : Option Leaf} {test : Token → Bool} (htest : ∀ t, test t = true → P (token kind t))
    {s t : State} (hs : ∀ x ∈ s.shapes, P x) (h : runOne kind test s = .ok t) :
    ∀ x ∈ t.shapes, P x := by
  obtain ⟨u, rest, hrest, hu, -, rfl⟩ := runOne_ok h
  refine forall_advance (forall_skip hcomment hs) ?_
  intro v hv
  obtain rfl : u = v := by simpa [hrest] using hv
  exact htest u hu

theorem forall_runSemicolon
    (hcomment : ∀ t : Token, t.kind = .comment → P (token (some .comment) t))
    (hmark : ∀ t : Token, t.isSign ';' = true → P (token none t)) {operands : Bool}
    {ts : List Token} {s t : State} (hrest : s.rest = ts) (hs : ∀ x ∈ s.shapes, P x)
    (h : runSemicolon operands ts s = .ok t) : ∀ x ∈ t.shapes, P x := by
  induction ts generalizing s with
  | nil =>
      obtain rfl := Except.ok.inj h
      exact hs
  | cons u ts ih =>
      have hhead : ∀ kind, P (token kind u) → ∀ x ∈ (s.advance kind).shapes, P x := by
        intro kind hu
        refine forall_advance hs fun v hv => ?_
        obtain rfl : u = v := by simpa [hrest] using hv
        exact hu
      rw [runSemicolon] at h
      split at h
      · obtain rfl := Except.ok.inj h
        exact hs
      · split at h
        · next hu =>
          obtain rfl := Except.ok.inj h
          exact hhead none (hmark u hu)
        · split at h
          · next hu =>
            exact ih (State.keeps_advance_comment hrest hu).2
              (hhead _ (hcomment u (beq_iff_eq.1 hu))) h
          · cases h

theorem forall_repeatWithin {step : State → Outcome}
    (hstep : ∀ s t, (∀ x ∈ s.shapes, P x) → step s = .ok t → ∀ x ∈ t.shapes, P x) (fuel : Nat)
    (s : State) (hs : ∀ x ∈ s.shapes, P x) : ∀ x ∈ (repeatWithin step fuel s).shapes, P x := by
  induction fuel generalizing s with
  | zero => exact hs
  | succ fuel ih =>
      unfold repeatWithin
      split
      · next t ht =>
        split
        · exact ih t (hstep s t hs ht)
        · exact hs
      · exact hs

/-- A rule that adds shapes of one sort only, comments apart. -/
def Adds (goal : Goal → State → Outcome) (bound : Nat) (P : Shape → Prop) : Rule Goal → Prop
  | .done | .look _ _ | .last _ => True
  | .signs _ => ∀ t : Token, t.kind = .sign → P (token none t)
  | .plain kind => ∀ t : Token, t.kind = kind → P (token none t)
  | .one test => ∀ t, test t = true → P (token none t)
  | .leaf kind test => ∀ t, test t = true → kind.admits t = true → P (token (some kind) t)
  | .blockEnd => ∀ t : Token, t.closesBrace = true → P (token none t)
  | .semicolon _ => ∀ t : Token, t.isSign ';' = true → P (token none t)
  | .andThen a b | .orElse a b => a.Adds goal bound P ∧ b.Adds goal bound P
  | .many a => a.Adds goal bound P
  | .node kind a =>
      ∀ s t, s.IsFresh → a.run goal bound s = .ok t → P (.node kind t.shapes.reverse)
  | .extend kind a =>
      ∀ s t, (∀ x ∈ s.shapes, P x) → a.run goal bound s = .ok t →
        P (.node kind t.shapes.reverse)
  | .goal g => ∀ s t, (∀ x ∈ s.shapes, P x) → goal g s = .ok t → ∀ x ∈ t.shapes, P x

theorem forall_run {goal : Goal → State → Outcome} {bound : Nat}
    (hcomment : ∀ t : Token, t.kind = .comment → P (token (some .comment) t)) (r : Rule Goal)
    (hr : r.Adds goal bound P) :
    ∀ s t, (∀ x ∈ s.shapes, P x) → r.run goal bound s = .ok t → ∀ x ∈ t.shapes, P x := by
  induction r with
  | done =>
      intro s t hs h
      obtain rfl := Except.ok.inj h
      exact hs
  | signs count =>
      intro s t hs h
      obtain ⟨taken, rest, hrest, -, hall, -, rfl⟩ := runSigns_ok h
      rw [(State.shapes_advanceBy hrest).1]
      intro x hx
      rcases List.mem_append.1 hx with hx | hx
      · obtain ⟨u, hu, rfl⟩ := List.mem_map.1 (List.mem_reverse.1 hx)
        exact hr u (hall u hu)
      · exact forall_skip hcomment hs x hx
  | plain kind =>
      exact fun s t hs h => forall_runOne hcomment (fun u hu => hr u (beq_iff_eq.1 hu)) hs h
  | one test => exact fun s t hs h => forall_runOne hcomment hr hs h
  | leaf kind test =>
      intro s t hs h
      refine forall_runOne hcomment (fun u hu => ?_) hs h
      obtain ⟨htest, hadmits⟩ := Bool.and_eq_true_iff.1 hu
      exact hr u htest hadmits
  | look spaced test =>
      intro s t hs h
      obtain ⟨-, rfl⟩ := run_look_ok h
      exact hs
  | last test =>
      intro s t hs h
      rw [run] at h
      repeat' split at h
      · obtain rfl := Except.ok.inj h
        exact hs
      · cases h
      · cases h
  | blockEnd =>
      intro s t hs h
      obtain ⟨u, rest, hrest, hu, rfl⟩ := runBlockEnd_ok h
      refine forall_advance (forall_skip hcomment hs) fun v hv => ?_
      obtain rfl : u = v := by simpa [hrest] using hv
      exact hr u hu
  | semicolon operands => exact fun s t hs h => forall_runSemicolon hcomment hr rfl hs h
  | andThen a b iha ihb =>
      intro s t hs h
      obtain ⟨u, ha, hb⟩ := run_andThen_ok h
      exact ihb hr.2 u t (iha hr.1 s u hs ha) hb
  | orElse a b iha ihb =>
      intro s t hs h
      rcases run_orElse_ok h with ha | ⟨f, -, hb⟩
      · exact iha hr.1 s t hs ha
      · exact ihb hr.2 { s with furthest := f } t hs hb
  | many a ih =>
      intro s t hs h
      obtain rfl := Except.ok.inj h
      exact forall_repeatWithin (ih hr) _ s hs
  | node kind a ih =>
      intro s t hs h
      obtain ⟨u, hu, -, rfl⟩ := run_node_ok h
      have hfresh : State.IsFresh { s.skip with shapes := [] } :=
        ⟨rfl, State.rest_skip_eq (s := s) rfl⟩
      exact List.forall_mem_cons.2 ⟨hr _ u hfresh hu, forall_skip hcomment hs⟩
  | extend kind a ih =>
      intro s t hs h
      obtain ⟨shape, outer, u, houter, hu, -, rfl⟩ := run_extend_ok h
      rw [houter, List.forall_mem_cons] at hs
      have hnode := hr { s with shapes := [shape] } u (List.forall_mem_singleton.2 hs.1) hu
      exact List.forall_mem_cons.2 ⟨hnode, hs.2⟩
  | goal g => exact fun s t hs h => hr s t hs h

end

theorem adds_isPart {goal : Goal → State → Outcome} {bound : Nat} {test : Construct → Bool}
    (r : Rule Goal) (hr : r.adds test = true) :
    r.Adds goal bound fun x => x.isPart test = true := by
  induction r with
  | done | look | last => trivial
  | signs count => exact fun t ht => beq_iff_eq.2 ht
  | leaf kind f =>
      obtain rfl : kind = .chunk := by simpa [adds] using hr
      exact fun t _ hadmits => hadmits
  | andThen a b iha ihb | orElse a b iha ihb =>
      obtain ⟨hra, hrb⟩ := Bool.and_eq_true_iff.1 hr
      exact ⟨iha hra, ihb hrb⟩
  | many a ih => exact ih hr
  | node kind a ih => exact fun _ _ _ _ => hr
  | _ => cases hr

/-- What is read between two states are the tokens taken. -/
theorem tokensAll_of_run {s u : State} (hkeeps : State.Keeps { s.skip with shapes := [] } u)
    {taken : List Token}
    (h : ({ s.skip with shapes := [] } : State).skip.rest = taken ++ u.rest) :
    tokensAll u.shapes.reverse = taken := by
  have hskip : ({ s.skip with shapes := [] } : State).skip.rest = s.skip.rest :=
    State.rest_skip_eq rfl
  rw [hskip] at h
  have htokens := hkeeps.tokens_eq
  simp only [State.tokens, List.reverse_nil, tokensAll_nil, List.nil_append] at htokens
  rw [h] at htokens
  exact List.append_cancel_right htokens

/-- What is read between two states begins with the token that the rule begins with. -/
theorem beginsWith_of_run {goal : Goal → State → Outcome} {bound : Nat} {kind : TokenKind}
    (hgoal : ∀ g s t, goal g s = .ok t → Forward s t) {r : Rule Goal}
    (hr : r.beginsWith kind = true) {s u : State}
    (hu : r.run goal bound { s.skip with shapes := [] } = .ok u)
    (hkeeps : State.Keeps { s.skip with shapes := [] } u) :
    BeginsWith kind (tokensAll u.shapes.reverse) := by
  obtain ⟨t, taken, hrest, hkind⟩ := begins_run hgoal r hr _ u hu
  exact ⟨t, taken, tokensAll_of_run hkeeps hrest, hkind⟩

theorem made_of_makes {goal : Goal → State → Outcome} {bound : Nat}
    (hgoal : ∀ g s t, goal g s = .ok t → Forward s t) {kind : Construct} {r : Rule Goal}
    (hr : makes kind r = true) (hquotes : kind = .template → r.Opens '\x60') {s u : State}
    (hu : r.run goal bound { s.skip with shapes := [] } = .ok u)
    (hkeeps : State.Keeps { s.skip with shapes := [] } u) : Made kind u.shapes.reverse := by
  have hparts : ∀ test, r.adds test = true → ∀ p ∈ u.shapes.reverse, p.isPart test = true := by
    intro test htest p hp
    exact forall_run (fun t ht => beq_iff_eq.2 ht) r (adds_isPart r htest) _ u (by simp) hu p
      (List.mem_reverse.1 hp)
  cases kind with
  | template =>
      obtain ⟨t, taken, hrest, hfirst⟩ := opens_run hgoal r (hquotes rfl) _ u hu
      exact ⟨⟨t, taken, tokensAll_of_run hkeeps hrest, hfirst⟩, hparts _ hr⟩
  | namedImports => exact hparts _ hr
  | importDeclaration typeOnly => exact beginsWith_of_run hgoal hr hu hkeeps
  | _ => trivial

theorem made_of_mayExtend {kind : Construct} (h : mayExtend kind = true) (parts : List Shape) :
    Made kind parts := by
  cases kind <;> trivial

theorem keeps_run {goal : Goal → State → Outcome} {bound : Nat}
    (hgoal : ∀ g s t, goal g s = .ok t → s.Keeps t)
    (hforward : ∀ g s t, goal g s = .ok t → Forward s t) (r : Rule Goal) (hr : r.isCode = true)
    (hquotes : r.Quotes) : ∀ s t, r.run goal bound s = .ok t → s.Keeps t := by
  induction r with
  | done =>
      intro s t h
      obtain rfl := Except.ok.inj h
      exact .refl s
  | signs count => exact fun s t h => keeps_runSigns h
  | plain kind => exact fun s t h => keeps_runOne rfl (by simp) h
  | one test => exact fun s t h => keeps_runOne rfl (by simp) h
  | leaf kind test =>
      intro s t h
      refine keeps_runOne hr (fun u hu k hk => ?_) h
      obtain rfl : kind = k := by simpa using hk
      exact (Bool.and_eq_true_iff.1 hu).2
  | look spaced test =>
      intro s t h
      obtain ⟨-, rfl⟩ := run_look_ok h
      exact .refl t
  | last test =>
      intro s t h
      rw [run] at h
      repeat' split at h
      · obtain rfl := Except.ok.inj h
        exact .refl s
      · cases h
      · cases h
  | blockEnd => exact fun s t h => keeps_runBlockEnd h
  | semicolon operands => exact fun s t h => keeps_runSemicolon rfl h
  | andThen a b iha ihb =>
      intro s t h
      obtain ⟨hra, hrb⟩ := Bool.and_eq_true_iff.1 hr
      obtain ⟨u, ha, hb⟩ := run_andThen_ok h
      exact (iha hra hquotes.1 s u ha).trans (ihb hrb hquotes.2 u t hb)
  | orElse a b iha ihb =>
      intro s t h
      obtain ⟨hra, hrb⟩ := Bool.and_eq_true_iff.1 hr
      rcases run_orElse_ok h with ha | ⟨f, -, hb⟩
      · exact iha hra hquotes.1 s t ha
      · have hk := ihb hrb hquotes.2 _ t hb
        exact ⟨hk.tokens_eq, hk.read_add, hk.code⟩
  | many a ih =>
      intro s t h
      obtain rfl := Except.ok.inj h
      exact keeps_repeatWithin (ih hr hquotes) _ s
  | node kind a ih =>
      intro s t h
      obtain ⟨hmakes, hra⟩ := Bool.and_eq_true_iff.1 hr
      obtain ⟨u, hu, hread, rfl⟩ := run_node_ok h
      have hinner := ih hra hquotes.2 _ u hu
      exact s.keeps_skip.trans
        (keeps_node (made_of_makes hforward hmakes hquotes.1 hu hinner) [] rfl hinner hread)
  | extend kind a ih =>
      intro s t h
      obtain ⟨hmay, hra⟩ := Bool.and_eq_true_iff.1 hr
      obtain ⟨shape, outer, u, hs, hu, hread, rfl⟩ := run_extend_ok h
      exact keeps_node (made_of_mayExtend hmay _) [shape] hs (ih hra hquotes _ u hu) hread
  | goal g => exact fun s t h => hgoal g s t h

end Rule

theorem forward_read {Goal : Type} (grammar : Goal → Rule Goal) (fuel : Nat) :
    ∀ g s t, read grammar fuel g s = .ok t → Rule.Forward s t := by
  induction fuel with
  | zero => intro g s t h; cases h
  | succ fuel ih => exact fun g s t h => Rule.forward_run ih (grammar g) s t h

theorem keeps_read {Goal : Type} {grammar : Goal → Rule Goal}
    (hcode : ∀ g, (grammar g).isCode = true) (hquotes : ∀ g, (grammar g).Quotes) (fuel : Nat) :
    ∀ g s t, read grammar fuel g s = .ok t → s.Keeps t := by
  induction fuel with
  | zero => intro g s t h; cases h
  | succ fuel ih =>
      exact fun g s t h =>
        Rule.keeps_run ih (forward_read grammar fuel) (grammar g) (hcode g) (hquotes g) s t h

theorem grammar_isCode (dialect : Dialect) (goal : Goal) :
    (grammar dialect goal).isCode = true := by
  cases goal with
  | expression typed => cases typed <;> rfl
  | pattern assigned => cases assigned <;> rfl
  | _ => cases dialect <;> rfl

theorem grammar_quotes (dialect : Dialect) (goal : Goal) : (grammar dialect goal).Quotes := by
  cases goal with
  | template =>
      refine ⟨fun _ cs hcount => ?_, Rule.quotes_of_isUnquoted _ rfl⟩
      cases cs with
      | nil => simp at hcount
      | cons c cs =>
          by_cases hc : c = '\x60'
          · rw [hc]
            rfl
          · simp [List.isPrefixOf, Ne.symm hc] at hcount
  | expression typed => exact Rule.quotes_of_isUnquoted _ (by cases typed <;> rfl)
  | pattern assigned => exact Rule.quotes_of_isUnquoted _ (by cases assigned <;> rfl)
  | _ => exact Rule.quotes_of_isUnquoted _ (by cases dialect <;> rfl)

/-- What is read of a row is the beginning of the row. -/
theorem readAll_ok {dialect : Dialect} {goal : Goal} {ts : List Token} {shapes : List Shape}
    (h : readAll dialect goal ts = .ok shapes) :
    (∃ rest, ts = tokensAll shapes ++ rest) ∧ ∀ x ∈ shapes, x.IsCode := by
  unfold readAll at h
  split at h
  · next s hs =>
    obtain rfl := Except.ok.inj h
    have hk := (keeps_read (grammar_isCode dialect) (grammar_quotes dialect) _ _ _ _ hs).trans
        s.keeps_skip
    have ht : s.skip.tokens = ts := by
      rw [hk.tokens_eq]
      simp [State.tokens, State.start]
    refine ⟨⟨s.skip.rest, ht.symm⟩, fun x hx => hk.code ?_ x (by simpa using hx)⟩
    simp [State.start]
  · cases h

/-! ### What must be among the tokens -/

namespace Rule

variable {Goal : Type} {goal : Goal → State → Outcome} {bound : Nat} {a b : Rule Goal}
  {test : Token → Bool}

/-- A rule that fits only where a token passes a test. -/
def Needs (goal : Goal → State → Outcome) (bound : Nat) (test : Token → Bool) (r : Rule Goal) :
    Prop :=
  ∀ s t, r.run goal bound s = .ok t → ∃ u ∈ s.tokens, test u = true

theorem needs_plain (kind : TokenKind) : (plain kind).Needs goal bound (·.kind == kind) := by
  intro s t h
  obtain ⟨u, rest, hrest, hu, -, -⟩ := runOne_ok h
  refine ⟨u, ?_, hu⟩
  rw [← s.keeps_skip.tokens_eq]
  simp [State.tokens, hrest]

theorem Needs.mono {other : Token → Bool} (h : a.Needs goal bound test)
    (hto : ∀ t, test t = true → other t = true) : a.Needs goal bound other := by
  intro s t ht
  obtain ⟨u, hu, htest⟩ := h s t ht
  exact ⟨u, hu, hto u htest⟩

theorem needs_andThen_left (h : a.Needs goal bound test) :
    (andThen a b).Needs goal bound test := by
  intro s t ht
  obtain ⟨u, hu, -⟩ := run_andThen_ok ht
  exact h s u hu

theorem needs_andThen_right (hgoal : ∀ g s t, goal g s = .ok t → s.Keeps t)
    (hforward : ∀ g s t, goal g s = .ok t → Forward s t)
    (ha : (a.isCode && a.isUnquoted) = true) (h : b.Needs goal bound test) :
    (andThen a b).Needs goal bound test := by
  intro s t ht
  obtain ⟨u, hu, hb⟩ := run_andThen_ok ht
  obtain ⟨hcode, hunquoted⟩ := Bool.and_eq_true_iff.1 ha
  have hkeeps := keeps_run hgoal hforward a hcode (quotes_of_isUnquoted a hunquoted) s u hu
  rw [← hkeeps.tokens_eq]
  exact h u t hb

theorem needs_orElse (ha : a.Needs goal bound test) (hb : b.Needs goal bound test) :
    (orElse a b).Needs goal bound test := by
  intro s t ht
  rcases run_orElse_ok ht with h | ⟨f, -, h⟩
  · exact ha s t h
  · have hu := hb _ t h
    exact hu

theorem needs_node {kind : Construct} (h : a.Needs goal bound test) :
    (node kind a).Needs goal bound test := by
  intro s t ht
  obtain ⟨u, hu, -, -⟩ := run_node_ok ht
  obtain ⟨v, hv, htest⟩ := h _ u hu
  refine ⟨v, ?_, htest⟩
  rw [← s.keeps_skip.tokens_eq]
  simp only [State.tokens, List.reverse_nil, tokensAll_nil, List.nil_append] at hv
  exact List.mem_append_right _ hv

/-- A rule that fits only up to the end. -/
def Stops (goal : Goal → State → Outcome) (bound : Nat) (r : Rule Goal) : Prop :=
  ∀ s t, r.run goal bound s = .ok t → atEnd t.skip.rest = true

theorem stops_look : (look true atEnd).Stops goal bound := by
  intro s t h
  obtain ⟨hend, rfl⟩ := run_look_ok h
  exact hend

theorem stops_andThen (h : b.Stops goal bound) : (andThen a b).Stops goal bound := by
  intro s t ht
  obtain ⟨u, -, hb⟩ := run_andThen_ok ht
  exact h u t hb

end Rule

section

variable {dialect : Dialect} {goal : Goal} {ts : List Token} {shapes : List Shape}

theorem exists_of_readAll (test : Token → Bool)
    (hrule : ∀ fuel, (grammar dialect goal).Needs (read (grammar dialect) fuel) fuel test)
    (h : readAll dialect goal ts = .ok shapes) : ∃ t ∈ ts, test t = true := by
  unfold readAll at h
  split at h
  · next t ht =>
    have hd : depth ts = 32 * (ts.length + 1) - 1 + 1 := by
      unfold depth
      omega
    rw [hd] at ht
    have hts : (State.start ts).tokens = ts := by simp [State.tokens, State.start]
    rw [← hts]
    exact hrule _ _ t ht
  · cases h

open Rule

theorem holeEnd_of_readAll (h : readAll dialect .hole ts = .ok shapes) :
    ∃ t ∈ ts, t.kind = .holeEnd := by
  have hneeds := exists_of_readAll (fun t => t.kind == .holeEnd) (fun fuel => ?_) h
  · simpa using hneeds
  · have hgoal := keeps_read (grammar_isCode dialect) (grammar_quotes dialect) fuel
    have hforward := forward_read (grammar dialect) fuel
    exact needs_andThen_left (needs_node (needs_andThen_right hgoal hforward rfl
      (needs_andThen_right hgoal hforward rfl (needs_plain _))))

theorem elementEnd_of_closingTag (h : readAll dialect .closingTag ts = .ok shapes) :
    ∃ t ∈ ts, t.kind = .elementEnd := by
  have hneeds := exists_of_readAll (fun t => t.kind == .elementEnd) (fun fuel => ?_) h
  · simpa using hneeds
  · have hgoal := keeps_read (grammar_isCode dialect) (grammar_quotes dialect) fuel
    have hforward := forward_read (grammar dialect) fuel
    exact needs_andThen_right hgoal hforward rfl (needs_andThen_right hgoal hforward rfl
      (needs_andThen_left (needs_plain _)))

/-- A goal for all of what it is given: a section, and what is nested in other code. -/
def Goal.TakesAll (goal : Goal) : Prop :=
  goal = .hole ∨ goal = .openingTag ∨ goal = .closingTag ∨ goal = .section

theorem atEnd_of_readAll (hgoal : goal.TakesAll) (h : readAll dialect goal ts = .ok shapes) :
    ∃ rest, ts = tokensAll shapes ++ rest ∧ atEnd rest = true := by
  unfold readAll at h
  split at h
  · next s hs =>
    obtain rfl := Except.ok.inj h
    have hk := (keeps_read (grammar_isCode dialect) (grammar_quotes dialect) _ _ _ _ hs).trans
        s.keeps_skip
    have ht : s.skip.tokens = ts := by
      rw [hk.tokens_eq]
      simp [State.tokens, State.start]
    refine ⟨s.skip.rest, ht.symm, ?_⟩
    have hd : depth ts = 32 * (ts.length + 1) - 1 + 1 := by
      unfold depth
      omega
    rw [hd] at hs
    have hstops : (grammar dialect goal).Stops (read (grammar dialect) (32 * (ts.length + 1) - 1))
        (32 * (ts.length + 1) - 1) := by
      rcases hgoal with rfl | rfl | rfl | rfl
      · exact stops_andThen stops_look
      · exact stops_andThen (stops_andThen (stops_andThen stops_look))
      · exact stops_andThen (stops_andThen (stops_andThen stops_look))
      · exact stops_andThen (stops_andThen (stops_andThen stops_look))
    exact hstops _ s hs
  · cases h

/-- No end is among the tokens that are read. -/
theorem isEnd_of_readAll (h : readAll dialect goal ts = .ok shapes) :
    ∀ t ∈ tokensAll shapes, isEnd t = false := by
  unfold readAll at h
  split at h
  · next s hs =>
    obtain rfl := Except.ok.inj h
    have hk := (keeps_read (grammar_isCode dialect) (grammar_quotes dialect) _ _ _ _ hs).trans
        s.keeps_skip
    have ht : s.skip.tokens = ts := by
      rw [hk.tokens_eq]
      simp [State.tokens, State.start]
    obtain ⟨taken, htaken, hend⟩ :=
      (forward_read (grammar dialect) _ _ _ _ hs).trans (Rule.forward_skip s)
    have hstart : (State.start ts).rest = ts := rfl
    rw [hstart, ← ht, State.tokens] at htaken
    rwa [List.append_cancel_right htaken]
  · cases h

theorem tagEnd_of_openingTag (h : readAll dialect .openingTag ts = .ok shapes) :
    ∃ t ∈ ts, t.kind = .elementEnd ∨ t.kind = .tagEnd := by
  have hneeds := exists_of_readAll (fun t => t.kind == .elementEnd || t.kind == .tagEnd)
    (fun fuel => ?_) h
  · simpa using hneeds
  · have hgoal := keeps_read (grammar_isCode dialect) (grammar_quotes dialect) fuel
    have hforward := forward_read (grammar dialect) fuel
    refine needs_andThen_right hgoal hforward rfl
      (needs_andThen_right hgoal hforward rfl (needs_andThen_left ?_))
    refine needs_orElse (needs_andThen_right hgoal hforward rfl ((needs_plain _).mono ?_))
      ((needs_plain _).mono ?_)
    · simp +contextual
    · simp +contextual

/-- A closing tag begins with the token that says so, or with a comment. -/
theorem head_of_closingTag (h : readAll dialect .closingTag ts = .ok shapes) :
    ∃ t rest, ts = t :: rest ∧ (t.kind = .comment ∨ t.kind = .closing) := by
  unfold readAll at h
  split at h
  · next s hs =>
    obtain ⟨u, hu, -⟩ := run_andThen_ok (show (grammar dialect .closingTag).run _ _ _ = _ from hs)
    obtain ⟨v, after, hv, hkind, -, -⟩ := runOne_ok hu
    cases ts with
    | nil => simp [State.skip, State.skipComments, State.start] at hv
    | cons t rest =>
        refine ⟨t, rest, rfl, ?_⟩
        by_cases hk : t.kind = .comment
        · exact Or.inl hk
        · obtain ⟨rfl, -⟩ : t = v ∧ rest = after := by
            simpa [State.skip, State.skipComments, State.start, hk] using hv
          exact Or.inr (by simpa using hkind)
  · cases h

end

end Phrasebook.Source

import Phrasebook.Proofs.Reading

/-!
What is between the quotes of a string decides nothing about the code around it: with another
body in its double-quoted strings, code reads as the same shapes with that body in them. Nor does
the white space before what has been read decide anything.

So how a call with a string reads in braces is known for every string, and wherever the braces
stand, once it is known for one.
-/

namespace Phrasebook.Source

def Token.requote (body : List Char) (t : Token) : Token :=
  if t.kind = .string ∧ t.text.head? = some '"' then { t with text := '"' :: body } else t

namespace Token

variable (body : List Char) (t : Token)

@[simp]
theorem requote_kind : (t.requote body).kind = t.kind := by
  unfold requote
  split <;> rfl

@[simp]
theorem requote_gap : (t.requote body).gap = t.gap := by
  unfold requote
  split <;> rfl

@[simp]
theorem requote_head? : (t.requote body).text.head? = t.text.head? := by
  unfold requote
  split
  · next h => rw [h.2]; rfl
  · rfl

variable {t}

theorem requote_of_kind_ne (h : t.kind ≠ .string) : t.requote body = t := if_neg fun k => h k.1

/-- A test that no string passes does not tell the token from the one with another body. -/
theorem test_requote (t : Token) (test : Token → Bool)
    (h : ∀ u : Token, test u = true → u.kind ≠ .string) : test (t.requote body) = test t := by
  by_cases hk : t.kind = .string
  · have hnew : test (t.requote body) ≠ true := fun hp => h _ hp (by rw [requote_kind, hk])
    have hold : test t ≠ true := fun hp => h _ hp hk
    rw [Bool.eq_false_iff.2 hnew, Bool.eq_false_iff.2 hold]
  · rw [requote_of_kind_ne body hk]

@[simp]
theorem requote_isWord (t : Token) (w : String) : (t.requote body).isWord w = t.isWord w :=
  test_requote body t (·.isWord w) fun u hu => by
    have hkind : u.kind = .word := by simpa using (Bool.and_eq_true_iff.1 hu).1
    simp [hkind]

@[simp]
theorem requote_isSign (t : Token) (c : Char) : (t.requote body).isSign c = t.isSign c :=
  test_requote body t (·.isSign c) fun u hu => by
    have hkind : u.kind = .sign := by simpa using (Bool.and_eq_true_iff.1 hu).1
    simp [hkind]

@[simp]
theorem requote_closesBrace (t : Token) : (t.requote body).closesBrace = t.closesBrace := by
  simp [closesBrace]

@[simp]
theorem requote_isIdentifier (t : Token) :
    Goal.isIdentifier (t.requote body) = Goal.isIdentifier t :=
  test_requote body t Goal.isIdentifier fun u hu => by
    have hkind : u.kind = .word := by simpa using (Bool.and_eq_true_iff.1 hu).1
    simp [hkind]

@[simp]
theorem requote_isEnd (t : Token) : isEnd (t.requote body) = isEnd t := by simp [isEnd]

@[simp]
theorem requote_admits (t : Token) (kind : Leaf) :
    kind.admits (t.requote body) = kind.admits t := by
  unfold Leaf.admits
  split <;> simp

end Token

variable (body : List Char)

@[simp]
theorem tightSigns_requote (ts : List Token) :
    tightSigns (ts.map (Token.requote body)) = tightSigns ts := by
  induction ts with
  | nil => rfl
  | cons t ts ih =>
    by_cases h : t.kind = .sign
    · simp [tightSigns, ih, Token.requote_of_kind_ne body (t := t) (by simp [h])]
    · simp [tightSigns, h]

@[simp]
theorem signs_requote (ts : List Token) : signs (ts.map (Token.requote body)) = signs ts := by
  cases ts with
  | nil => rfl
  | cons t ts =>
    by_cases h : t.kind = .sign
    · simp [signs, Token.requote_of_kind_ne body (t := t) (by simp [h])]
    · simp [signs, h]

@[simp]
theorem atEnd_requote (ts : List Token) : atEnd (ts.map (Token.requote body)) = atEnd ts := by
  cases ts <;> simp [atEnd]

/-- A statement may end before a line that begins with a string. -/
theorem endsBefore_string (operands : Bool) {t : Token} (ts : List Token)
    (hkind : t.kind = .string) (htext : t.text.head? = some '"') :
    endsBefore operands (t :: ts) = true := by
  obtain ⟨kind, gap, text⟩ := t
  cases text with
  | nil => cases htext
  | cons c r =>
    cases htext
    cases hkind
    rfl

theorem endsBefore_requote (operands : Bool) (ts : List Token) :
    endsBefore operands (ts.map (Token.requote body)) = endsBefore operands ts := by
  cases ts with
  | nil => rfl
  | cons t ts =>
    by_cases h : t.kind = .string ∧ t.text.head? = some '"'
    · rw [endsBefore_string operands ts h.1 h.2, List.map_cons,
        endsBefore_string operands _ (by simp [h.1]) (by simp [h.2])]
    · have ht : t.requote body = t := if_neg h
      rw [List.map_cons, ht, endsBefore, endsBefore]
      simp only [tightSigns_requote]

theorem endsAfterLine_requote (operands : Bool) (ts : List Token) (gap : List Char) :
    endsAfterLine operands gap (ts.map (Token.requote body)) = endsAfterLine operands gap ts := by
  induction ts generalizing gap with
  | nil => rfl
  | cons t ts ih =>
    have hends := endsBefore_requote body operands (t :: ts)
    rw [List.map_cons] at hends ⊢
    unfold endsAfterLine
    rw [hends, Token.requote_kind]
    cases ts with
    | nil => rfl
    | cons next ts =>
      rw [List.map_cons] at ih ⊢
      simp only [Token.requote_gap, ih]

theorem impliesSemicolon_requote (operands : Bool) (ts : List Token) :
    impliesSemicolon operands (ts.map (Token.requote body)) = impliesSemicolon operands ts := by
  cases ts with
  | nil => rfl
  | cons t ts =>
    have hends := endsAfterLine_requote body operands (t :: ts)
    rw [List.map_cons] at hends ⊢
    unfold impliesSemicolon
    simp only [Token.requote_gap, hends, Token.requote_closesBrace, Token.requote_kind]
    cases ts with
    | nil => rfl
    | cons next ts => simp only [List.map_cons, Token.requote_isSign, Token.requote_gap]

/-! ### Shapes and states -/

namespace Shape

mutual

def recast (f : Token → Token) : Shape → Shape
  | token kind t => token kind (f t)
  | run t => run (f t)
  | node kind parts => node kind (recastAll f parts)

def recastAll (f : Token → Token) : List Shape → List Shape
  | [] => []
  | s :: following => s.recast f :: recastAll f following

end

theorem recastAll_eq_map (f : Token → Token) (ss : List Shape) :
    recastAll f ss = ss.map (recast f) := by
  induction ss with
  | nil => rfl
  | cons s ss ih => rw [recastAll, ih, List.map_cons]

end Shape

variable (f : Token → Token)

namespace State

/-- The state with other bodies in the strings that are left, and with other tokens in what has
been read. -/
def requote (body : List Char) (f : Token → Token) (s : State) : State :=
  { s with
    rest := s.rest.map (Token.requote body)
    shapes := s.shapes.map (Shape.recast f) }

/-- The tokens that are left are changed in nothing but the bodies of strings. -/
def Agrees (body : List Char) (f : Token → Token) (s : State) : Prop :=
  ∀ t ∈ s.rest, f t = t.requote body

variable {body f}

theorem Agrees.advance {s : State} (h : s.Agrees body f) (kind : Option Leaf) :
    (s.advance kind).Agrees body f := by
  obtain ⟨rest, read, shapes, furthest⟩ := s
  cases rest with
  | nil => exact h
  | cons t rest => exact fun u hu => h u (List.mem_cons_of_mem t hu)

theorem Agrees.forward {s t : State} (h : s.Agrees body f) (k : Rule.Forward s t) :
    t.Agrees body f := by
  obtain ⟨taken, hrest, -⟩ := k
  exact fun u hu => h u (by simp [hrest, hu])

theorem Agrees.skip {s : State} (h : s.Agrees body f) : s.skip.Agrees body f :=
  h.forward (Rule.forward_skip s)

theorem advance_requote {s : State} (h : s.Agrees body f) (kind : Option Leaf) :
    (s.requote body f).advance kind = (s.advance kind).requote body f := by
  obtain ⟨rest, read, shapes, furthest⟩ := s
  cases rest with
  | nil => rfl
  | cons t rest =>
    have ht : f t = t.requote body := h t List.mem_cons_self
    simp [requote, State.advance, Shape.recast, ht]

theorem advanceBy_requote (n : Nat) {s : State} (h : s.Agrees body f) :
    advanceBy n (s.requote body f) = (advanceBy n s).requote body f := by
  induction n generalizing s with
  | zero => rfl
  | succ n ih => rw [advanceBy, advanceBy, advance_requote h, ih (h.advance none)]

theorem skipComments_requote (ts : List Token) {s : State} (h : s.Agrees body f) :
    skipComments (ts.map (Token.requote body)) (s.requote body f) =
      (skipComments ts s).requote body f := by
  induction ts generalizing s with
  | nil => rfl
  | cons t ts ih =>
    rw [List.map_cons, skipComments, skipComments, Token.requote_kind, advance_requote h,
      ih (h.advance _)]
    split <;> rfl

theorem skip_requote {s : State} (h : s.Agrees body f) :
    (s.requote body f).skip = s.skip.requote body f :=
  skipComments_requote s.rest h

end State

def Outcome.requote (body : List Char) (f : Token → Token) : Outcome → Outcome
  | .ok s => .ok (s.requote body f)
  | .error e => .error e

@[simp]
theorem requote_ok (s : State) : Outcome.requote body f (.ok s) = .ok (s.requote body f) := rfl

@[simp]
theorem requote_error (e : Stuck) : Outcome.requote body f (.error e) = .error e := rfl

/-! ### Rules -/

namespace Rule

variable {Goal : Type}

/-- The tests of a rule do not look into strings, nor at the tokens of what has been read. -/
def Blind (body : List Char) : Rule Goal → Prop
  | .one test | .leaf _ test => ∀ t, test (t.requote body) = test t
  | .look _ test => ∀ ts : List Token, test (ts.map (Token.requote body)) = test ts
  | .last test => ∀ f s, test (s.recast f) = test s
  | .andThen a b | .orElse a b => a.Blind body ∧ b.Blind body
  | .many a | .node _ a | .extend _ a => a.Blind body
  | _ => True

variable {body f} {s : State}

theorem runSigns_requote (hs : s.Agrees body f) (count : List Char → Nat) :
    runSigns count (s.requote body f) = (runSigns count s).requote body f := by
  have hrest : (s.skip.requote body f).rest = s.skip.rest.map (Token.requote body) := rfl
  have hall (n : Nat) : ((s.skip.rest.map (Token.requote body)).take n).all (·.kind == .sign) =
      (s.skip.rest.take n).all (·.kind == .sign) := by
    rw [← List.map_take, List.all_map]
    simp [Function.comp_def]
  simp only [runSigns, State.skip_requote hs, hrest, signs_requote, hall, List.length_take,
    List.length_map, State.advanceBy_requote _ hs.skip]
  split <;> rfl

theorem runOne_requote (hs : s.Agrees body f) (kind : Option Leaf) {test : Token → Bool}
    (h : ∀ t, test (t.requote body) = test t) :
    runOne kind test (s.requote body f) = (runOne kind test s).requote body f := by
  have hrest : (s.skip.requote body f).rest = s.skip.rest.map (Token.requote body) := rfl
  simp only [runOne, State.skip_requote hs, hrest, List.head?_map, Option.any_map, h,
    Token.requote_isEnd, State.advance_requote hs.skip]
  split <;> rfl

theorem runBlockEnd_requote (hs : s.Agrees body f) :
    runBlockEnd (s.requote body f) = (runBlockEnd s).requote body f := by
  have hrest : (s.skip.requote body f).rest = s.skip.rest.map (Token.requote body) := rfl
  simp only [runBlockEnd, State.skip_requote hs, hrest, atEnd_requote, List.head?_map,
    Option.any_map, Token.requote_closesBrace, State.advance_requote hs.skip]
  split
  · rfl
  · split <;> rfl

theorem runSemicolon_requote (operands : Bool) (ts : List Token) (hs : s.Agrees body f) :
    runSemicolon operands (ts.map (Token.requote body)) (s.requote body f) =
      (runSemicolon operands ts s).requote body f := by
  induction ts generalizing s with
  | nil => rfl
  | cons t ts ih =>
    have himplies := impliesSemicolon_requote body operands (t :: ts)
    rw [List.map_cons] at himplies ⊢
    simp only [runSemicolon, himplies, Token.requote_isSign, Token.requote_kind,
      State.advance_requote hs, ih (hs.advance _)]
    split
    · rfl
    · split
      · rfl
      · split <;> rfl

theorem repeatWithin_requote {step : State → Outcome}
    (hforward : ∀ s t, step s = .ok t → Forward s t)
    (h : ∀ s, s.Agrees body f → step (s.requote body f) = (step s).requote body f) (fuel : Nat)
    (hs : s.Agrees body f) :
    repeatWithin step fuel (s.requote body f) = (repeatWithin step fuel s).requote body f := by
  induction fuel generalizing s with
  | zero => rfl
  | succ fuel ih =>
    rw [repeatWithin, repeatWithin, h s hs]
    cases hstep : step s with
    | error e => rfl
    | ok t =>
      simp only [requote_ok, ih (hs.forward (hforward s t hstep))]
      show (if s.read < t.read then _ else _) = _
      split <;> rfl

theorem close_requote (kind : Construct) (outer : List Shape) (start : Nat) (s : State) :
    close kind (outer.map (Shape.recast f)) start (s.requote body f) =
      Outcome.requote body f (close kind outer start s) := by
  have hread : (s.requote body f).read = s.read := rfl
  unfold close
  rw [hread]
  split
  · simp [State.requote, Shape.recast, Shape.recastAll_eq_map]
  · rfl

/-- A rule that is blind to strings reads the same with other bodies in them. -/
theorem run_requote {goal : Goal → State → Outcome} {bound : Nat}
    (hforward : ∀ g s t, goal g s = .ok t → Forward s t)
    (hgoal : ∀ g s, s.Agrees body f → goal g (s.requote body f) = (goal g s).requote body f)
    {r : Rule Goal} (h : r.Blind body) {s : State} (hs : s.Agrees body f) :
    r.run goal bound (s.requote body f) = (r.run goal bound s).requote body f := by
  induction r generalizing s with
  | done => rfl
  | signs count => exact runSigns_requote hs count
  | plain kind => exact runOne_requote hs none (by simp)
  | one test => exact runOne_requote hs none h
  | leaf kind test =>
    exact runOne_requote hs (some kind) (fun t => by rw [h t, Token.requote_admits])
  | look spaced test =>
    have hrest (u : State) : (u.requote body f).rest = u.rest.map (Token.requote body) := rfl
    have hfrom : (if spaced then (s.requote body f).skip else s.requote body f) =
        (if spaced then s.skip else s).requote body f := by
      split
      · exact State.skip_requote hs
      · rfl
    simp only [run, hfrom, hrest, h _]
    generalize (if spaced then s.skip else s) = u
    cases test u.rest <;> rfl
  | last test =>
    simp only [run, State.skip_requote hs]
    obtain ⟨rest, read, shapes, furthest⟩ := s
    cases shapes with
    | nil => rfl
    | cons shape outer =>
      show (if test (shape.recast f) then _ else _) = _
      rw [h f shape]
      cases htest : test shape <;> simp [htest]
      rfl
  | blockEnd => exact runBlockEnd_requote hs
  | semicolon operands => exact runSemicolon_requote operands s.rest hs
  | andThen a b iha ihb =>
    rw [run, run, iha h.1 hs]
    cases ha : a.run goal bound s with
    | ok t => exact ihb h.2 (hs.forward (forward_run hforward a s t ha))
    | error e => rfl
  | orElse a b iha ihb =>
    rw [run, run, iha h.1 hs]
    cases a.run goal bound s with
    | ok t => rfl
    | error e => exact ihb h.2 (s := { s with furthest := e }) hs
  | many a ih =>
    exact congrArg Except.ok
      (repeatWithin_requote (forward_run hforward a) (fun s hs => ih h hs) bound hs)
  | node kind a ih =>
    have hempty : { s.skip.requote body f with shapes := [] } =
        State.requote body f { s.skip with shapes := [] } := rfl
    have hinner : State.Agrees body f { s.skip with shapes := [] } := hs.skip
    simp only [run]
    rw [State.skip_requote hs, hempty, ih h hinner]
    cases a.run goal bound { s.skip with shapes := [] } with
    | ok t => exact close_requote kind s.skip.shapes s.skip.read t
    | error e => rfl
  | extend kind a ih =>
    obtain ⟨rest, read, shapes, furthest⟩ := s
    cases shapes with
    | nil => rfl
    | cons shape outer =>
      have hinner : a.run goal bound
          ⟨rest.map (Token.requote body), read, [shape.recast f], furthest⟩ =
          (a.run goal bound ⟨rest, read, [shape], furthest⟩).requote body f :=
        ih h (s := ⟨rest, read, [shape], furthest⟩) hs
      simp only [run, State.requote, List.map_cons]
      rw [hinner]
      cases a.run goal bound ⟨rest, read, [shape], furthest⟩ with
      | ok t => exact close_requote kind outer read t
      | error e => rfl
  | goal g => exact hgoal g s hs

end Rule

theorem read_requote {Goal : Type} {grammar : Goal → Rule Goal}
    (h : ∀ g, (grammar g).Blind body) (fuel : Nat) (g : Goal) {s : State}
    (hs : s.Agrees body f) :
    read grammar fuel g (s.requote body f) = (read grammar fuel g s).requote body f := by
  induction fuel generalizing g s with
  | zero => rfl
  | succ fuel ih =>
    exact Rule.run_requote (forward_read grammar fuel) (fun g s hs => ih g hs) (h g) hs

/-! ### The grammar -/

namespace Rule

variable {Goal : Type}

@[simp]
theorem blind_all (rules : List (Rule Goal)) :
    (all rules).Blind body ↔ ∀ r ∈ rules, r.Blind body := by
  fun_induction all rules with
  | case1 => simp [Blind]
  | case2 r => simp
  | case3 r rs _ ih => rw [Blind, ih, List.forall_mem_cons]

@[simp]
theorem blind_any (rules : List (Rule Goal)) :
    (any rules).Blind body ↔ ∀ r ∈ rules, r.Blind body := by
  fun_induction any rules with
  | case1 => simp [Blind]
  | case2 r => simp
  | case3 r rs _ ih => rw [Blind, ih, List.forall_mem_cons]

@[simp]
theorem blind_optional (r : Rule Goal) : (optional r).Blind body ↔ r.Blind body := by
  simp [optional, Blind]

@[simp]
theorem blind_mark (m : String) : (mark m : Rule Goal).Blind body := trivial

@[simp]
theorem blind_operator (o : String) : (operator o : Rule Goal).Blind body := trivial

@[simp]
theorem blind_anyLeaf (kind : Leaf) : (anyLeaf kind : Rule Goal).Blind body := fun _ => rfl

@[simp]
theorem blind_ite {c : Prop} [Decidable c] (a b : Rule Goal) :
    (if c then a else b).Blind body ↔ if c then a.Blind body else b.Blind body := by
  split <;> rfl

@[simp]
theorem blind_word (w : String) : (word w : Rule Goal).Blind body := by simp [word, Blind]

@[simp]
theorem blind_wordIn (table : List String) : (wordIn table : Rule Goal).Blind body := by
  intro t
  have hwords : (t.requote body).isWord = t.isWord := funext (Token.requote_isWord body t)
  show table.any (t.requote body).isWord = table.any t.isWord
  rw [hwords]

/-- A look at the token in front is blind if its test is. -/
theorem blind_head {test : Token → Bool} (h : ∀ t, test (t.requote body) = test t)
    (ts : List Token) : (ts.map (Token.requote body)).head?.any test = ts.head?.any test := by
  cases ts with
  | nil => rfl
  | cons t ts => exact h t

@[simp]
theorem blind_ahead (test : Char → Bool) : (ahead test : Rule Goal).Blind body :=
  blind_head body (by simp)

@[simp]
theorem blind_aheadMark (s : String) : (aheadMark s : Rule Goal).Blind body := by
  simp [aheadMark, Blind]

@[simp]
theorem blind_notAhead {test : Token → Bool} (h : ∀ t, test (t.requote body) = test t) :
    (notAhead test : Rule Goal).Blind body :=
  fun ts => congrArg (!·) (blind_head body h ts)

@[simp]
theorem blind_sameLine : (sameLine : Rule Goal).Blind body :=
  fun ts => congrArg (!·) (blind_head body (by simp) ts)

end Rule

@[simp]
theorem typeName_blind : Grammar.typeName.Blind body :=
  fun t => Token.test_requote body t
      (fun u => u.kind == .word && (!Lexeme.isReserved u.text || Grammar.typeWords.any u.isWord))
      fun u hu => by
    have hkind : u.kind = .word := by simpa using (Bool.and_eq_true_iff.1 hu).1
    simp [hkind]

@[simp]
theorem isTarget_recast (s : Shape) : Grammar.isTarget (s.recast f) = Grammar.isTarget s := by
  cases s with
  | token kind t =>
    cases kind with
    | none => rfl
    | some leaf => cases leaf <;> rfl
  | run t => rfl
  | node kind parts => cases kind <;> rfl

open Rule Goal Grammar in
/-- No rule of the grammar looks into strings. -/
theorem grammar_blind (dialect : Dialect) (goal : Goal) : (grammar dialect goal).Blind body := by
  -- the rule of each goal falls into the tests in it, which are of a few kinds
  cases goal <;> repeat' apply And.intro
  all_goals first
    | exact trivial
    | simp [Blind, identifier, usage, anyWord, stringAt, wordAs, privateName, memberName, number,
        nameAhead, element, opensSignature, opensPattern, tagPart, returnAnnotation, resultType,
        typePredicate, target, blind_head, -List.head?_map]

namespace Rule

variable {Goal : Type} {goal : Goal → State → Outcome} {bound : Nat} {test : Token → Bool}
  {t : Token}

theorem run_node_first (ht : test t = true) (hcomment : t.kind ≠ .comment) (hend : isEnd t = false)
    (kind : Construct) (b : Rule Goal) (ts : List Token) :
    (node kind (andThen (one test) b)).run goal bound (.start (t :: ts)) =
      match b.run goal bound ⟨ts, 1, [.token none t], ⟨0, none⟩⟩ with
      | .ok s => close kind [] 0 s
      | .error e => .error e := by
  have hskip : (State.start (t :: ts)).skip = .start (t :: ts) := by
    show (if t.kind == .comment then _ else _) = _
    simp [hcomment]
  have hone : runOne none test (.start (t :: ts)) = .ok ⟨ts, 1, [.token none t], ⟨0, none⟩⟩ := by
    rw [runOne, hskip]
    simp [State.start, State.advance, ht, hend]
  have hempty : { State.start (t :: ts) with shapes := [] } = State.start (t :: ts) := rfl
  simp only [run]
  rw [hskip, hempty, hone]
  rfl

variable {body f}

/-- A construct reads the same with another token in front of it, and other bodies in the strings
after that. -/
theorem run_first {kind : Construct} {b c : Rule Goal} {ts : List Token} {u : State}
    (hforward : ∀ g s t, goal g s = .ok t → Forward s t)
    (hgoal : ∀ g s, s.Agrees body f → goal g (s.requote body f) = (goal g s).requote body f)
    (hb : b.Blind body) (hc : c.Blind body)
    (htest : ∀ u : Token, test u = true → u.kind ≠ .comment ∧ isEnd u = false)
    (ht : test t = true) (hf : test (f t) = true) (hts : ∀ v ∈ ts, f v = v.requote body)
    (h : (andThen (node kind (andThen (one test) b)) c).run goal bound (.start (t :: ts)) = .ok u) :
    (andThen (node kind (andThen (one test) b)) c).run goal bound
        (.start (f t :: ts.map (Token.requote body))) = .ok (u.requote body f) ∧
      u.Agrees body f := by
  let s : State := ⟨ts, 1, [.token none t], ⟨0, none⟩⟩
  have hs : s.Agrees body f := hts
  have hrun : b.run goal bound ⟨ts.map (Token.requote body), 1, [.token none (f t)], ⟨0, none⟩⟩ =
      (b.run goal bound s).requote body f :=
    run_requote hforward hgoal hb hs
  obtain ⟨w, hnode, hw⟩ := run_andThen_ok h
  rw [run_node_first ht (htest _ ht).1 (htest _ ht).2] at hnode
  rw [run, run_node_first hf (htest _ hf).1 (htest _ hf).2, hrun]
  cases hv : b.run goal bound s with
  | error e =>
    rw [hv] at hnode
    cases hnode
  | ok v =>
    rw [hv] at hnode
    have hclose : close kind [] 0 (v.requote body f) = .ok (w.requote body f) := by
      rw [← requote_ok body f w, ← hnode]
      exact close_requote kind [] 0 v
    have hagrees : w.Agrees body f := by
      obtain ⟨-, rfl⟩ := close_ok hnode
      exact hs.forward (forward_run hforward b s v hv)
    refine ⟨?_, hagrees.forward (forward_run hforward c w u hw)⟩
    simp only [requote_ok, hclose]
    rw [run_requote hforward hgoal hc hagrees, hw, requote_ok]

end Rule

/-- What stands in braces reads the same with another brace in front of it, and other bodies in its
strings. -/
theorem readAll_hole {dialect : Dialect} {t : Token} {value other : Bool} {ts : List Token}
    {shapes : List Shape} (ht : t.kind = .hole value) (hf : (f t).kind = .hole other)
    (hts : ∀ u ∈ ts, f u = u.requote body)
    (h : readAll dialect .hole (t :: ts) = .ok shapes) :
    readAll dialect .hole (f t :: ts.map (Token.requote body)) =
      .ok (shapes.map (Shape.recast f)) := by
  obtain ⟨⟨-, hb⟩, hc⟩ := grammar_blind body dialect .hole
  obtain ⟨fuel, hfuel⟩ : ∃ fuel, depth (t :: ts) = fuel + 1 := ⟨32 * (ts.length + 1) + 31, rfl⟩
  have hdepth : depth (f t :: ts.map (Token.requote body)) = fuel + 1 := by
    rw [← hfuel]
    simp [depth]
  have hopens {u : Token} {b : Bool} (hu : u.kind = .hole b) :
      (u.kind == .hole false || u.kind == .hole true) = true := by
    cases b <;> simp [hu]
  have hproper (u : Token) (hu : (u.kind == .hole false || u.kind == .hole true) = true) :
      u.kind ≠ .comment ∧ isEnd u = false := by
    have hkind : u.kind = .hole false ∨ u.kind = .hole true := by simpa using hu
    rcases hkind with hk | hk <;> simp [isEnd, hk]
  rw [readAll, hfuel] at h
  cases hread : read (grammar dialect) (fuel + 1) .hole (.start (t :: ts)) with
  | error e =>
    rw [hread] at h
    cases h
  | ok u =>
    rw [hread] at h
    cases h
    obtain ⟨hother, hu⟩ := Rule.run_first (forward_read (grammar dialect) fuel)
      (fun g s => read_requote body f (grammar_blind body dialect) fuel g)
      hb hc hproper (hopens ht) (hopens hf) hts hread
    have hother : read (grammar dialect) (fuel + 1) .hole
        (.start (f t :: ts.map (Token.requote body))) = .ok (u.requote body f) := hother
    rw [readAll, hdepth, hother]
    simp only [State.skip_requote hu]
    simp [State.requote]

end Phrasebook.Source

import Phrasebook.Proofs.Construct
import Phrasebook.Proofs.TextBlock

/-!
The elements of a file, as its tokens nest, and as they are read. Every tree that an angle bracket
opens becomes an element, no other construct does, and the runs in an element are the blocks of
text among its children. No other construct holds a run.
-/

namespace Phrasebook.Source

open Shape

/-! ### Two texts of an element are never side by side -/

namespace Control

/-- An angle bracket in the content of an element opens a tag. -/
theorem head_of_contentAngle (markup : Bool) (s : Control) (h : s.reading = .contentAngle)
    (rest : List Char) : ∀ t ∈ (s.tokensFrom markup rest).head?, t.kind ≠ .text := by
  cases rest with
  | nil =>
      have hflush : s.flush = s.openTag := by rw [flush, h]
      simp [tokensFrom, run, finish, hflush, openTag]
  | cons c r =>
      have hstep : s.step markup c = s.stepContentAngle c := by rw [step, h]
      rw [tokensFrom_cons, hstep, stepContentAngle]
      split
      · simp
      · simp [openTag, Emission.andThen]

theorem head_of_broken (markup : Bool) (s : Control) {done : List Char} {sound : Nat}
    (h : s.reading = .broken done sound) (rest : List Char) :
    ∀ t ∈ (s.tokensFrom markup rest).head?, t.kind ≠ .text := by
  induction rest generalizing s done with
  | nil =>
      have hflush : s.flush = s.emit (.broken sound) done.reverse false := by rw [flush, h]
      simp [tokensFrom, run, finish, hflush, emit]
  | cons c r ih =>
      have hstep : s.step markup c = s.keep (.broken (c :: done) sound) := by rw [step, h]
      rw [tokensFrom_cons, hstep]
      exact ih (s.keep (.broken (c :: done) sound)).2 rfl

/-- What follows the text of an element is another token than text. -/
theorem head_of_textEnds (markup : Bool) (frames : List Frame) {rest : List Char}
    (h : TextEnds rest) :
    ∀ t ∈ ((inText frames []).tokensFrom markup rest).head?, t.kind ≠ .text := by
  cases rest with
  | nil =>
      have hfinish : (inText frames []).tokensFrom markup [] = [⟨.stop, [], []⟩] := rfl
      simp [hfinish]
  | cons c r =>
      have hc : endsText c = true := h c rfl
      have hstep : (inText frames []).step markup c = (inText frames []).stepContent [] c := rfl
      have hempty : (inText frames []).emitText .text [] = ([], inText frames []) := rfl
      rw [tokensFrom_cons, hstep, stepContent, hempty]
      split
      · exact head_of_contentAngle markup _ rfl r
      · split
        · simp [Emission.andThen, openHole]
        · split
          · exact head_of_broken markup _ rfl r
          · simp_all [endsText]

end Control

/-- Of two tokens that follow one another at most one is the text of an element. -/
def Token.Apart (t u : Token) : Prop := t.kind = .text → u.kind ≠ .text

theorem apart_tokens (markup : Bool) (text : List Char) :
    (tokens markup text).IsChain Token.Apart := by
  rw [List.isChain_iff_forall_rel_of_append_cons_cons]
  intro t u X Y h ht
  obtain ⟨kind, gap, w⟩ := t
  obtain rfl : kind = .text := ht
  obtain ⟨P, Q, frames, -, -, -, -, hQ, hY⟩ := tokens_eq_text h
  exact Control.head_of_textEnds markup frames hQ u (by rw [← hY]; rfl)

/-! ### Elements of trees -/

structure Element where
  span : Span
  children : List Child
  deriving DecidableEq, Repr

namespace Tree

/-- What a part of an element has among its children: the pieces of a text, or itself. The tokens
of its tags are no children. -/
def children (offset : Nat) : Tree → List Child
  | token t => if t.kind = .text then Child.ofPieces offset (Lexeme.pieces t.chars) else []
  | nested opening parts ending =>
      [⟨⟨offset + byteLength opening.gap, offset + (nested opening parts ending).width⟩, false⟩]

def childrenAll (offset : Nat) : List Tree → List Child
  | [] => []
  | t :: following => t.children offset ++ childrenAll (offset + t.width) following

mutual

/-- The elements in a tree that begins at an offset, what contains before what it contains. -/
def elements (offset : Nat) : Tree → List Element
  | token _ => []
  | nested opening parts ending =>
      let inner := elementsAll (offset + opening.width) parts
      match opening.kind with
      | .hole _ => inner
      | _ =>
          ⟨⟨offset + byteLength opening.gap, offset + (nested opening parts ending).width⟩,
            childrenAll (offset + opening.width) parts⟩ :: inner

def elementsAll (offset : Nat) : List Tree → List Element
  | [] => []
  | t :: following => t.elements offset ++ elementsAll (offset + t.width) following

end

@[simp] theorem elements_token (offset : Nat) (t : Token) : (token t).elements offset = [] := by
  simp [elements]

theorem elementsAll_cons (offset : Nat) (t : Tree) (ts : List Tree) :
    elementsAll offset (t :: ts) =
      t.elements offset ++ elementsAll (offset + byteLength (charsOf t.tokens)) ts := by
  simp [elementsAll, width_eq]

theorem elementsAll_append (offset : Nat) (a b : List Tree) :
    elementsAll offset (a ++ b) =
      elementsAll offset a ++ elementsAll (offset + byteLength (charsOf (tokensAll a))) b := by
  induction a generalizing offset with
  | nil => simp [elementsAll]
  | cons t a ih =>
      rw [List.cons_append, elementsAll_cons, ih, elementsAll_cons]
      simp [Nat.add_assoc]

theorem childrenAll_cons (offset : Nat) (t : Tree) (ts : List Tree) :
    childrenAll offset (t :: ts) =
      t.children offset ++ childrenAll (offset + byteLength (charsOf t.tokens)) ts := by
  simp [childrenAll, width_eq]

theorem childrenAll_append (offset : Nat) (a b : List Tree) :
    childrenAll offset (a ++ b) =
      childrenAll offset a ++ childrenAll (offset + byteLength (charsOf (tokensAll a))) b := by
  induction a generalizing offset with
  | nil => simp [childrenAll]
  | cons t a ih =>
      rw [List.cons_append, childrenAll_cons, ih, childrenAll_cons]
      simp [Nat.add_assoc]

/-- The children of an element stand one after another. -/
theorem within_childrenAll (offset : Nat) (trees : List Tree) :
    Child.Within offset (offset + byteLength (charsOf (tokensAll trees)))
      (childrenAll offset trees) := by
  induction trees generalizing offset with
  | nil => exact Child.within_nil _ _
  | cons tree trees ih =>
      rw [childrenAll_cons, tokensAll_cons, charsOf_append, byteLength_append, ← Nat.add_assoc]
      refine Child.Within.append ?_ (ih _) (Nat.le_add_right _ _) (Nat.le_add_right _ _)
      cases tree with
      | token t =>
          rw [children]
          split
          · have hpieces := Child.within_ofPieces
              (fun p (hp : p ∈ Lexeme.pieces t.chars) => Lexeme.ne_nil_of_mem_pieces hp) offset
            rw [Lexeme.flatMap_pieces] at hpieces
            simpa [Token.chars] using hpieces
          · exact Child.within_nil _ _
      | nested opening parts ending =>
          rw [children, ← width_eq]
          refine Child.within_singleton (Nat.le_add_right _ _) ?_ (by simp)
          rw [width_eq, tokens_nested, List.cons_append, charsOf_cons, byteLength_append,
            byteLength_append]
          omega

theorem isRow_of_mem_all {e : Element} {trees : List Tree}
    (h : ∀ t ∈ trees, ∀ offset, e ∈ t.elements offset → Child.IsRow e.children) (offset : Nat)
    (he : e ∈ elementsAll offset trees) : Child.IsRow e.children := by
  induction trees generalizing offset with
  | nil => simp [elementsAll] at he
  | cons t trees ih =>
      rw [elementsAll, List.mem_append] at he
      rcases he with he | he
      · exact h t (by simp) offset he
      · exact ih (fun u hu => h u (by simp [hu])) _ he

theorem isRow_of_mem_elements {e : Element} (t : Tree) :
    ∀ offset, e ∈ t.elements offset → Child.IsRow e.children := by
  induction t using induction_parts with
  | htoken t => simp
  | hnested opening parts ending ih =>
      intro offset he
      rw [elements] at he
      split at he
      · exact isRow_of_mem_all ih _ he
      · rcases List.mem_cons.1 he with rfl | he
        · exact (within_childrenAll _ parts).isRow
        · exact isRow_of_mem_all ih _ he

theorem isRow_of_mem_elementsAll {e : Element} {trees : List Tree} {offset : Nat}
    (he : e ∈ elementsAll offset trees) : Child.IsRow e.children :=
  isRow_of_mem_all (fun t _ => isRow_of_mem_elements t) offset he

/-- Where an outline shows no text there is none among the children. -/
theorem isText_of_outline {trees : List Tree} {index : Nat}
    (h : ∀ t ∈ outline index trees, t.kind ≠ .text) (offset : Nat) :
    ∀ c ∈ childrenAll offset trees, c.isText = false := by
  induction trees generalizing index offset with
  | nil => simp [childrenAll]
  | cons tree trees ih =>
      rw [outline, List.forall_mem_cons] at h
      rw [childrenAll_cons, List.forall_mem_append]
      refine ⟨?_, ih h.2 _⟩
      cases tree with
      | token t =>
          have hkind : t.kind ≠ .text := by
            intro hk
            have hrole : (token t).role? = none := by simp [role?, hk]
            have hshown := h.1
            rw [shown, hrole] at hshown
            exact hshown hk
          simp [children, hkind]
      | nested opening parts ending => simp [children]

end Tree

/-! ### Elements of nodes -/

namespace Node

def runSpan? : Node → Option Span
  | run start text => some ⟨start, start + byteLength text⟩
  | _ => none

def runSpans (ns : List Node) : List Span := ns.filterMap runSpan?

def element? : Node → Option (Span × List Span)
  | branch .element span children => some (span, runSpans children)
  | _ => none

def elementsOf (ns : List Node) : List (Span × List Span) := (preorderAll ns).filterMap element?

@[simp] theorem runSpans_nil : runSpans [] = [] := rfl

@[simp] theorem runSpans_leaf (kind : Leaf) (start : Nat) (text : List Char) (ns : List Node) :
    runSpans (leaf kind start text :: ns) = runSpans ns := rfl

@[simp] theorem runSpans_run (start : Nat) (text : List Char) (ns : List Node) :
    runSpans (run start text :: ns) = ⟨start, start + byteLength text⟩ :: runSpans ns := rfl

@[simp] theorem runSpans_branch (kind : Construct) (span : Span) (children ns : List Node) :
    runSpans (branch kind span children :: ns) = runSpans ns := rfl

@[simp] theorem runSpans_append (a b : List Node) : runSpans (a ++ b) = runSpans a ++ runSpans b :=
  List.filterMap_append

@[simp] theorem elementsOf_nil : elementsOf [] = [] := by simp [elementsOf]

@[simp] theorem elementsOf_append (a b : List Node) :
    elementsOf (a ++ b) = elementsOf a ++ elementsOf b := by
  simp [elementsOf, List.filterMap_append]

@[simp] theorem elementsOf_leaf (kind : Leaf) (start : Nat) (text : List Char) :
    elementsOf [leaf kind start text] = [] := by
  simp [elementsOf, element?]

@[simp] theorem elementsOf_run (start : Nat) (text : List Char) :
    elementsOf [run start text] = [] := by
  simp [elementsOf, element?]

theorem elementsOf_element (span : Span) (children : List Node) :
    elementsOf [branch .element span children] =
      (span, runSpans children) :: elementsOf children := by
  simp [elementsOf, element?]

theorem elementsOf_branch {kind : Construct} (h : kind ≠ .element) (span : Span)
    (children : List Node) : elementsOf [branch kind span children] = elementsOf children := by
  have hnone : element? (branch kind span children) = none := by
    cases kind <;> first | rfl | exact absurd rfl h
  simp [elementsOf, hnone]

end Node

/-! ### What the grammar reads -/

namespace Shape

/-- A shape without the text of an element, and without an element. -/
inductive IsTextless : Shape → Prop
  | token {kind : Option Leaf} {t : Token} (other : t.kind ≠ .text) : IsTextless (token kind t)
  | node {kind : Construct} {parts : List Shape} (other : kind ≠ .element)
      (inner : ∀ p ∈ parts, IsTextless p) : IsTextless (node kind parts)

theorem IsTextless.kind_ne_text {s : Shape} (h : s.IsTextless) :
    ∀ t ∈ s.tokens, t.kind ≠ .text := by
  induction h with
  | token other => simpa using other
  | node _ _ ih =>
      intro t ht
      rw [tokens_node] at ht
      obtain ⟨p, hp, htp⟩ := mem_tokensAll.1 ht
      exact ih p hp t htp

end Shape

namespace Rule

/-- A rule that does not read the token, and makes no element, nor do its goals. -/
def leaves (u : Token) : Rule Goal → Bool
  | .signs _ => !(u.kind == .sign)
  | .plain kind => !(u.kind == kind)
  | .one test => !test u
  | .leaf kind test => !(test u && kind.admits u)
  | .blockEnd => !u.closesBrace
  | .semicolon _ => !u.isSign ';'
  | .andThen a b | .orElse a b => a.leaves u && b.leaves u
  | .many a => a.leaves u
  | .node kind a | .extend kind a => kind != .element && a.leaves u
  | .done | .look _ _ | .last _ | .goal _ => true

theorem textless_comment (t : Token) (h : t.kind = .comment) :
    (token (some .comment) t).IsTextless :=
  .token (by simp [h])

theorem adds_isTextless {goal : Goal → State → Outcome} {bound : Nat}
    (hgoal : ∀ g s t, (∀ x ∈ s.shapes, x.IsTextless) → goal g s = .ok t →
      ∀ x ∈ t.shapes, x.IsTextless)
    (r : Rule Goal) (hr : ∀ u : Token, u.kind = .text → r.leaves u = true) :
    r.Adds goal bound IsTextless := by
  have htoken : ∀ (test : Token → Bool), (∀ u : Token, u.kind = .text → (!test u) = true) →
      ∀ (k : Option Leaf) (t : Token), test t = true → (token k t).IsTextless := by
    refine fun test htest k t ht => .token fun hk => ?_
    have hnot := htest t hk
    rw [ht] at hnot
    cases hnot
  induction r with
  | done | look _ _ | last _ => trivial
  | signs count => exact fun t ht => htoken (·.kind == .sign) hr none t (beq_iff_eq.2 ht)
  | plain kind => exact fun t ht => htoken (·.kind == kind) hr none t (beq_iff_eq.2 ht)
  | one test => exact htoken test hr none
  | leaf kind test =>
      exact fun t ht hadmits => htoken (fun t => test t && kind.admits t) hr (some kind) t
        (Bool.and_eq_true_iff.2 ⟨ht, hadmits⟩)
  | blockEnd => exact htoken _ hr none
  | semicolon operands => exact htoken _ hr none
  | andThen a b iha ihb | orElse a b iha ihb =>
      exact ⟨iha fun u hu => (Bool.and_eq_true_iff.1 (hr u hu)).1,
        ihb fun u hu => (Bool.and_eq_true_iff.1 (hr u hu)).2⟩
  | many a ih => exact ih hr
  | node kind a ih =>
      intro s t hs h
      have hkind := (Bool.and_eq_true_iff.1 (hr ⟨.text, [], []⟩ rfl)).1
      refine .node (bne_iff_ne.1 hkind) fun p hp => ?_
      exact forall_run textless_comment a (ih fun u hu => (Bool.and_eq_true_iff.1 (hr u hu)).2) s t
        (by simp [hs.shapes]) h p (List.mem_reverse.1 hp)
  | extend kind a ih =>
      intro s t hs h
      have hkind := (Bool.and_eq_true_iff.1 (hr ⟨.text, [], []⟩ rfl)).1
      refine .node (bne_iff_ne.1 hkind) fun p hp => ?_
      exact forall_run textless_comment a (ih fun u hu => (Bool.and_eq_true_iff.1 (hr u hu)).2) s t
        hs h p (List.mem_reverse.1 hp)
  | goal g => exact fun s t hs h => hgoal g s t hs h

end Rule

theorem grammar_leaves (dialect : Dialect) (g : Goal) {u : Token} (hu : u.kind = .text) :
    (grammar dialect g).leaves u = true := by
  obtain ⟨kind, gap, text⟩ := u
  obtain rfl : kind = .text := hu
  cases g with
  | expression typed => cases typed <;> rfl
  | pattern assigned => cases assigned <;> rfl
  | _ => cases dialect <;> rfl

theorem isTextless_read {dialect : Dialect} (fuel : Nat) :
    ∀ g s t, (∀ x ∈ s.shapes, x.IsTextless) → read (grammar dialect) fuel g s = .ok t →
      ∀ x ∈ t.shapes, x.IsTextless := by
  induction fuel with
  | zero => intro g s t _ h; cases h
  | succ fuel ih =>
      exact fun g => Rule.forall_run Rule.textless_comment _
        (Rule.adds_isTextless ih _ fun u hu => grammar_leaves dialect g hu)

/-- No text of an element is read as code, nor is an element. -/
theorem isTextless_of_readAll {dialect : Dialect} {goal : Goal} {ts : List Token}
    {shapes : List Shape} (h : readAll dialect goal ts = .ok shapes) :
    ∀ s ∈ shapes, s.IsTextless := by
  unfold readAll at h
  split at h
  · next last hread =>
    obtain rfl := Except.ok.inj h
    intro s hs
    exact Rule.forall_skip Rule.textless_comment
      (isTextless_read _ goal _ _ (by simp [State.start]) hread) s (List.mem_reverse.1 hs)
  · cases h

/-! ### Outlines with their parts put in -/

def Token.inserted (table : List (List Shape)) (t : Token) : List Shape :=
  match t.kind with
  | .nested _ index => table.getD index []
  | _ => []

def insertedElements (table : List (List Shape)) (offset : Nat) :
    List Token → List (Span × List Span)
  | [] => []
  | t :: ts =>
      Node.elementsOf (nodesAll offset (t.inserted table)) ++
        insertedElements table (offset + byteLength (charsOf (t.filled table))) ts

theorem insertedElements_append (table : List (List Shape)) (offset : Nat) (a b : List Token) :
    insertedElements table offset (a ++ b) = insertedElements table offset a ++
      insertedElements table
        (offset + byteLength (charsOf (a.flatMap (Token.filled table)))) b := by
  induction a generalizing offset with
  | nil => simp [insertedElements]
  | cons t a ih => simp [insertedElements, ih, Nat.add_assoc]

theorem insertedElements_own {table : List (List Shape)} {t : Token} (h : t.IsOwn) (offset : Nat)
    (ts : List Token) :
    insertedElements table offset (t :: ts) =
      insertedElements table (offset + byteLength t.chars) ts := by
  have hnone : t.inserted table = [] := by
    unfold Token.inserted
    split
    · next hk => exact absurd hk (h _ _)
    · rfl
  rw [insertedElements, hnone, h.filled_eq]
  simp [Token.chars]

namespace Shape

theorem elementsOf_of_not_isNode {ss : List Shape} (h : ∀ s ∈ ss, s.isNode = false)
    (offset : Nat) : Node.elementsOf (nodesAll offset ss) = [] := by
  induction ss generalizing offset with
  | nil => simp
  | cons s ss ih =>
      rw [nodesAll_cons, Node.elementsOf_append, ih fun u hu => h u (by simp [hu])]
      cases s with
      | token kind t => cases kind <;> simp [nodes]
      | run t => simp [nodes]
      | node kind parts => cases h (.node kind parts) (by simp)

theorem elementsOf_fillAll_of {table : List (List Shape)} {ss : List Shape}
    (hcode : ∀ s ∈ ss, s.IsCode)
    (h : ∀ s ∈ ss, ∀ offset, Node.elementsOf (nodesAll offset (s.fill table)) =
      insertedElements table offset s.tokens) (offset : Nat) :
    Node.elementsOf (nodesAll offset (fillAll table ss)) =
      insertedElements table offset (tokensAll ss) := by
  induction ss generalizing offset with
  | nil => simp [insertedElements]
  | cons s ss ih =>
      rw [fillAll_cons, nodesAll_append, Node.elementsOf_append, tokensAll_cons,
        insertedElements_append, h s (by simp), (hcode s (by simp)).tokensAll_fill,
        ih (fun u hu => hcode u (by simp [hu])) fun u hu => h u (by simp [hu])]

theorem IsTextless.elementsOf_fill {table : List (List Shape)} {s : Shape} (h : s.IsTextless)
    (hcode : s.IsCode) (offset : Nat) :
    Node.elementsOf (nodesAll offset (s.fill table)) = insertedElements table offset s.tokens := by
  induction hcode generalizing offset with
  | @token kind leaf t admitted =>
      by_cases hown : t.IsOwn
      · rw [fill_of_isOwn hown, elementsOf_of_not_isNode (List.forall_mem_singleton.2 rfl),
          tokens_token, insertedElements_own hown]
        rfl
      · obtain ⟨role, index, hk⟩ : ∃ role index, t.kind = .nested role index := by
          simpa [Token.IsOwn] using hown
        simp [fill, insertedElements, Token.inserted, hk]
  | @node kind parts made visible inner ih =>
      cases h with
      | node other textless =>
          rw [fill_node, nodesAll_cons, nodes_node, nodesAll_nil, List.append_nil,
            Node.elementsOf_branch other, tokens_node]
          exact elementsOf_fillAll_of inner (fun s hs => ih s hs (textless s hs)) offset

/-- All elements in what is read are in its parts. -/
theorem elementsOf_fillAll {table : List (List Shape)} {ss : List Shape}
    (hcode : ∀ s ∈ ss, s.IsCode) (h : ∀ s ∈ ss, s.IsTextless) (offset : Nat) :
    Node.elementsOf (nodesAll offset (fillAll table ss)) =
      insertedElements table offset (tokensAll ss) :=
  elementsOf_fillAll_of hcode (fun s hs => (h s hs).elementsOf_fill (hcode s hs)) offset

/-! ### Where runs stand -/

/-- The run of an element text is the block that the pieces of the text are. -/
theorem runSpans_ofText (offset : Nat) (text : List Char) :
    Node.runSpans (nodesAll offset (ofText text)) =
      Child.textSpans (Child.ofPieces offset (Lexeme.pieces text)) := by
  have hlayout : ∀ (offset : Nat) (layout : List Char),
      Node.runSpans (nodesAll offset (stretch (token none) layout)) = [] := by
    intro offset layout
    unfold stretch
    split
    · simp
    · simp [nodesAll_cons, nodes]
  rw [ofText_eq, nodesAll_append, nodesAll_append, Node.runSpans_append, Node.runSpans_append,
    hlayout, hlayout, List.nil_append, List.append_nil, stretch_chars _ (by simp),
    Child.textSpans_pieces]
  unfold stretch
  split
  · simp
  · simp [nodesAll_cons, nodes]

def isRun : Shape → Bool
  | run _ => true
  | _ => false

/-- A shape in which every run is a part of an element. -/
inductive Housed : Shape → Prop
  | token (kind : Option Leaf) (t : Token) : Housed (token kind t)
  | run (t : Token) : Housed (run t)
  | element {parts : List Shape} (inner : ∀ p ∈ parts, Housed p) : Housed (node .element parts)
  | node {kind : Construct} {parts : List Shape} (runless : ∀ p ∈ parts, p.isRun = false)
      (inner : ∀ p ∈ parts, Housed p) : Housed (node kind parts)

theorem housed_of_not_isNode {s : Shape} (h : s.isNode = false) : s.Housed := by
  cases s with
  | token kind t => exact .token kind t
  | run t => exact .run t
  | node kind parts => cases h

/-- A shape that may stand in any construct. -/
def Homely (s : Shape) : Prop := s.Housed ∧ s.isRun = false

theorem IsCode.homely_fill {table : List (List Shape)} {s : Shape} (hs : s.IsCode)
    (h : ∀ t ∈ s.tokens, ∀ x ∈ t.inserted table, x.Homely) : ∀ x ∈ s.fill table, x.Homely := by
  induction hs with
  | @token kind leaf t admitted =>
      by_cases hown : t.IsOwn
      · rw [fill_of_isOwn hown]
        exact List.forall_mem_singleton.2 ⟨.token kind t, rfl⟩
      · obtain ⟨role, index, hk⟩ : ∃ role index, t.kind = .nested role index := by
          simpa [Token.IsOwn] using hown
        simpa [fill, Token.inserted, hk] using h t (by simp)
  | @node kind parts made visible inner ih =>
      rw [fill_node]
      have hparts : ∀ x ∈ fillAll table parts, x.Homely := by
        intro x hx
        obtain ⟨p, hp, hx⟩ := mem_fillAll.1 hx
        refine ih p hp (fun t ht => h t ?_) x hx
        rw [tokens_node]
        exact mem_tokensAll.2 ⟨p, hp, ht⟩
      exact List.forall_mem_singleton.2
        ⟨.node (fun p hp => (hparts p hp).2) fun p hp => (hparts p hp).1, rfl⟩

theorem runSpans_eq_nil {ss : List Shape} (h : ∀ s ∈ ss, s.isRun = false) (offset : Nat) :
    Node.runSpans (nodesAll offset ss) = [] := by
  induction ss generalizing offset with
  | nil => simp
  | cons s ss ih =>
      rw [nodesAll_cons, Node.runSpans_append, ih fun u hu => h u (by simp [hu])]
      cases s with
      | token kind t => cases kind <;> simp [nodes]
      | run t => cases h (.run t) (by simp)
      | node kind parts => simp [nodes]

theorem runs_perm_of {ss : List Shape}
    (h : ∀ s ∈ ss, ∀ offset, (Node.runSpans (Node.preorderAll (s.nodes offset))).Perm
      (Node.runSpans (s.nodes offset) ++ (Node.elementsOf (s.nodes offset)).flatMap Prod.snd))
    (offset : Nat) :
    (Node.runSpans (Node.preorderAll (nodesAll offset ss))).Perm
      (Node.runSpans (nodesAll offset ss) ++
        (Node.elementsOf (nodesAll offset ss)).flatMap Prod.snd) := by
  induction ss generalizing offset with
  | nil => simp
  | cons s ss ih =>
      rw [nodesAll_cons, Node.preorderAll_append, Node.runSpans_append, Node.runSpans_append,
        Node.elementsOf_append, List.flatMap_append]
      have hfirst := h s (by simp) offset
      have hrest := ih (fun u hu => h u (by simp [hu])) (offset + byteLength (charsOf s.tokens))
      refine (hfirst.append hrest).trans ?_
      rw [List.perm_iff_count]
      intro span
      simp only [List.count_append]
      omega

/-- All runs of shapes in a row are those in the row itself and those in its elements. -/
theorem runs_perm {ss : List Shape} (h : ∀ s ∈ ss, s.Housed) (offset : Nat) :
    (Node.runSpans (Node.preorderAll (nodesAll offset ss))).Perm
      (Node.runSpans (nodesAll offset ss) ++
        (Node.elementsOf (nodesAll offset ss)).flatMap Prod.snd) := by
  refine runs_perm_of (fun s hs offset => ?_) offset
  have hhoused := h s hs
  clear h hs
  induction hhoused generalizing offset with
  | token kind t => cases kind <;> simp [nodes]
  | run t => simp [nodes]
  | element inner ih =>
      have hinner := runs_perm_of ih offset
      rw [nodes_node, Node.elementsOf_element]
      simpa using hinner
  | @node kind parts runless inner ih =>
      have hinner := runs_perm_of ih offset
      rw [nodes_node]
      by_cases hkind : kind = .element
      · rw [hkind, Node.elementsOf_element]
        simpa using hinner
      · rw [Node.elementsOf_branch hkind]
        rw [runSpans_eq_nil runless, List.nil_append] at hinner
        simpa using hinner

end Shape

/-! ### Reading parts -/

/-- What is kept of an element when its nodes are compared: its span, and those of its texts. -/
def Element.outline (e : Element) : Span × List Span := (e.span, Child.textSpans e.children)

/-- Shapes of trees in a row: their elements are those of the trees, and their runs are in them. -/
structure Mirrored (trees : List Tree) (ss : List Shape) : Prop where
  homely : ∀ s ∈ ss, s.Homely
  elements : ∀ offset, Node.elementsOf (nodesAll offset ss) =
    (Tree.elementsAll offset trees).map Element.outline

namespace Part

/-- A part that mirrors its tree if it reads. Only the text of an element is read as a run. -/
structure Mirrors (p : Part) : Prop where
  faithful : p.Faithful
  proper : p.1.first.isProper = true
  token : ∀ t, p.1 = .token t → p.2 = .ok (Tree.tokenShapes t)
  housed : ∀ shapes, p.2 = .ok shapes → ∀ s ∈ shapes, s.Housed
  runless : p.1.role?.isSome = true → ∀ shapes, p.2 = .ok shapes → ∀ s ∈ shapes, s.isRun = false
  elements : ∀ shapes, p.2 = .ok shapes → ∀ offset,
    Node.elementsOf (nodesAll offset shapes) = (p.1.elements offset).map Element.outline

variable {dialect : Dialect} {result : List Shape} {parts : List Part} {found : List (List Shape)}

theorem charsOf_shapes {p : Part} (h : p.Mirrors) {shapes : List Shape} (hp : p.2 = .ok shapes) :
    charsOf (tokensAll shapes) = charsOf p.1.tokens :=
  (h.faithful.recut shapes hp).chars

theorem homely_outline (h : ∀ p ∈ parts, p.Mirrors) (hfound : shapes parts = .ok found)
    (after : List (List Shape)) :
    ∀ t ∈ Tree.outline 0 (parts.map Prod.fst), ∀ x ∈ t.inserted (found ++ after), x.Homely := by
  intro t ht x hx
  unfold Token.inserted at hx
  split at hx
  · next role index hk =>
    obtain ⟨p, hp, hrole, hshapes⟩ :=
      exists_of_mem_outline (fun p hp => (h p hp).faithful.own) hfound after ht hk
    exact ⟨(h p hp).housed _ hshapes x hx, (h p hp).runless (by simp [hrole]) _ hshapes x hx⟩
  · cases hx

theorem insertedElements_outline (h : ∀ p ∈ parts, p.Mirrors) (hfound : shapes parts = .ok found)
    (before after : List (List Shape)) (offset : Nat) :
    insertedElements (before ++ found ++ after) offset
        (Tree.outline before.length (parts.map Prod.fst)) =
      (Tree.elementsAll offset (parts.map Prod.fst)).map Element.outline := by
  rw [shapes_eq_ok] at hfound
  induction parts generalizing before found offset with
  | nil => simp [Tree.outline, insertedElements, Tree.elementsAll]
  | cons p parts ih =>
      obtain ⟨shapes, found, rfl, hp, hparts⟩ := List.map_eq_cons_iff.1 hfound.symm
      have hget : (before ++ shapes :: found ++ after).getD before.length [] = shapes := by simp
      have hlater := ih (fun q hq => h q (by simp [hq])) hparts.symm (before ++ [shapes])
        (offset + byteLength (charsOf p.1.tokens))
      rw [List.length_append, List.length_singleton, List.append_assoc before,
        List.singleton_append] at hlater
      have hmirrors := h p (by simp)
      rw [List.map_cons, Tree.outline, Tree.elementsAll_cons, List.map_append, ← hlater, Tree.shown]
      cases hrole : p.1.role? with
      | none =>
          have hown := hmirrors.faithful.own
          have hnone : p.1.elements offset = [] := by
            rw [Tree.eq_token_of_role? hrole, Tree.elements_token]
          have hchars : charsOf p.1.tokens = p.1.first.chars := by
            conv => lhs; rw [Tree.eq_token_of_role? hrole]
            simp [Token.chars]
          simp only
          rw [hnone, insertedElements_own hown, hchars, List.map_nil, List.nil_append]
      | some role =>
          rw [insertedElements, ← hmirrors.elements shapes hp.symm offset]
          simp only [Token.inserted, Token.filled]
          rw [hget, charsOf_shapes hmirrors hp.symm]

/-- What is read from an outline mirrors the trees of the outline. -/
theorem mirrored_of_outline (h : ∀ p ∈ parts, p.Mirrors) (hfound : shapes parts = .ok found)
    {goal : Goal} {ts : List Token} {read : List Shape} (hread : readAll dialect goal ts = .ok read)
    (htokens : tokensAll read = Tree.outline 0 (parts.map Prod.fst)) (after : List (List Shape)) :
    Mirrored (parts.map Prod.fst) (fillAll (found ++ after) read) := by
  have hcode := (readAll_ok hread).2
  refine ⟨fun x hx => ?_, fun offset => ?_⟩
  · obtain ⟨s, hs, hx⟩ := mem_fillAll.1 hx
    refine (hcode s hs).homely_fill (fun t ht => ?_) x hx
    refine homely_outline h hfound after t ?_
    rw [← htokens]
    exact mem_tokensAll.2 ⟨s, hs, ht⟩
  · rw [elementsOf_fillAll hcode (isTextless_of_readAll hread), htokens]
    exact insertedElements_outline h hfound [] after offset

theorem mirrored_of_readAs {goal : Goal} (hgoal : goal.TakesAll) (h : ∀ p ∈ parts, p.Mirrors)
    (hread : readAs dialect goal parts = .ok result) : Mirrored (parts.map Prod.fst) result := by
  obtain ⟨read, table, hshown, htable, rfl, htokens⟩ :=
    Part.exists_shown hgoal (fun p hp => (h p hp).proper) hread
  have hmirrored := mirrored_of_outline h htable hshown htokens []
  rwa [List.append_nil] at hmirrored

/-- No text is read as part of a tag. -/
theorem isText_of_readAs {goal : Goal} (hgoal : goal.TakesAll) (h : ∀ p ∈ parts, p.Mirrors)
    (hread : readAs dialect goal parts = .ok result) (offset : Nat) :
    ∀ c ∈ Tree.childrenAll offset (parts.map Prod.fst), c.isText = false := by
  obtain ⟨read, table, hshown, -, -, htokens⟩ :=
    Part.exists_shown hgoal (fun p hp => (h p hp).proper) hread
  have hkind : ∀ t ∈ Tree.outline 0 (parts.map Prod.fst), t.kind ≠ .text := by
    rw [← htokens]
    intro t ht
    obtain ⟨s, hs, hts⟩ := mem_tokensAll.1 ht
    exact (isTextless_of_readAll hshown s hs).kind_ne_text t hts
  exact Tree.isText_of_outline hkind offset

/-! ### Content -/

theorem elementsOf_shapes (h : ∀ p ∈ parts, p.Mirrors) (hfound : shapes parts = .ok found)
    (offset : Nat) : Node.elementsOf (nodesAll offset found.flatten) =
      (Tree.elementsAll offset (parts.map Prod.fst)).map Element.outline := by
  rw [shapes_eq_ok] at hfound
  induction parts generalizing found offset with
  | nil =>
      obtain rfl := List.map_eq_nil_iff.1 hfound.symm
      simp [Tree.elementsAll]
  | cons p parts ih =>
      obtain ⟨shapes, found, rfl, hp, hparts⟩ := List.map_eq_cons_iff.1 hfound.symm
      have hmirrors := h p (by simp)
      rw [List.flatten_cons, nodesAll_append, Node.elementsOf_append, List.map_cons,
        Tree.elementsAll_cons, List.map_append, hmirrors.elements shapes hp.symm,
        charsOf_shapes hmirrors hp.symm, ih (fun q hq => h q (by simp [hq])) hparts.symm]

theorem housed_of_shapes (h : ∀ p ∈ parts, p.Mirrors) (hfound : shapes parts = .ok found) :
    ∀ s ∈ found.flatten, s.Housed := by
  intro s hs
  obtain ⟨ss, hss, hs⟩ := List.mem_flatten.1 hs
  have hmem : (.ok ss : Except Fault (List Shape)) ∈ parts.map Prod.snd := by
    rw [shapes_eq_ok.1 hfound]
    exact List.mem_map_of_mem hss
  obtain ⟨p, hp, hps⟩ := List.mem_map.1 hmem
  exact (h p hp).housed ss hps s hs

/-- What comes first after a text among the parts of an element is no text. -/
theorem isText_head {t : Token} (ht : t.kind = .text) (hcontent : ∀ p ∈ parts, isContent p = true)
    (hapart : (t :: Tree.tokensAll (parts.map Prod.fst)).IsChain Token.Apart) (offset : Nat) :
    ∀ c ∈ (Tree.childrenAll offset (parts.map Prod.fst)).head?, c.isText = false := by
  cases parts with
  | nil => simp [Tree.childrenAll]
  | cons p parts =>
      obtain ⟨tree, found⟩ := p
      cases tree with
      | token u =>
          have hu : u.kind = .text := by
            simpa [isContent] using hcontent (.token u, found) (by simp)
          simp only [List.map_cons, Tree.tokensAll_cons, Tree.tokens_token, List.singleton_append,
            List.isChain_cons_cons] at hapart
          exact absurd hu (hapart.1 ht)
      | nested opening inner ending => simp [Tree.childrenAll_cons, Tree.children]

/-- The runs between the tags of an element are the blocks of text there. -/
theorem runSpans_content (h : ∀ p ∈ parts, p.Mirrors) (hfound : shapes parts = .ok found)
    (hcontent : ∀ p ∈ parts, isContent p = true)
    (hapart : (Tree.tokensAll (parts.map Prod.fst)).IsChain Token.Apart) (offset : Nat) :
    Node.runSpans (nodesAll offset found.flatten) =
      Child.textSpans (Tree.childrenAll offset (parts.map Prod.fst)) := by
  rw [shapes_eq_ok] at hfound
  induction parts generalizing found offset with
  | nil =>
      obtain rfl := List.map_eq_nil_iff.1 hfound.symm
      simp [Tree.childrenAll, Child.textSpans, Child.blocks]
  | cons p parts ih =>
      obtain ⟨shapes, found, rfl, hp, hparts⟩ := List.map_eq_cons_iff.1 hfound.symm
      have hmirrors := h p (by simp)
      have hrest := hapart
      rw [List.map_cons, Tree.tokensAll_cons] at hrest
      rw [List.flatten_cons, nodesAll_append, Node.runSpans_append, List.map_cons,
        Tree.childrenAll_cons, charsOf_shapes hmirrors hp.symm, ih (fun q hq => h q (by simp [hq]))
        hparts.symm (fun q hq => hcontent q (by simp [hq])) hrest.right_of_append]
      obtain ⟨tree, result⟩ := p
      cases tree with
      | token t =>
          have ht : t.kind = .text := by
            simpa [isContent] using hcontent (.token t, result) (by simp)
          have hshapes := hmirrors.token t rfl
          rw [← hp, Tree.tokenShapes, ht] at hshapes
          obtain rfl := Except.ok.inj hshapes
          have hchildren : (Tree.token t).children offset =
              Child.ofPieces offset (Lexeme.pieces t.chars) := if_pos ht
          rw [hchildren, runSpans_ofText, Child.textSpans, Child.textSpans, Child.textSpans,
            Child.blocks_append, List.map_append]
          intro x _ y hy
          rw [isText_head ht (fun q hq => hcontent q (by simp [hq])) hrest _ y hy, Bool.and_false]
      | nested opening inner ending =>
          obtain ⟨role, hrole⟩ := Tree.role?_nested opening inner ending
          have hrunless := hmirrors.runless (by simp [hrole]) shapes hp.symm
          rw [runSpans_eq_nil hrunless, List.nil_append, Tree.children, List.singleton_append,
            Child.textSpans, Child.textSpans, Child.blocks_other rfl]

/-! ### Elements -/

structure IsElement (trees : List Tree) (own : List Shape) : Prop where
  housed : ∀ s ∈ own, s.Housed
  texts : ∀ offset, Node.runSpans (nodesAll offset own) =
    Child.textSpans (Tree.childrenAll offset trees)
  elements : ∀ offset, Node.elementsOf (nodesAll offset own) =
    (Tree.elementsAll offset trees).map Element.outline

theorem isElement_of_readElement (h : ∀ p ∈ parts, p.Mirrors)
    (hapart : (Tree.tokensAll (parts.map Prod.fst)).IsChain Token.Apart)
    (hread : readElement dialect parts = .ok result) :
    ∃ own, result = [.node .element own] ∧ IsElement (parts.map Prod.fst) own := by
  by_cases hend : ∃ p ∈ parts, endsTag p = true
  · obtain ⟨p, hp, ht⟩ := hend
    obtain ⟨c, hc, rfl⟩ := Cut.exists_valid hp ht
    obtain ⟨tag, content, htag, hcontent, rfl⟩ := (readElement_cut hc).1 hread
    obtain ⟨inner, closing, hinner, hclosing, rfl⟩ := (readContent_cut hc).1 hcontent
    have hrow : c.row.map Prod.fst = (c.opening ++ [c.tagEnd]).map Prod.fst ++
        (c.content.map Prod.fst ++ c.closing.map Prod.fst) := by simp [Cut.row]
    have hopens : ∀ p ∈ c.opening ++ [c.tagEnd], p.Mirrors := fun p hp => h p (by
      rcases List.mem_append.1 hp with hp | hp <;> simp_all [Cut.row])
    have hcontains : ∀ p ∈ c.content, p.Mirrors := fun p hp => h p (by simp [Cut.row, hp])
    have hcloses : ∀ p ∈ c.closing, p.Mirrors := fun p hp => h p (by simp [Cut.row, hp])
    rw [hrow, Tree.tokensAll_append, Tree.tokensAll_append] at hapart
    have hleft := mirrored_of_readAs (by simp [Goal.TakesAll]) hopens htag
    have hright := mirrored_of_readAs (by simp [Goal.TakesAll]) hcloses hclosing
    have htagChars := (readAs_recut (by simp [Goal.TakesAll])
      (fun p hp => ⟨(hopens p hp).faithful, (hopens p hp).proper⟩) htag).chars
    have hinnerChars := (shapes_recut (fun p hp => (hcontains p hp).faithful) hinner).chars
    refine ⟨_, rfl, ?_, fun offset => ?_, fun offset => ?_⟩
    · simp only [List.forall_mem_append]
      exact ⟨fun s hs => (hleft.homely s hs).1, housed_of_shapes hcontains hinner,
        fun s hs => (hright.homely s hs).1⟩
    · rw [hrow, nodesAll_append, nodesAll_append, Node.runSpans_append, Node.runSpans_append,
        runSpans_eq_nil fun s hs => (hleft.homely s hs).2,
        runSpans_eq_nil fun s hs => (hright.homely s hs).2, List.nil_append, List.append_nil,
        runSpans_content hcontains hinner hc.content hapart.right_of_append.left_of_append,
        Tree.childrenAll_append, Tree.childrenAll_append, htagChars, Child.textSpans,
        Child.textSpans, Child.blocks_between
          (isText_of_readAs (by simp [Goal.TakesAll]) hopens htag _)
          (isText_of_readAs (by simp [Goal.TakesAll]) hcloses hclosing _)]
    · rw [hrow, nodesAll_append, nodesAll_append, Node.elementsOf_append, Node.elementsOf_append,
        hleft.elements, hright.elements, elementsOf_shapes hcontains hinner, htagChars, hinnerChars,
        Tree.elementsAll_append, Tree.elementsAll_append]
      simp only [List.map_append]
  · have hall : ∀ p ∈ parts, endsTag p = false := by simpa using hend
    obtain ⟨tag, htag, rfl⟩ := (readElement_simple hall).1 hread
    have hmirrored := mirrored_of_readAs (by simp [Goal.TakesAll]) h htag
    refine ⟨tag, rfl, fun s hs => (hmirrored.homely s hs).1, fun offset => ?_, hmirrored.elements⟩
    rw [runSpans_eq_nil fun s hs => (hmirrored.homely s hs).2, Child.textSpans,
      Child.blocks_eq_nil (isText_of_readAs (by simp [Goal.TakesAll]) h htag offset)]
    rfl

end Part

namespace Tree

variable {dialect : Dialect}

/-! ### Trees -/

theorem elementsAll_row (offset : Nat) (opening : Token) (parts : List Tree)
    (ending : Option Token) :
    elementsAll offset (token opening :: parts ++ ending.toList.map token) =
      elementsAll (offset + opening.width) parts := by
  rw [List.cons_append, elementsAll_cons, elementsAll_append, elements_token, List.nil_append]
  cases ending <;> simp [elementsAll, Token.width]

/-- What opens and what closes an element are no children of it. -/
theorem childrenAll_row {opening : Token} (hopening : opening.kind ≠ .text) {ending : Option Token}
    (hending : ∀ e ∈ ending, e.kind ≠ .text) (offset : Nat) (parts : List Tree) :
    childrenAll offset (token opening :: parts ++ ending.toList.map token) =
      childrenAll (offset + opening.width) parts := by
  have hnone : ∀ (t : Token) (offset : Nat), t.kind ≠ .text → (token t).children offset = [] :=
    fun t offset ht => if_neg ht
  rw [List.cons_append, childrenAll_cons, childrenAll_append, hnone opening offset hopening,
    List.nil_append]
  cases ending with
  | none => simp [childrenAll, Token.width]
  | some e => simp [childrenAll, hnone e _ (hending e rfl), Token.width]

theorem elements_nested {opening : Token} (h : ∀ value, opening.kind ≠ .hole value)
    (parts : List Tree) (ending : Option Token) (offset : Nat) :
    (nested opening parts ending).elements offset =
      ⟨⟨offset + byteLength opening.gap, offset + (nested opening parts ending).width⟩,
        childrenAll (offset + opening.width) parts⟩ ::
        elementsAll (offset + opening.width) parts := by
  rw [elements]
  split
  · next hk => exact absurd hk (h _)
  · rfl

theorem kind_ne_text_of_formed {whole top : Bool} {opening : Token} {parts : List Tree}
    {ending : Option Token} (h : Formed whole top (nested opening parts ending)) :
    opening.kind ≠ .text ∧ ∀ e ∈ ending, e.kind ≠ .text := by
  cases h with
  | nested proper opens closes isWhole inner =>
      refine ⟨fun hk => ?_, fun e he hk => ?_⟩
      · rw [hk] at opens
        cases opens
      · have hcloses := (closes e he).2
        rw [hk] at hcloses
        cases hcloses

theorem isNode_tokenShapes (t : Token) : ∀ s ∈ tokenShapes t, s.isNode = false := by
  have hstretch : ∀ (form : Token → Shape) (_ : ∀ t, (form t).isNode = false) (text : List Char),
      ∀ s ∈ stretch form text, s.isNode = false := by
    intro form hform text s hs
    unfold stretch at hs
    split at hs
    · cases hs
    · rw [List.mem_singleton.1 hs]
      exact hform _
  unfold tokenShapes
  split
  · rw [ofText_eq, List.forall_mem_append, List.forall_mem_append]
    exact ⟨⟨hstretch _ (fun _ => rfl) _, hstretch _ (fun _ => rfl) _⟩, hstretch _ (fun _ => rfl) _⟩
  · exact List.forall_mem_singleton.2 rfl
  · exact List.forall_mem_singleton.2 rfl

theorem apart_of_mem {t : Tree} {trees : List Tree} (ht : t ∈ trees)
    (h : (tokensAll trees).IsChain Token.Apart) : t.tokens.IsChain Token.Apart := by
  obtain ⟨before, after, rfl⟩ := List.append_of_mem ht
  rw [tokensAll_append, tokensAll_cons] at h
  exact h.right_of_append.left_of_append

theorem mirrors_token {t : Token} (h : t.isProper = true) :
    Part.Mirrors (token t, (token t).read dialect) := by
  have hattribute : (token t).role?.isSome = true → t.kind = .attribute := by
    intro hrole
    by_contra hne
    simp [role?, hne] at hrole
  have hshapes : ∀ shapes, (token t).read dialect = .ok shapes → shapes = tokenShapes t := by
    intro shapes hs
    rw [read_token] at hs
    exact (Except.ok.inj hs).symm
  refine ⟨faithful_token (Token.isOwn_of_isProper h), h, ?_, ?_, ?_, ?_⟩
  · intro u hu
    obtain rfl := Tree.token.inj hu
    show (token t).read dialect = .ok (tokenShapes t)
    rw [read_token]
  · intro shapes hs s hmem
    rw [hshapes shapes hs] at hmem
    exact housed_of_not_isNode (isNode_tokenShapes t s hmem)
  · intro hrole shapes hs
    rw [hshapes shapes hs, tokenShapes, hattribute hrole]
    exact List.forall_mem_singleton.2 rfl
  · intro shapes hs offset
    rw [hshapes shapes hs, elementsOf_of_not_isNode (isNode_tokenShapes t), elements_token]
    rfl

/-- What a tree reads as mirrors the tree. -/
theorem mirrors_read {top : Bool} {t : Tree} (hformed : Formed true top t)
    (hapart : t.tokens.IsChain Token.Apart) : Part.Mirrors (t, t.read dialect) := by
  induction t using induction_parts generalizing top with
  | htoken t => exact mirrors_token hformed.first_isProper
  | hnested opening parts ending ih =>
      have hrow : ∀ p ∈ row opening (readEach dialect parts) ending, p.Mirrors := by
        rw [row_eq_readEach, readEach_eq_map]
        intro p hp
        obtain ⟨t, ht, rfl⟩ := List.mem_map.1 hp
        obtain ⟨hproper, ⟨hmem, hform⟩ | htoken⟩ := formed_row hformed t ht
        · refine ih t hmem hform (apart_of_mem ht ?_)
          rwa [tokensAll_row]
        · rw [htoken]
          exact mirrors_token hproper
      have hchain : (tokensAll ((row opening (readEach dialect parts) ending).map Prod.fst)).IsChain
          Token.Apart := by
        rwa [row_fst, tokensAll_row]
      have hshapes : ∀ shapes, (nested opening parts ending).read dialect = .ok shapes →
          (∀ s ∈ shapes, s.Homely) ∧ ∀ offset, Node.elementsOf (nodesAll offset shapes) =
            ((nested opening parts ending).elements offset).map Element.outline := by
        intro shapes hs
        have hrecut := (faithful_read hformed).recut shapes hs
        rw [read_nested, readNested] at hs
        split at hs
        · next value hk =>
          have hmirrored := Part.mirrored_of_readAs (by simp [Goal.TakesAll]) hrow hs
          rw [row_fst] at hmirrored
          refine ⟨hmirrored.homely, fun offset => ?_⟩
          rw [hmirrored.elements, elementsAll_row, elements, hk]
        · next hk =>
          obtain ⟨own, rfl, helement⟩ := Part.isElement_of_readElement hrow hchain hs
          rw [row_fst] at helement
          refine ⟨List.forall_mem_singleton.2 ⟨.element helement.housed, rfl⟩, fun offset => ?_⟩
          obtain ⟨hopening, hending⟩ := kind_ne_text_of_formed hformed
          rw [Shape.tokensAll_cons, tokens_node, Shape.tokensAll_nil, List.append_nil] at hrecut
          have hwidth := congrArg byteLength hrecut.chars
          rw [tokens_nested] at hrecut
          obtain ⟨later, hlater⟩ := Recut.eq_cons hrecut hopening
          have hlead : leadOf (Shape.tokensAll own) = byteLength opening.gap := by rw [hlater]; rfl
          rw [nodesAll_cons, nodes_node, nodesAll_nil, List.append_nil, Node.elementsOf_element,
            helement.texts, helement.elements, elementsAll_row, childrenAll_row hopening hending,
            elements_nested hk, List.map_cons, hlead, hwidth, ← Tree.width_eq]
          rfl
      refine ⟨faithful_read hformed, hformed.first_isProper, ?_,
        fun shapes hs s hmem => ((hshapes shapes hs).1 s hmem).1,
        fun _ shapes hs s hmem => ((hshapes shapes hs).1 s hmem).2,
        fun shapes hs => (hshapes shapes hs).2⟩
      intro t ht
      cases ht

/-! ### Files -/

theorem mirrored_of_section {body : List Tree} (hbody : ∀ t ∈ body, Formed true true t)
    (hapart : (tokensAll body).IsChain Token.Apart) {e : Token} (he : isEnd e = true)
    {result : List Shape}
    (hread : Part.readAs dialect .section (readEach dialect (body ++ [token e])) = .ok result) :
    Mirrored body result := by
  obtain ⟨read, found, last, hshown, hfound, rfl, htokens⟩ :=
    exists_shown_section (fun t ht => (hbody t ht).first_isProper) he hread
  have hmirrors : ∀ p ∈ readEach dialect body, p.Mirrors := by
    intro p hp
    rw [readEach_eq_map] at hp
    obtain ⟨t, ht, rfl⟩ := List.mem_map.1 hp
    exact mirrors_read (hbody t ht) (apart_of_mem ht hapart)
  have hmirrored := Part.mirrored_of_outline hmirrors hfound hshown (by rwa [readEach_fst]) last
  rwa [readEach_fst] at hmirrored

theorem mirrored_of_readSections {first : List Tree} {others : List (List Tree)}
    (hothers : ∀ l ∈ others, Imports l) {trees : List Tree} {stop : Token}
    (hstop : isEnd stop = true) (hflat : (first :: others).flatten = trees ++ [token stop])
    (hformed : ∀ t ∈ trees, Formed true true t) (hapart : (tokensAll trees).IsChain Token.Apart)
    {offset : Nat} {nodes : List Node}
    (h : readSections dialect offset (first :: others) = .ok nodes) :
    ∃ shapes, nodes = nodesAll offset shapes ∧ Mirrored trees shapes := by
  induction others generalizing first trees offset nodes with
  | nil =>
      obtain rfl : first = trees ++ [token stop] := by simpa using hflat
      rw [readSections] at h
      split at h
      · cases h
      · next shapes hshapes =>
        simp only [border, List.append_nil] at hshapes
        refine ⟨shapes, ?_, mirrored_of_section hformed hapart hstop hshapes⟩
        simpa [readSections, Except.map] using h.symm
  | cons second others ih =>
      obtain ⟨himport, hlaterImports⟩ := List.forall_mem_cons.1 hothers
      obtain ⟨t, second, rfl, ht⟩ := himport
      obtain ⟨later, rfl, hlater⟩ := later_of_flatten hflat
      rw [tokensAll_append] at hapart
      rw [readSections] at h
      split at h
      · cases h
      · next shapes hshapes =>
        have hborder : isEnd ⟨.border, t.gap, []⟩ = true := rfl
        simp only [border, gap, Tree.first] at hshapes
        have hfirst : ∀ u ∈ first, Formed true true u := fun u hu => hformed u (by simp [hu])
        have hsection := mirrored_of_section hfirst hapart.left_of_append hborder hshapes
        have hchars := (section_recut hfirst hborder hshapes).chars
        cases hrest : readSections dialect (offset + addUp (first.map Tree.width))
            ((token t :: second) :: others) with
        | error f => simp [hrest, Except.map] at h
        | ok rest =>
            obtain ⟨after, rfl, hafter⟩ := ih hlaterImports hlater
              (fun u hu => hformed u (by simp [hu])) hapart.right_of_append hrest
            refine ⟨shapes ++ after, ?_, ?_, fun offset => ?_⟩
            · rw [hrest] at h
              rw [nodesAll_append, hchars, ← addUp_width]
              simpa [Except.map] using h.symm
            · exact List.forall_mem_append.2 ⟨hsection.homely, hafter.homely⟩
            · rw [nodesAll_append, Node.elementsOf_append, hsection.elements, hafter.elements,
                hchars, elementsAll_append, List.map_append]

end Tree

/-- The elements of a text, as its tokens nest. -/
def elements (dialect : Dialect) (text : List Char) : List Element :=
  Tree.elementsAll 0 (Tree.ofTokens (tokens (dialect == .markup) text))

/-- A file that reads has the elements of its text, and all its runs are in them. -/
theorem elements_of_parse {dialect : Dialect} {text : List Char} {nodes : List Node}
    (h : parse dialect text = .ok nodes) :
    Node.elementsOf nodes = (elements dialect text).map Element.outline ∧
      (Node.runSpans (Node.preorderAll nodes)).Perm
        ((elements dialect text).flatMap fun e => Child.textSpans e.children) := by
  obtain ⟨body, gap, htokens, hproper⟩ := tokens_isProper (dialect == .markup) text
  have hapart := apart_tokens (dialect == .markup) text
  rw [elements, htokens]
  rw [parse, htokens] at h
  rw [htokens] at hapart
  have hreads := Tree.reads_of_readSections h
  rw [Tree.flatten_sections] at hreads
  obtain ⟨trees, htrees, hbody, hformed⟩ := Tree.ofTokens_of_reads hproper (by rfl) (by rfl) hreads
  obtain ⟨first, others, hsecs, hothers⟩ :=
    Tree.sections_eq (Tree.ofTokens (body ++ [⟨.stop, gap, []⟩]))
  have hflat := Tree.flatten_sections (Tree.ofTokens (body ++ [⟨.stop, gap, []⟩]))
  rw [hsecs] at h hflat
  rw [htrees] at hflat
  rw [← hbody] at hapart
  obtain ⟨shapes, rfl, hmirrored⟩ := Tree.mirrored_of_readSections hothers (by rfl) hflat hformed
    hapart.left_of_append h
  have hall : Tree.elementsAll 0 (trees ++ [.token ⟨.stop, gap, []⟩]) =
      Tree.elementsAll 0 trees := by
    rw [Tree.elementsAll_append]
    simp [Tree.elementsAll]
  rw [htrees, hall]
  refine ⟨hmirrored.elements 0, ?_⟩
  have hperm := runs_perm (fun s hs => (hmirrored.homely s hs).1) 0
  rw [runSpans_eq_nil fun s hs => (hmirrored.homely s hs).2, hmirrored.elements] at hperm
  rwa [List.nil_append, List.flatMap_map] at hperm

end Phrasebook.Source

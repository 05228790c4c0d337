import Phrasebook.Proofs.Absence
import Phrasebook.Proofs.Subject

/-!
How constructs begin and end. Tokens whose text may have white space at its ends are read in few
places: the characters of a template between its back quotes, and the line that names an interpreter
at the top of a file. So every construct begins and ends with another sort of token. What the lists
of imports, the member accesses and the calls are made of follows from the rules that read them.
-/

namespace Phrasebook.Source

open Shape

/-- Kinds of tokens whose text may begin or end with white space, or be empty. -/
def TokenKind.isLoose : TokenKind → Bool
  | .chunk | .text | .hashBang | .broken _ | .stop | .border => true
  | _ => false

theorem TokenKind.eq_of_isLoose {kind : TokenKind} (h : kind.isLoose = true) :
    kind = .chunk ∨ kind = .text ∨ kind = .hashBang ∨ (∃ sound, kind = .broken sound) ∨
      kind = .stop ∨ kind = .border := by
  cases kind <;> simp_all [isLoose]

/-- Neither the first nor the last token is a loose one. -/
structure FirmEnds (ts : List Token) : Prop where
  first : ∀ t ∈ ts.head?, t.kind.isLoose = false
  last : ∀ t ∈ ts.getLast?, t.kind.isLoose = false

namespace Shape

structure IsEnclosed (parts : List Shape) : Prop where
  first : ∃ l rest, parts = token none l :: rest ∧ l.kind = .sign
  last : ∃ init r, parts = init ++ [token none r] ∧ r.kind = .sign

end Shape

namespace Rule

def closes : Rule Goal → Bool
  | .signs _ => true
  | .andThen _ b => b.closes
  | _ => false

def isEnclosed : Rule Goal → Bool
  | .andThen (.signs _) b => b.isDirect (fun _ => false) && b.closes
  | _ => false

section

variable {goal : Goal → State → Outcome} {bound : Nat} {s t : State}

theorem closes_run (r : Rule Goal) (hr : r.closes = true) :
    ∀ s t, r.run goal bound s = .ok t →
      ∃ u before, u.kind = .sign ∧ t.shapes = token none u :: before := by
  induction r with
  | signs count =>
      intro s t h
      obtain ⟨taken, rest, hrest, hne, hall, -, rfl⟩ := runSigns_ok h
      obtain ⟨init, u, rfl⟩ := (List.eq_nil_or_concat taken).resolve_left hne
      rw [(State.shapes_advanceBy hrest).1]
      refine ⟨u, (init.map (token none)).reverse ++ s.skip.shapes, hall u (by simp), by simp⟩
  | andThen a b _ ihb =>
      intro s t h
      obtain ⟨v, -, hb⟩ := run_andThen_ok h
      exact ihb hr v t hb
  | _ => cases hr

/-- What signs at the beginning of a construct are read as. -/
theorem runSigns_fresh {count : List Char → Nat} (hs : s.IsFresh) (h : runSigns count s = .ok t) :
    ∃ u taken more, (∀ v ∈ u :: taken, v.kind = .sign) ∧
      count (Source.signs (u :: taken ++ more)) = (u :: taken).length ∧
      t.shapes = ((u :: taken).map (token none)).reverse := by
  obtain ⟨taken, rest, hrest, hne, hall, hcount, rfl⟩ := runSigns_ok h
  obtain ⟨u, taken, rfl⟩ := List.exists_cons_of_ne_nil hne
  refine ⟨u, taken, rest, hall, hcount, ?_⟩
  rw [(State.shapes_advanceBy hrest).1, skip_of_isFresh hs, hs.shapes, List.append_nil]

theorem enclosed_run {r : Rule Goal} (hr : r.isEnclosed = true) (hs : s.IsFresh)
    (h : r.run goal bound s = .ok t) : IsEnclosed t.shapes.reverse := by
  unfold isEnclosed at hr
  split at hr
  · next count b =>
    obtain ⟨hdirect, hcloses⟩ := Bool.and_eq_true_iff.1 hr
    obtain ⟨v, hsigns, hb⟩ := run_andThen_ok h
    obtain ⟨l, taken, -, hall, -, hv⟩ := runSigns_fresh hs hsigns
    have hadded : Extends (b.Writes (fun _ => false) fun _ _ => False) v t :=
      writes_run (fun _ _ _ hg => by cases hg) b hdirect _ _ hb
    obtain ⟨x, -, hx⟩ := hadded
    obtain ⟨r, before, hkind, ht⟩ := closes_run b hcloses _ _ hb
    refine ⟨⟨l, taken.map (token none) ++ x, ?_, hall l (by simp)⟩,
      ⟨before.reverse, r, by simp [ht], hkind⟩⟩
    rw [hx, hv]
    simp
  · cases hr

end

end Rule

/-- Goals that only add nodes to a section, and all but a section. -/
def Goal.mayHold (exempt : Bool) (g : Goal) : Bool :=
  if exempt then g == .statement || g == .block else g != .section

/-- No goal but a section reads a loose token, but for the characters of a template. -/
theorem grammar_lacks (dialect : Dialect) {u : Token} (hu : u.kind.isLoose = true) {g : Goal}
    (hg : g ≠ .section) :
    (grammar dialect g).lacks (fun _ a => a.isEnclosed) Goal.mayHold u false = true := by
  obtain ⟨kind, gap, text⟩ := u
  rcases TokenKind.eq_of_isLoose hu with hk | hk | hk | ⟨sound, hk⟩ | hk | hk
  all_goals
    obtain rfl : kind = _ := hk
    cases g with
    | «section» => exact absurd rfl hg
    | expression typed => cases typed <;> rfl
    | pattern assigned => cases assigned <;> rfl
    | _ => cases dialect <;> rfl

/-- The same of the nodes in a section. -/
theorem grammar_lacks_nodes (dialect : Dialect) {u : Token} (hu : u.kind.isLoose = true) {g : Goal}
    (hg : g = .section ∨ g = .statement ∨ g = .block) :
    (grammar dialect g).lacks (fun _ a => a.isEnclosed) Goal.mayHold u true = true := by
  obtain ⟨kind, gap, text⟩ := u
  rcases TokenKind.eq_of_isLoose hu with hk | hk | hk | ⟨sound, hk⟩ | hk | hk
  all_goals
    obtain rfl : kind = _ := hk
    rcases hg with rfl | rfl | rfl <;> rfl

/-! ### What lists of imports, accesses and calls are made of -/

/-- A sign, of the given character unless it is empty. -/
def Token.IsMark (c : Char) (t : Token) : Prop := t.kind = .sign ∧ ∀ d ∈ t.text.head?, d = c

namespace Shape

def IsListed : Shape → Prop
  | token none t => t.IsMark ','
  | token (some .comment) t => t.kind = .comment
  | node kind _ => isSpecifierKind kind = true
  | _ => False

def IsNaming : Shape → Prop
  | token _ t => t.kind = .word ∨ t.kind = .string ∨ t.kind = .comment
  | _ => False

/-- What the parts of a list of imports, of a specifier and of a member access are, and that a call
begins with what is called. -/
def Built : Construct → List Shape → Prop
  | .namedImports, parts => ∃ l inner r, parts = token none l :: inner ++ [token none r] ∧
      l.IsMark '\x7b' ∧ r.IsMark '\x7d' ∧ ∀ p ∈ inner, p.IsListed
  | .importSpecifier _, parts =>
      (∀ p ∈ parts, p.IsNaming) ∧ ∃ init t, parts = init ++ [token (some .name) t]
  | .member, parts => IsMember parts
  | .call, parts => ∃ subject following, parts = subject :: following ∧ subject.IsSubject
  | _, _ => True

inductive IsBuilt : Shape → Prop
  | token (kind : Option Leaf) (t : Token) : IsBuilt (token kind t)
  | node {kind : Construct} {parts : List Shape} (built : Built kind parts)
      (inner : ∀ p ∈ parts, IsBuilt p) : IsBuilt (node kind parts)

end Shape

/-- Constructs of which it is said what they are made of. -/
def Construct.isSpecial : Construct → Bool
  | .namedImports | .importSpecifier _ | .member | .call => true
  | _ => false

theorem isListed_comments {cs : List Token} (h : AreComments cs) :
    ∀ p ∈ comments cs, p.IsListed := by
  intro p hp
  obtain ⟨c, hc, rfl⟩ := List.mem_map.1 hp
  exact h c hc

theorem isNaming_comments {cs : List Token} (h : AreComments cs) :
    ∀ p ∈ comments cs, p.IsNaming := by
  intro p hp
  obtain ⟨c, hc, rfl⟩ := List.mem_map.1 hp
  exact Or.inr (Or.inr (h c hc))

def Goal.isBehind : Goal → Bool
  | .arguments | .template | .typeArguments => true
  | _ => false

namespace Rule

/-- The rules that read such constructs from their beginning on. -/
def ReadsAs : Construct → Rule Goal → Prop
  | .namedImports, a => a = all [mark "\x7b", commas Grammar.importSpecifier, mark "\x7d"]
  | .importSpecifier _, a => a = Grammar.importSpecifierBody ∨
      a = all [wordIn ["type", "typeof"], Grammar.importSpecifierBody]
  | .member, _ => False
  | .call, a => a = all [Goal.wordAs .other "import", .goal .arguments]
  | _, _ => True

/-- The rules that read such constructs from behind their first part, which must be a subject. -/
def ExtendsAs : Construct → Rule Goal → Prop → Prop
  | .namedImports, _, _ | .importSpecifier _, _, _ => False
  | .member, a, subject => subject ∧ a.IsMemberRule
  | .call, a, subject => subject ∧ a.isDirect Goal.isBehind = true
  | _, _, _ => True

/-- A rule that reads such constructs by those rules only, given whether what was read last is a
subject. -/
def Builds : Rule Goal → Prop → Prop
  | .andThen a b, subject => a.Builds subject ∧ b.Builds (a.LeavesSubject subject)
  | .orElse a b, subject => a.Builds subject ∧ b.Builds subject
  | .many a, subject => a.Builds (subject ∧ a.LeavesSubject True)
  | .node kind a, _ => ReadsAs kind a ∧ a.Builds False
  | .extend kind a, subject => ExtendsAs kind a subject ∧ a.Builds subject
  | _, _ => True

def isOrdinary : Rule Goal → Bool
  | .andThen a b | .orElse a b => a.isOrdinary && b.isOrdinary
  | .many a => a.isOrdinary
  | .node kind a | .extend kind a => !kind.isSpecial && a.isOrdinary
  | _ => true

theorem readsAs_of_not_isSpecial {kind : Construct} (h : kind.isSpecial = false) (a : Rule Goal) :
    ReadsAs kind a := by
  cases kind <;> trivial

theorem extendsAs_of_not_isSpecial {kind : Construct} (h : kind.isSpecial = false) (a : Rule Goal)
    (subject : Prop) : ExtendsAs kind a subject := by
  cases kind <;> trivial

theorem builds_of_isOrdinary (r : Rule Goal) (h : r.isOrdinary = true) (subject : Prop) :
    r.Builds subject := by
  induction r generalizing subject with
  | andThen a b iha ihb | orElse a b iha ihb =>
      obtain ⟨ha, hb⟩ := Bool.and_eq_true_iff.1 h
      exact ⟨iha ha _, ihb hb _⟩
  | many a ih => exact ih h _
  | node kind a ih =>
      obtain ⟨hkind, ha⟩ := Bool.and_eq_true_iff.1 h
      exact ⟨readsAs_of_not_isSpecial (by simpa using hkind) a, ih ha _⟩
  | extend kind a ih =>
      obtain ⟨hkind, ha⟩ := Bool.and_eq_true_iff.1 h
      exact ⟨extendsAs_of_not_isSpecial (by simpa using hkind) a _, ih ha _⟩
  | _ => trivial

variable {goals : Goal → Bool} {R : Goal → List Shape → Prop} {goal : Goal → State → Outcome}
  {bound : Nat} {s t : State} {ss : List Shape}

/-- The one sign that a mark of one character takes. -/
theorem isMark_of_count {m : String} {c : Char} (hm : m.toList = [c]) {u : Token}
    {taken more : List Token} (hkind : u.kind = .sign)
    (h : (fun cs => if m.toList.isPrefixOf cs then m.toList.length else 0)
      (Source.signs (u :: taken ++ more)) = (u :: taken).length) : taken = [] ∧ u.IsMark c := by
  simp only [hm] at h
  split at h
  · next hbegins =>
    refine ⟨by simpa using h, hkind, fun d hd => ?_⟩
    obtain ⟨r, hr⟩ := List.isPrefixOf_iff_prefix.1 hbegins
    have hd : u.text.head? = some d := hd
    have hhead : (Source.signs (u :: taken ++ more)).head? = some d := by
      rw [List.cons_append, Source.signs, hkind, beq_self_eq_true, if_pos rfl,
        List.head?_append, hd]
      rfl
    rw [← hr] at hhead
    exact (Option.some.inj hhead).symm
  · simp at h

theorem writes_mark {m : String} {c : Char} (hm : m.toList = [c])
    (h : (mark m : Rule Goal).Writes goals R ss) :
    ∃ cs u, AreComments cs ∧ u.IsMark c ∧ ss = comments cs ++ [token none u] := by
  obtain ⟨cs, ts, more, hcs, hne, hall, hcount, rfl⟩ := h
  obtain ⟨u, ts, rfl⟩ := List.exists_cons_of_ne_nil hne
  obtain ⟨rfl, hmark⟩ := isMark_of_count hm (hall u (by simp)) hcount
  exact ⟨cs, u, hcs, hmark, rfl⟩

theorem writes_specifier (h : Grammar.importSpecifier.Writes goals R ss) :
    ∀ p ∈ ss, p.IsListed := by
  rcases h with ⟨cs, parts, hcs, -, rfl⟩ | ⟨cs, parts, hcs, -, rfl⟩
  · exact List.forall_mem_append.2 ⟨isListed_comments hcs, List.forall_mem_singleton.2 rfl⟩
  · exact List.forall_mem_append.2 ⟨isListed_comments hcs, List.forall_mem_singleton.2 rfl⟩

theorem writes_items (h : (commas Grammar.importSpecifier).Writes goals R ss) :
    ∀ p ∈ ss, p.IsListed := by
  have hitem : ∀ x, (optional Grammar.importSpecifier).Writes goals R x → ∀ p ∈ x, p.IsListed := by
    rintro x (hx | rfl)
    · exact writes_specifier hx
    · simp
  obtain ⟨x, _, hx, ⟨rows, hrows, rfl⟩, rfl⟩ := h
  refine List.forall_mem_append.2 ⟨hitem x hx, fun p hp => ?_⟩
  obtain ⟨row, hrow, hp⟩ := List.mem_flatten.1 hp
  obtain ⟨y, z, hy, hz, rfl⟩ := hrows row hrow
  obtain ⟨cs, u, hcs, hu, rfl⟩ := writes_mark (c := ',') rfl hy
  rcases List.mem_append.1 hp with hp | hp
  · rcases List.mem_append.1 hp with hp | hp
    · exact isListed_comments hcs p hp
    · rw [List.mem_singleton.1 hp]
      exact hu
  · exact hitem z hz p hp

theorem kind_of_isWord {u : Token} {w : String} (h : u.isWord w = true) : u.kind = .word :=
  beq_iff_eq.1 (Bool.and_eq_true_iff.1 h).1

theorem writes_specifierBody (h : Grammar.importSpecifierBody.Writes goals R ss) :
    Built (.importSpecifier false) ss := by
  have hword : ∀ (k : Option Leaf) (u : Token), u.kind = .word →
      ∀ cs, AreComments cs → ∀ p ∈ comments cs ++ [token k u], p.IsNaming := fun k u hu cs hcs =>
    List.forall_mem_append.2 ⟨isNaming_comments hcs, List.forall_mem_singleton.2 (Or.inl hu)⟩
  rcases h with ⟨x, _, hmember, ⟨_, _, ⟨cs₁, u, hcs₁, hu, rfl⟩,
    ⟨_, _, ⟨cs₂, v, hcs₂, -, hv, rfl⟩, rfl, rfl⟩, rfl⟩, rfl⟩ | ⟨_, _, ⟨cs, u, hcs, hu, -, rfl⟩,
      rfl, rfl⟩
  · have hx : ∀ p ∈ x, p.IsNaming := by
      rcases hmember with ⟨cs, u, hcs, hu, -, rfl⟩ | ⟨cs, u, hcs, -, hu, rfl⟩
      · exact hword _ u (beq_iff_eq.1 hu) cs hcs
      · exact List.forall_mem_append.2 ⟨isNaming_comments hcs,
          List.forall_mem_singleton.2 (Or.inr (Or.inl (beq_iff_eq.1 hu)))⟩
    have hy := hword none u (kind_of_isWord hu) cs₁ hcs₁
    have hz := hword (some .name) v (beq_iff_eq.1 hv) cs₂ hcs₂
    refine ⟨?_, x ++ (comments cs₁ ++ [token none u]) ++ comments cs₂, v, by simp⟩
    rw [List.append_nil]
    exact List.forall_mem_append.2 ⟨hx, List.forall_mem_append.2 ⟨hy, hz⟩⟩
  · refine ⟨?_, comments cs, u, by simp⟩
    rw [List.append_nil]
    exact hword _ u (beq_iff_eq.1 hu) cs hcs

/-- What is read by the rule of such a construct is made as it should be. -/
theorem built_of_run
    (hgoal : ∀ (g : Goal) s t, g.isBehind = true → goal g s = .ok t → Extends OneNode s t)
    {kind : Construct}
    {a : Rule Goal} (ha : ReadsAs kind a) (hs : s.IsFresh) (h : a.run goal bound s = .ok t) :
    Built kind t.shapes.reverse := by
  -- no goals are needed for what such constructs are read from
  have hwrites : ∀ (r : Rule Goal) (s t : State), r.isDirect (fun _ => false) = true →
      r.run goal bound s = .ok t → Extends (r.Writes (fun _ => false) fun _ _ => False) s t :=
    fun r s t hr h => writes_run (fun _ _ _ hg => by cases hg) r hr s t h
  cases kind with
  | namedImports =>
      obtain rfl := ha
      obtain ⟨v, hopen, hrest⟩ := run_andThen_ok h
      obtain ⟨l, taken, more, hall, hcount, hv⟩ := runSigns_fresh hs hopen
      obtain ⟨rfl, hl⟩ := isMark_of_count (c := '\x7b') rfl (hall l (by simp)) hcount
      obtain ⟨_, ⟨x, y, hx, hy, rfl⟩, ht⟩ := hwrites _ _ _ rfl hrest
      obtain ⟨cs, r, hcs, hr, rfl⟩ := writes_mark (c := '\x7d') rfl hy
      refine ⟨l, x ++ comments cs, r, by simp [ht, hv], hl, hr, ?_⟩
      exact List.forall_mem_append.2 ⟨writes_items hx, isListed_comments hcs⟩
  | importSpecifier typeOnly =>
      rcases ha with rfl | rfl
      · obtain ⟨x, hx, ht⟩ := hwrites _ _ _ rfl h
        rw [hs.shapes, List.append_nil] at ht
        rw [ht, List.reverse_reverse]
        exact writes_specifierBody hx
      · obtain ⟨_, ⟨_, y, ⟨cs, u, hcs, hu, rfl⟩, hy, rfl⟩, ht⟩ := hwrites _ _ _ rfl h
        rw [hs.shapes, List.append_nil] at ht
        obtain ⟨hnaming, init, v, rfl⟩ := writes_specifierBody hy
        obtain ⟨w, -, hw⟩ := List.any_eq_true.1 hu
        rw [ht, List.reverse_reverse]
        refine ⟨?_, comments cs ++ [token none u] ++ init, v, by simp⟩
        refine List.forall_mem_append.2 ⟨List.forall_mem_append.2 ⟨isNaming_comments hcs, ?_⟩,
          hnaming⟩
        exact List.forall_mem_singleton.2 (Or.inl (kind_of_isWord hw))
  | member => exact ha.elim
  | call =>
      obtain rfl := ha
      obtain ⟨v, hword, harguments⟩ := run_andThen_ok h
      obtain ⟨u, rest, hrest, hu, -, rfl⟩ := runOne_ok hword
      rw [skip_of_isFresh hs] at hrest harguments
      obtain ⟨x, -, ht⟩ := hgoal .arguments _ _ rfl harguments
      refine ⟨token (some .other) u, x, ?_, ?_⟩
      · rw [ht]
        simp [State.advance, hrest, hs.shapes]
      · exact leavesSubject_word "import" False u (Bool.and_eq_true_iff.1 hu).1 rfl
  | _ => trivial

/-- What is read from behind a subject by such a rule is made as it should be. -/
theorem built_of_extend
    (hgoal : ∀ (g : Goal) s t, g.isBehind = true → goal g s = .ok t → Extends OneNode s t)
    {kind : Construct} {a : Rule Goal} {subject : Prop} (ha : ExtendsAs kind a subject) {x : Shape}
    (hx : subject → x.IsSubject) (hs : s.shapes = [x]) (h : a.run goal bound s = .ok t) :
    Built kind t.shapes.reverse := by
  cases kind with
  | namedImports | importSpecifier => exact ha.elim
  | member => exact isMember_of_run ha.2 (hx ha.1) hs h
  | call =>
      obtain ⟨ss, -, hss⟩ := writes_run (R := fun _ => OneNode) hgoal a ha.2 s t h
      exact ⟨x, ss, by simp [hss, hs], hx ha.1⟩
  | _ => trivial

theorem isBuilt_run
    (hbehind : ∀ (g : Goal) s t, g.isBehind = true → goal g s = .ok t → Extends OneNode s t)
    (hsubject : ∀ (g : Goal) s t, g.isSubject = true → goal g s = .ok t → t.EndsInSubject)
    (hgoal : ∀ g s t, (∀ x ∈ s.shapes, x.IsBuilt) → goal g s = .ok t → ∀ x ∈ t.shapes, x.IsBuilt)
    (r : Rule Goal) (subject : Prop) (hr : r.Builds subject) :
    ∀ s t, (∀ x ∈ s.shapes, x.IsBuilt) → (subject → s.EndsInSubject) →
      r.run goal bound s = .ok t → ∀ x ∈ t.shapes, x.IsBuilt := by
  have hcomment : ∀ t : Token, t.kind = .comment → (token (some .comment) t).IsBuilt :=
    fun t _ => .token _ t
  induction r generalizing subject with
  | done | look | last =>
      intro s t hs _ h
      refine forall_run hcomment _ ?_ s t hs h
      trivial
  | signs | plain | one | blockEnd | semicolon =>
      intro s t hs _ h
      refine forall_run hcomment _ ?_ s t hs h
      exact fun u _ => .token none u
  | leaf kind test =>
      intro s t hs _ h
      refine forall_run hcomment _ ?_ s t hs h
      exact fun u _ _ => .token _ u
  | andThen a b iha ihb =>
      intro s t hs hlast h
      obtain ⟨u, ha, hb⟩ := run_andThen_ok h
      exact ihb _ hr.2 u t (iha subject hr.1 s u hs hlast ha)
        (fun hleaves => endsInSubject_run hsubject a subject hleaves s u hlast ha) hb
  | orElse a b iha ihb =>
      intro s t hs hlast h
      rcases run_orElse_ok h with ha | ⟨f, -, hb⟩
      · exact iha subject hr.1 s t hs hlast ha
      · exact ihb subject hr.2 { s with furthest := f } t hs hlast hb
  | many a ih =>
      intro s t hs hlast h
      obtain rfl := Except.ok.inj h
      -- a subject before the first repetition stays one, if each leaves one
      let Kept (s : State) := (∀ x ∈ s.shapes, x.IsBuilt) ∧
        (subject ∧ a.LeavesSubject True → s.EndsInSubject)
      have hstep : ∀ u v, Kept u → a.run goal bound u = .ok v → Kept v := fun u v hu hv =>
        ⟨ih _ hr u v hu.1 hu.2 hv, fun hleaves =>
          endsInSubject_run hsubject a True hleaves.2 u v (fun _ => hu.2 hleaves) hv⟩
      have hkept : Kept s := ⟨hs, fun hleaves => hlast hleaves.1⟩
      exact (repeatWithin_keeps hstep (fun _ _ hu => hu) bound hkept).1
  | node kind a ih =>
      intro s t hs _ h
      obtain ⟨u, hu, -, rfl⟩ := run_node_ok h
      have hfresh : State.IsFresh { s.skip with shapes := [] } :=
        ⟨rfl, State.rest_skip_eq (s := s) rfl⟩
      refine List.forall_mem_cons.2 ⟨.node (built_of_run hbehind hr.1 hfresh hu) ?_,
        forall_skip hcomment hs⟩
      exact fun p hp => ih False hr.2 _ u (by simp) False.elim hu p (List.mem_reverse.1 hp)
  | extend kind a ih =>
      intro s t hs hlast h
      obtain ⟨shape, outer, u, houter, hu, -, rfl⟩ := run_extend_ok h
      rw [houter, List.forall_mem_cons] at hs
      have hshape : subject → shape.IsSubject := by
        intro hsub
        obtain ⟨x, rest, hx, hxs⟩ := hlast hsub
        rw [houter] at hx
        rwa [(List.cons.inj hx).1]
      refine List.forall_mem_cons.2 ⟨.node (built_of_extend hbehind hr.1 hshape rfl hu) ?_, hs.2⟩
      exact fun p hp => ih subject hr.2 _ u (List.forall_mem_singleton.2 hs.1)
        (fun hsub => ⟨shape, [], rfl, hshape hsub⟩) hu p (List.mem_reverse.1 hp)
  | goal g => exact fun s t hs _ h => hgoal g s t hs h

end Rule

section

variable (subject : Prop)

theorem builds_importFrom {keyword attributes : Rule Goal} {kind : Bool → Construct}
    (hkeyword : ∀ subject, keyword.Builds subject)
    (hattributes : ∀ subject, attributes.Builds subject)
    (hkind : ∀ typeOnly, (kind typeOnly).isSpecial = false) :
    (Grammar.importFrom keyword attributes kind).Builds subject := by
  have hspecifier : ∀ subject, Grammar.importSpecifier.Builds subject := fun _ =>
    ⟨⟨Or.inr rfl, Rule.builds_of_isOrdinary _ rfl _⟩,
      ⟨Or.inl rfl, Rule.builds_of_isOrdinary _ rfl _⟩⟩
  have hnamed : ∀ subject, Grammar.namedImports.Builds subject := fun _ =>
    ⟨rfl, trivial, ⟨⟨hspecifier _, trivial⟩, trivial, hspecifier _, trivial⟩, trivial⟩
  have hlisted : ∀ subject,
      (Rule.orElse Grammar.namespaceImport Grammar.namedImports).Builds subject := fun _ =>
    ⟨Rule.builds_of_isOrdinary _ rfl _, hnamed _⟩
  have hclause : ∀ subject, Grammar.importClause.Builds subject := fun _ =>
    ⟨trivial, hlisted _, trivial, ⟨trivial, hlisted _⟩, trivial⟩
  have hbody : ∀ subject, (Grammar.importBody attributes).Builds subject := fun _ =>
    ⟨⟨⟨hclause _, trivial, trivial⟩, Rule.builds_of_isOrdinary _ rfl _⟩, ⟨hattributes _, trivial⟩,
      trivial⟩
  exact ⟨⟨Rule.readsAs_of_not_isSpecial (hkind true) _, hkeyword _, trivial, hbody _⟩,
    ⟨Rule.readsAs_of_not_isSpecial (hkind false) _, hkeyword _, hbody _⟩,
    ⟨Rule.readsAs_of_not_isSpecial (hkind false) _, hkeyword _, trivial, ⟨hattributes _, trivial⟩,
      trivial⟩,
    ⟨trivial, hkeyword _, Rule.builds_of_isOrdinary _ rfl _⟩⟩

theorem builds_access (h : subject) : Grammar.access.Builds subject :=
  ⟨⟨⟨h, Or.inl rfl⟩, Rule.builds_of_isOrdinary _ rfl _⟩,
    ⟨⟨h, rfl⟩, Rule.builds_of_isOrdinary _ rfl _⟩,
    Rule.builds_of_isOrdinary _ rfl _,
    ⟨⟨h, Or.inr rfl⟩, Rule.builds_of_isOrdinary _ rfl _⟩,
    Rule.builds_of_isOrdinary _ rfl _,
    ⟨⟨h, rfl⟩, trivial⟩,
    ⟨⟨h, rfl⟩, trivial⟩,
    ⟨⟨h, rfl⟩, Rule.builds_of_isOrdinary _ rfl _⟩,
    Rule.builds_of_isOrdinary _ rfl _⟩

theorem builds_target : Grammar.target.Builds subject := by
  refine ⟨Rule.builds_of_isOrdinary _ rfl _, ⟨⟨?_, Or.inl rfl⟩, Rule.builds_of_isOrdinary _ rfl _⟩,
    Rule.builds_of_isOrdinary _ rfl _⟩
  exact ⟨⟨leavesSubject_this subject, leavesSubject_word "super" subject,
    leavesSubject_usage subject⟩, trivial, trivial, trivial⟩

theorem builds_newExpression : Grammar.newExpression.Builds subject := by
  refine ⟨Rule.builds_of_isOrdinary _ rfl _, trivial, trivial, ⟨trivial, ?_⟩,
    Rule.builds_of_isOrdinary _ rfl _⟩
  exact ⟨⟨⟨⟨rfl, trivial, trivial⟩, Or.inl rfl⟩, Rule.builds_of_isOrdinary _ rfl _⟩,
    Rule.builds_of_isOrdinary _ rfl _⟩

theorem builds_decorators : (Rule.many Grammar.decorator).Builds subject := by
  refine ⟨trivial, trivial, Rule.builds_of_isOrdinary _ rfl _, trivial,
    ⟨⟨⟨?_, trivial⟩, Or.inl rfl⟩, Rule.builds_of_isOrdinary _ rfl _⟩,
    ⟨⟨⟨?_, trivial⟩, rfl⟩, Rule.builds_of_isOrdinary _ rfl _⟩, trivial⟩
  · exact leavesSubject_identifier subject
  · exact leavesSubject_identifier subject

theorem builds_parameter : Grammar.parameter.Builds subject :=
  ⟨builds_decorators _, Rule.builds_of_isOrdinary _ rfl _⟩

theorem builds_classExpression : Grammar.classExpression.Builds subject := by
  have hmember : ∀ subject, Grammar.classMember.Builds subject := fun _ =>
    ⟨trivial, Rule.builds_of_isOrdinary _ rfl _,
      ⟨trivial, builds_decorators _, Rule.builds_of_isOrdinary _ rfl _⟩,
      ⟨trivial, builds_decorators _, Rule.builds_of_isOrdinary _ rfl _⟩⟩
  exact ⟨trivial, builds_decorators _, Rule.builds_of_isOrdinary _ rfl _, trivial,
    Rule.builds_of_isOrdinary _ rfl _, Rule.builds_of_isOrdinary _ rfl _,
    Rule.builds_of_isOrdinary _ rfl _, trivial, hmember _, trivial⟩

theorem builds_typeOperand : Grammar.typeOperand.Builds subject := by
  have himport : ∀ subject, Grammar.importType.Builds subject := fun _ =>
    ⟨⟨rfl, Rule.builds_of_isOrdinary _ rfl _⟩, Rule.builds_of_isOrdinary _ rfl _⟩
  have hquery : ∀ subject, Grammar.typeQuery.Builds subject := fun _ =>
    ⟨trivial, ⟨himport _, Rule.builds_of_isOrdinary _ rfl _⟩, Rule.builds_of_isOrdinary _ rfl _⟩
  have hprimary : ∀ subject, Grammar.typePrimary.Builds subject := fun _ =>
    ⟨trivial, Rule.builds_of_isOrdinary _ rfl _, Rule.builds_of_isOrdinary _ rfl _,
      Rule.builds_of_isOrdinary _ rfl _, trivial, Rule.builds_of_isOrdinary _ rfl _,
      ⟨himport _, Rule.builds_of_isOrdinary _ rfl _⟩, Rule.builds_of_isOrdinary _ rfl _⟩
  exact ⟨Rule.builds_of_isOrdinary _ rfl _, Rule.builds_of_isOrdinary _ rfl _,
    ⟨hquery _, Rule.builds_of_isOrdinary _ rfl _⟩, Rule.builds_of_isOrdinary _ rfl _,
    Rule.builds_of_isOrdinary _ rfl _, hprimary _, Rule.builds_of_isOrdinary _ rfl _⟩

end

theorem grammar_builds (dialect : Dialect) (g : Goal) : (grammar dialect g).Builds False := by
  cases g with
  | «section» =>
      refine ⟨Rule.builds_of_isOrdinary _ rfl _, ⟨?_, trivial⟩, Rule.builds_of_isOrdinary _ rfl _⟩
      exact builds_importFrom _ (fun _ => trivial) (Rule.builds_of_isOrdinary _ rfl) fun _ => rfl
  | statement =>
      refine ⟨trivial, Rule.builds_of_isOrdinary _ rfl _, ?_,
        ⟨trivial, builds_decorators _, Rule.builds_of_isOrdinary _ rfl _⟩,
        Rule.builds_of_isOrdinary _ rfl _, Rule.builds_of_isOrdinary _ rfl _,
        builds_classExpression _, Rule.builds_of_isOrdinary _ rfl _⟩
      exact builds_importFrom _ (fun _ => trivial) (Rule.builds_of_isOrdinary _ rfl) fun _ => rfl
  | expression typed => exact Rule.builds_of_isOrdinary _ (by cases typed <;> rfl) _
  | pattern assigned =>
      refine ⟨Rule.builds_of_isOrdinary _ (by cases assigned <;> rfl) _,
        Rule.builds_of_isOrdinary _ (by cases assigned <;> rfl) _, ?_⟩
      cases assigned with
      | false => trivial
      | true => exact builds_target _
  | unary =>
      refine ⟨Rule.builds_of_isOrdinary _ rfl _,
        Rule.builds_of_isOrdinary _ (by cases dialect <;> rfl) _, trivial,
        builds_access _ ⟨rfl, ?_⟩, Rule.builds_of_isOrdinary _ rfl _⟩
      exact ⟨trivial, trivial, trivial, trivial, trivial, trivial, trivial, trivial, trivial,
        trivial⟩
  | primary =>
      exact ⟨trivial, trivial, trivial, trivial, Rule.builds_of_isOrdinary _ rfl _,
        Rule.builds_of_isOrdinary _ rfl _, trivial, trivial, trivial, builds_newExpression _,
        Rule.builds_of_isOrdinary _ rfl _⟩
  | classExpression => exact builds_classExpression _
  | parameters =>
      exact ⟨trivial, trivial, ⟨⟨builds_parameter _, trivial⟩, trivial, builds_parameter _,
        trivial⟩, trivial⟩
  | typeOperand => exact builds_typeOperand _
  | _ => exact Rule.builds_of_isOrdinary _ (by cases dialect <;> rfl) _

/-! ### Frames -/

namespace Shape

/-- A shape of an outline all of whose constructs begin and end with firm tokens, and are made of
what they should be. -/
inductive IsFramed : Shape → Prop
  | token (kind : Option Leaf) (t : Token) : IsFramed (token kind t)
  | node {kind : Construct} {parts : List Shape} (ends : FirmEnds (tokensAll parts))
      (built : Built kind parts) (inner : ∀ p ∈ parts, IsFramed p) : IsFramed (node kind parts)

/-- Parts in a row begin and end as one of them does. -/
theorem firmEnds_tokensAll {parts : List Shape} (h : ∀ p ∈ parts, FirmEnds p.tokens) :
    FirmEnds (tokensAll parts) := by
  induction parts with
  | nil => exact ⟨by simp, by simp⟩
  | cons p parts ih =>
      obtain ⟨hp, hparts⟩ := List.forall_mem_cons.1 h
      rw [tokensAll_cons]
      refine ⟨fun t ht => ?_, fun t ht => ?_⟩
      · rw [List.head?_append, Option.mem_def, Option.or_eq_some_iff] at ht
        rcases ht with ht | ⟨-, ht⟩
        · exact hp.first t ht
        · exact (ih hparts).first t ht
      · rw [List.getLast?_append, Option.mem_def, Option.or_eq_some_iff] at ht
        rcases ht with ht | ⟨-, ht⟩
        · exact (ih hparts).last t ht
        · exact hp.last t ht

theorem IsEnclosed.firmEnds {parts : List Shape} (h : IsEnclosed parts) :
    FirmEnds (tokensAll parts) := by
  obtain ⟨⟨l, rest, hl, hkind⟩, ⟨init, r, hr, hkind'⟩⟩ := h
  refine ⟨fun t ht => ?_, fun t ht => ?_⟩
  · obtain rfl : l = t := by simpa [hl] using ht
    rw [hkind]
    rfl
  · obtain rfl : r = t := by simpa [hr] using ht
    rw [hkind']
    rfl

/-- A shape without loose tokens, but in templates, is framed. -/
theorem IsBuilt.isFramed {s : Shape} (hs : s.IsBuilt)
    (h : ∀ u : Token, u.kind.isLoose = true → s.Lacks (fun _ => IsEnclosed) u) :
    s.IsFramed ∧ FirmEnds s.tokens := by
  induction hs with
  | token kind t =>
      have hfirm : t.kind.isLoose = false := by
        rw [Bool.eq_false_iff]
        intro hloose
        cases h t hloose with
        | token other => exact other rfl
      exact ⟨.token kind t, by simpa using hfirm, by simpa using hfirm⟩
  | @node kind parts built inner ih =>
      by_cases henclosed : IsEnclosed parts
      · refine ⟨.node henclosed.firmEnds built fun p hp => ?_, henclosed.firmEnds⟩
        cases p with
        | token kind t => exact .token kind t
        | run t => cases inner _ hp
        | node k ps =>
            refine (ih _ hp fun u hu => ?_).1
            cases h u hu with
            | node all => exact all _ hp
            | direct _ nodes => exact nodes _ hp rfl
      · have hparts : ∀ p ∈ parts, p.IsFramed ∧ FirmEnds p.tokens := by
          refine fun p hp => ih p hp fun u hu => ?_
          cases h u hu with
          | node all => exact all p hp
          | direct ends _ => exact absurd ends henclosed
        have hends := firmEnds_tokensAll fun p hp => (hparts p hp).2
        exact ⟨.node hends built fun p hp => (hparts p hp).1, by rwa [tokens_node]⟩

end Shape

section

variable {dialect : Dialect} {goal : Goal} {ts : List Token} {shapes : List Shape}

theorem avoids_read {u : Token} (hu : u.kind.isLoose = true) (fuel : Nat) :
    ∀ exempt g s t, Goal.mayHold exempt g = true →
      (∀ x ∈ s.shapes, x.Avoids (fun _ => IsEnclosed) u exempt) →
      read (grammar dialect) fuel g s = .ok t →
      ∀ x ∈ t.shapes, x.Avoids (fun _ => IsEnclosed) u exempt := by
  have hcomment : u.kind ≠ .comment := by
    intro hk
    rw [hk] at hu
    cases hu
  induction fuel with
  | zero => intro exempt g s t _ _ h; cases h
  | succ fuel ih =>
      intro exempt g s t hg
      have hlacks :
          (grammar dialect g).lacks (fun _ a => a.isEnclosed) Goal.mayHold u exempt = true := by
        cases exempt with
        | true => exact grammar_lacks_nodes dialect hu (Or.inr (by simpa [Goal.mayHold] using hg))
        | false => exact grammar_lacks dialect hu (by simpa [Goal.mayHold] using hg)
      exact Rule.forall_run (fun _ => Rule.avoids_comment hcomment exempt) _
        (Rule.adds_avoids hcomment (fun _ _ _ _ => Rule.enclosed_run) ih _ exempt hlacks) s t

theorem behind_read (fuel : Nat) :
    ∀ (g : Goal) s t, g.isBehind = true → read (grammar dialect) fuel g s = .ok t →
      Rule.Extends Rule.OneNode s t := by
  intro g s t hg h
  cases fuel with
  | zero => cases h
  | succ fuel =>
      have hnode : (grammar dialect g).isNode (fun _ => false) = true := by
        cases g <;> first | rfl | cases hg
      exact Rule.extends_of_isNode (fun _ _ _ hg => by cases hg) _ hnode s t h

theorem isBuilt_read (fuel : Nat) :
    ∀ g s t, (∀ x ∈ s.shapes, x.IsBuilt) → read (grammar dialect) fuel g s = .ok t →
      ∀ x ∈ t.shapes, x.IsBuilt := by
  induction fuel with
  | zero => intro g s t _ h; cases h
  | succ fuel ih =>
      exact fun g s t hs h =>
        Rule.isBuilt_run (behind_read fuel) (endsInSubject_read fuel) ih _ False
        (grammar_builds dialect g) s t hs False.elim h

/-- All that is read is framed. -/
theorem framed_of_readAll (h : readAll dialect goal ts = .ok shapes) :
    ∀ s ∈ shapes, s.IsFramed := by
  unfold readAll at h
  split at h
  case h_2 => cases h
  case h_1 last hread =>
    obtain rfl := Except.ok.inj h
    obtain ⟨n, hn⟩ : ∃ n, depth ts = n + 1 := ⟨32 * (ts.length + 1) - 1, by unfold depth; omega⟩
    rw [hn] at hread
    have hbuilt := Rule.forall_skip (fun _ _ => .token _ _)
      (isBuilt_read (n + 1) goal _ _ (by simp [State.start]) hread)
    -- a loose token is in no node, whether the goal is a section or not
    have hlacks : ∀ u : Token, u.kind.isLoose = true →
        ∀ x ∈ last.skip.shapes, x.Avoids (fun _ => IsEnclosed) u true := by
      intro u hu
      have hcomment : u.kind ≠ .comment := by
        intro hk
        rw [hk] at hu
        cases hu
      refine Rule.forall_skip (fun _ => Rule.avoids_comment hcomment true) ?_
      by_cases hgoal : goal = .section
      · exact Rule.forall_run (fun _ => Rule.avoids_comment hcomment true) _
          (Rule.adds_avoids hcomment (fun _ _ _ _ => Rule.enclosed_run) (avoids_read hu n) _ true
            (grammar_lacks_nodes dialect hu (Or.inl hgoal))) _ _ (by simp [State.start]) hread
      · intro x hx _
        exact avoids_read hu (n + 1) false goal _ _ (by simpa [Goal.mayHold] using hgoal)
          (by simp [State.start]) hread x hx (by simp)
    intro s hs
    rw [List.mem_reverse] at hs
    cases s with
    | token kind t => exact .token kind t
    | run t => cases hbuilt _ hs
    | node kind parts =>
        exact ((hbuilt _ hs).isFramed fun u hu => hlacks u hu _ hs fun _ => rfl).1

/-! ### The line that names an interpreter -/

/-- What may stand before the first statement: nothing, or comments and the line that names an
interpreter. -/
def IsFront (ss : List Shape) : Prop :=
  ss = [] ∨ ∃ cs t, AreComments cs ∧ t.kind = .hashBang ∧
    ss = comments cs ++ [token (some .hashBang) t]

def Shape.IsBehind : Shape → Prop
  | token kind t => kind = some .comment ∧ t.kind = .comment
  | run _ => False
  | node _ _ => True

def HasFront (ss : List Shape) : Prop :=
  ∃ front back, ss = front ++ back ∧ IsFront front ∧ ∀ x ∈ back, x.IsBehind

theorem HasFront.append {ss ss' : List Shape} (h : HasFront ss) (h' : ∀ x ∈ ss', x.IsBehind) :
    HasFront (ss ++ ss') := by
  obtain ⟨front, back, rfl, hfront, hback⟩ := h
  exact ⟨front, back ++ ss', List.append_assoc .., hfront, List.forall_mem_append.2 ⟨hback, h'⟩⟩

theorem isBehind_comments {cs : List Token} (h : AreComments cs) :
    ∀ x ∈ comments cs, x.IsBehind := by
  intro x hx
  obtain ⟨c, hc, rfl⟩ := List.mem_map.1 hx
  exact ⟨rfl, h c hc⟩

theorem isBehind_oneNode {ss : List Shape} (h : Rule.OneNode ss) : ∀ x ∈ ss, x.IsBehind := by
  obtain ⟨cs, kind, parts, hcs, rfl⟩ := h
  exact List.forall_mem_append.2 ⟨isBehind_comments hcs, List.forall_mem_singleton.2 trivial⟩

theorem statement_extends (fuel : Nat) (s t : State)
    (h : read (grammar dialect) fuel .statement s = .ok t) : Rule.Extends Rule.OneNode s t := by
  have hblock : ∀ fuel (g : Goal) s t, (g == .block) = true →
      read (grammar dialect) fuel g s = .ok t → Rule.Extends Rule.OneNode s t := by
    intro fuel g s t hg h
    obtain rfl : g = .block := beq_iff_eq.1 hg
    cases fuel with
    | zero => cases h
    | succ fuel =>
        exact Rule.extends_of_isNode (fun _ _ _ hg => absurd hg (by simp)) (grammar dialect .block)
          (rfl : Rule.isNode (fun _ => false) _ = true) s t h
  cases fuel with
  | zero => cases h
  | succ fuel => exact Rule.extends_of_isNode (hblock fuel) (grammar dialect .statement) rfl s t h

/-- A section has comments and nodes only behind the line that names an interpreter. -/
theorem section_front (h : readAll dialect .section ts = .ok shapes) : HasFront shapes := by
  unfold readAll at h
  split at h
  case h_2 => cases h
  case h_1 last hread =>
    obtain rfl := Except.ok.inj h
    obtain ⟨n, hn⟩ : ∃ n, depth ts = n + 1 := ⟨32 * (ts.length + 1) - 1, by unfold depth; omega⟩
    rw [hn] at hread
    obtain ⟨s₁, h₁, h⟩ := Rule.run_andThen_ok hread
    obtain ⟨s₂, h₂, h⟩ := Rule.run_andThen_ok h
    obtain ⟨s₃, h₃, h⟩ := Rule.run_andThen_ok h
    obtain ⟨-, rfl⟩ := Rule.run_look_ok h
    have hgoal : ∀ g s t, (g == Goal.statement) = true → read (grammar dialect) n g s = .ok t →
        Rule.Extends Rule.OneNode s t := by
      intro g s t hg h
      obtain rfl := beq_iff_eq.1 hg
      exact statement_extends n s t h
    obtain ⟨front, hfront, hshapes₁⟩ :=
      Rule.writes_run hgoal (Rule.optional (Rule.anyLeaf .hashBang)) rfl _ _ h₁
    obtain ⟨_, ⟨rows, hrows, rfl⟩, hshapes₃⟩ :=
      Rule.writes_run hgoal (.many (.goal .statement)) rfl _ _ h₃
    obtain ⟨cs, hcs, hskip⟩ := Rule.skip_extends last
    have himport : ∃ middle : List Shape, (∀ x ∈ middle, x.IsBehind) ∧
        s₂.shapes = middle.reverse ++ s₁.shapes := by
      rcases Rule.run_orElse_ok h₂ with h₂ | ⟨f, -, h₂⟩
      · obtain ⟨middle, hmiddle, hshapes₂⟩ :=
          Rule.extends_of_isNode hgoal Grammar.importDeclaration rfl _ _ h₂
        exact ⟨middle, isBehind_oneNode hmiddle, hshapes₂⟩
      · obtain rfl := Except.ok.inj h₂
        exact ⟨[], by simp, rfl⟩
    obtain ⟨middle, hmiddle, hshapes₂⟩ := himport
    refine ⟨front, middle ++ (rows.flatten ++ comments cs), ?_, ?_, ?_⟩
    · rw [hskip, hshapes₃, hshapes₂, hshapes₁]
      simp [State.start]
    · rcases hfront with ⟨cs, t, hcs, -, ht, rfl⟩ | rfl
      · exact Or.inr ⟨cs, t, hcs, beq_iff_eq.1 ht, rfl⟩
      · exact Or.inl rfl
    · refine List.forall_mem_append.2 ⟨hmiddle,
        List.forall_mem_append.2 ⟨?_, isBehind_comments hcs⟩⟩
      intro x hx
      obtain ⟨row, hrow, hx⟩ := List.mem_flatten.1 hx
      exact isBehind_oneNode (hrows row hrow) x hx

/-- A section that begins with an import names no interpreter. -/
theorem section_behind {t : Token} (ht : t.kind = .importWord)
    (h : readAll dialect .section (t :: ts) = .ok shapes) : ∀ x ∈ shapes, x.IsBehind := by
  obtain ⟨⟨rest, hrest⟩, -⟩ := readAll_ok h
  obtain ⟨front, back, rfl, hfront, hback⟩ := section_front h
  rcases hfront with rfl | ⟨cs, u, hcs, hu, rfl⟩
  · exact hback
  · -- the first token would be a comment, or the line itself
    exfalso
    cases cs with
    | nil =>
        obtain rfl : t = u := by simpa [comments] using (List.cons.inj hrest).1
        rw [ht] at hu
        cases hu
    | cons c cs =>
        obtain rfl : t = c := by simpa [comments] using (List.cons.inj hrest).1
        have hc := hcs t (by simp)
        rw [ht] at hc
        cases hc

end

end Phrasebook.Source

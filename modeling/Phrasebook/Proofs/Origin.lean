import Phrasebook.Proofs.Spelling

/-!
Where nodes come from. Each node is that of a shape among the tokens of its file, so that it has
its characters there; literals, comments and specifiers never begin with the word that imports do,
and nodes in a row follow each other. All that later proofs ask of a file that was read is put
together at the end.
-/

namespace Phrasebook.Source

open Shape

/-! ### Literals among nodes -/

namespace Node

def isLiteral : Node → Bool
  | run _ _ => true
  | leaf (.string place) _ _ => place != .specifier
  | leaf .stringKeyword _ _ => true
  | branch .template _ parts => !parts.any isSubstitution
  | _ => false

/-- A literal, a comment or a specifier: what no new import may break. -/
def isKept (n : Node) : Bool := n.isLiteral || n.isComment || n.isSpecifier

theorem isKept_of_isLiteral {n : Node} (h : n.isLiteral = true) : n.isKept = true := by
  rw [isKept, h, Bool.true_or, Bool.true_or]

theorem Grounded.start_lt_stop {n : Node} (h : n.Grounded) (hn : n.isLiteral = true) :
    n.start < n.stop := by
  have hleaf : ∀ kind start text, text ≠ [] → (leaf kind start text).start <
      (leaf kind start text).stop := by
    intro kind start text hne
    exact Nat.lt_add_of_pos_right (byteLength_pos hne)
  cases n with
  | run start text => exact Nat.lt_add_of_pos_right (byteLength_pos h)
  | leaf kind start text =>
      cases kind with
      | string place =>
          obtain ⟨c, -, hc, -⟩ := h
          refine hleaf _ _ _ ?_
          rintro rfl
          cases hc
      | stringKeyword =>
          refine hleaf _ _ _ ?_
          rw [show text = "string".toList from h]
          simp
      | _ => cases hn
  | branch kind span children =>
      cases kind with
      | template => exact h.1
      | _ => cases hn

/-- Comments and characters of templates have nothing in them. -/
theorem isPart_of_mem_preorderAll {children : List Node}
    (h : ∀ c ∈ children, c.isPart (fun _ => false) = true) {n : Node}
    (hn : n ∈ preorderAll children) : n.isPart (fun _ => false) = true := by
  induction children with
  | nil => simp at hn
  | cons c children ih =>
      rw [preorderAll_cons, List.mem_append] at hn
      rcases hn with hn | hn
      · have hc := h c (by simp)
        cases c with
        | leaf kind start text =>
            rw [preorder_leaf, List.mem_singleton] at hn
            rwa [hn]
        | run start text => cases hc
        | branch kind span inner => cases hc
      · exact ih (fun d hd => h d (by simp [hd])) hn

/-- What is no construct has nothing in it. -/
theorem isConstruct_of_mem_preorderAll {children : List Node}
    (h : ∀ c ∈ children, c.isConstruct = false) {n : Node} (hn : n ∈ preorderAll children) :
    n.isConstruct = false := by
  obtain ⟨c, hc, hn⟩ := mem_preorderAll.1 hn
  have hleaf := h c hc
  cases c with
  | leaf kind start text =>
      rw [preorder_leaf, List.mem_singleton] at hn
      rwa [hn]
  | run start text =>
      rw [preorder_run, List.mem_singleton] at hn
      rwa [hn]
  | branch kind span inner => cases hleaf

theorem isLiteral_of_isPart {n : Node} (h : n.isPart (fun _ => false) = true) :
    n.isLiteral = false := by
  cases n with
  | leaf kind start text => cases kind <;> first | rfl | cases h
  | run start text => cases h
  | branch kind span children => cases h

/-- What is in a literal is a comment or characters of a template. -/
theorem Grounded.isPart_of_mem {m n : Node} (h : m.Grounded) (hm : m.isLiteral = true)
    (hn : n ∈ preorderAll m.children) : n.isPart (fun _ => false) = true := by
  cases m with
  | run start text => simp [children] at hn
  | leaf kind start text => simp [children] at hn
  | branch kind span parts =>
      cases kind with
      | template =>
          refine isPart_of_mem_preorderAll (fun c hc => ?_) hn
          have hpart := h.2 c hc
          have hsub : c.isSubstitution = false := by
            have hall : ∀ x ∈ parts, x.isSubstitution = false := by
              simpa [isLiteral] using hm
            exact hall c hc
          cases c with
          | leaf kind start text => cases kind <;> first | rfl | cases hpart
          | run start text => cases hpart
          | branch kind span inner =>
              have hkind : (kind == .substitution) = true := hpart
              rw [isSubstitution, isBranch, hkind] at hsub
              cases hsub
      | _ => cases hm

end Node

/-! ### Shapes of nodes -/

namespace Shape

/-- A node comes from a sound shape among tokens that begin at an offset. -/
def Origin (ts : List Token) (offset : Nat) (n : Node) : Prop :=
  ∃ (s : Shape) (before after : List Token), s.Sound ∧ ts = before ++ s.tokens ++ after ∧
    s.nodes (offset + byteLength (charsOf before)) = [n]

theorem Sound.origin_self {s : Shape} {offset : Nat} {n : Node} (h : s.Sound)
    (hn : s.nodes offset = [n]) : Origin s.tokens offset n :=
  ⟨s, [], [], h, by simp, by simpa using hn⟩

theorem Origin.among {ts : List Token} {offset : Nat} {n : Node} (left right : List Token)
    (h : Origin ts (offset + byteLength (charsOf left)) n) :
    Origin (left ++ ts ++ right) offset n := by
  obtain ⟨s, before, after, hs, rfl, hn⟩ := h
  refine ⟨s, left ++ before, after ++ right, hs, by simp, ?_⟩
  rw [charsOf_append, byteLength_append, ← Nat.add_assoc]
  exact hn

theorem origin_all {ss : List Shape}
    (h : ∀ s ∈ ss, ∀ offset, ∀ n ∈ Node.preorderAll (s.nodes offset), Origin s.tokens offset n)
    (offset : Nat) :
    ∀ n ∈ Node.preorderAll (nodesAll offset ss), Origin (tokensAll ss) offset n := by
  induction ss generalizing offset with
  | nil => simp
  | cons s ss ih =>
      intro n hn
      rw [nodesAll_cons, Node.preorderAll_append, List.mem_append] at hn
      rw [tokensAll_cons]
      rcases hn with hn | hn
      · have hs := h s (by simp) offset n hn
        exact Origin.among [] (tokensAll ss) hs
      · have hss := ih (fun u hu => h u (by simp [hu])) _ n hn
        simpa using hss.among s.tokens []

theorem Sound.origin {s : Shape} (h : s.Sound) :
    ∀ offset, ∀ n ∈ Node.preorderAll (s.nodes offset), Origin s.tokens offset n := by
  induction h with
  | @token kind t admitted solid =>
      intro offset n hn
      cases kind with
      | none => simp [nodes] at hn
      | some kind =>
          obtain rfl : n = .leaf kind (offset + byteLength t.gap) t.text := by
            simpa [nodes] using hn
          exact (Sound.token admitted solid).origin_self (by simp [nodes])
  | @run t textual visible =>
      intro offset n hn
      obtain rfl : n = .run (offset + byteLength t.gap) t.text := by simpa [nodes] using hn
      exact (Sound.run textual visible).origin_self (by simp [nodes])
  | @node kind parts made firm built inner ih =>
      intro offset n hn
      rw [nodes_node, Node.preorderAll_cons, Node.preorder_branch, Node.preorderAll_nil,
        List.append_nil, List.mem_cons] at hn
      rcases hn with rfl | hn
      · exact (Sound.node made firm built inner).origin_self (nodes_node offset kind parts)
      · rw [tokens_node]
        exact origin_all ih offset n hn

theorem origin_nodesAll {ss : List Shape} (h : ∀ s ∈ ss, s.Sound) (offset : Nat) :
    ∀ n ∈ Node.preorderAll (nodesAll offset ss), Origin (tokensAll ss) offset n :=
  origin_all (fun s hs => (h s hs).origin) offset

/-- The span of a node, by the tokens of its shape. -/
theorem span_of_nodes {s : Shape} {offset : Nat} {n : Node} (h : s.nodes offset = [n]) :
    n.start = offset + leadOf s.tokens ∧
      n.stop = offset + byteLength (charsOf s.tokens) := by
  cases s with
  | token kind t =>
      cases kind with
      | none => simp [nodes] at h
      | some kind =>
          obtain rfl : n = .leaf kind (offset + byteLength t.gap) t.text := by
            simpa [nodes] using h.symm
          exact ⟨rfl, by simp [Node.stop, Node.span, Nat.add_assoc]⟩
  | run t =>
      obtain rfl : n = .run (offset + byteLength t.gap) t.text := by simpa [nodes] using h.symm
      exact ⟨rfl, by simp [Node.stop, Node.span, Nat.add_assoc]⟩
  | node kind parts =>
      rw [nodes_node] at h
      obtain rfl := List.singleton_inj.1 h
      rw [tokens_node]
      exact ⟨rfl, rfl⟩

/-- The first token of a literal, a comment or a specifier is there, and is not the word that
imports begin with. -/
theorem Sound.tokens_of_isKept {s : Shape} (hs : s.Sound) {offset : Nat} {n : Node}
    (h : s.nodes offset = [n]) (hn : n.isKept = true) :
    ∃ t rest, s.tokens = t :: rest ∧ t.kind ≠ .importWord := by
  cases hs with
  | @token kind t admitted solid =>
      refine ⟨t, [], tokens_token kind t, fun hk => ?_⟩
      cases kind with
      | none => simp [nodes] at h
      | some kind =>
          obtain rfl : n = .leaf kind (offset + byteLength t.gap) t.text := by
            simpa [nodes] using h.symm
          have hadmits := admitted kind rfl
          cases kind with
          | string place => cases place <;> simp [Leaf.admits, hk] at hadmits
          | stringKeyword => simp [Leaf.admits, Token.isWord, hk] at hadmits
          | comment => simp [Leaf.admits, hk] at hadmits
          | _ => cases hn
  | @run t textual visible =>
      refine ⟨t, [], tokens_run t, fun hk => ?_⟩
      rw [textual] at hk
      cases hk
  | @node kind parts made firm built inner =>
      rw [nodes_node] at h
      obtain rfl := List.singleton_inj.1 h
      cases kind with
      | template =>
          obtain ⟨t, rest, ht, hk, -⟩ := made.1
          refine ⟨t, rest, by rw [tokens_node, ht], fun hk' => ?_⟩
          rw [hk] at hk'
          cases hk'
      | importSpecifier typeOnly =>
          obtain ⟨hnaming, init, last, rfl⟩ := built
          obtain ⟨p, rest, hparts⟩ := List.exists_cons_of_ne_nil
            (List.append_ne_nil_of_right_ne_nil init
              (List.cons_ne_nil (Shape.token (some .name) last) []))
          have hp := hnaming p (by simp [hparts])
          cases p with
          | token kind t =>
              refine ⟨t, tokensAll rest, by rw [tokens_node, hparts]; simp, fun hk => ?_⟩
              have hkind : t.kind = .word ∨ t.kind = .string ∨ t.kind = .comment := hp
              simp [hk] at hkind
          | run t => cases hp
          | node kind parts => cases hp
      | _ => cases hn

theorem leadOf_le (ts : List Token) : leadOf ts ≤ byteLength (charsOf ts) := by
  obtain ⟨p, q, hpq, hlead⟩ := leadOf_prefix ts
  rw [hpq, hlead, byteLength_append]
  omega

/-- A node that comes from tokens and is not empty begins no sooner than they do. -/
theorem Origin.lead_le {ts : List Token} {offset : Nat} {n : Node} (h : Origin ts offset n)
    (hn : n.start < n.stop) :
    offset + leadOf ts ≤ n.start ∧ n.stop ≤ offset + byteLength (charsOf ts) := by
  obtain ⟨s, before, after, hs, rfl, hnodes⟩ := h
  obtain ⟨hstart, hstop⟩ := span_of_nodes hnodes
  obtain ⟨t, rest, ht⟩ : ∃ t rest, s.tokens = t :: rest := by
    refine List.exists_cons_of_ne_nil fun hnil => ?_
    rw [hstart, hstop, hnil] at hn
    simp [leadOf] at hn
  rw [hstart, hstop]
  simp only [charsOf_append, byteLength_append]
  refine ⟨?_, by omega⟩
  cases before with
  | nil => simp [ht, leadOf]
  | cons u before =>
      have hle := leadOf_le (u :: before)
      have heq : leadOf (u :: before ++ s.tokens ++ after) = leadOf (u :: before) := rfl
      omega

/-- A literal, a comment or a specifier among tokens that begin with `import` comes after that
word. -/
theorem Origin.import_le {ts : List Token} {offset : Nat} {n : Node} (h : Origin ts offset n)
    (hn : n.isKept = true) {t : Token} {rest : List Token} (hts : ts = t :: rest)
    (hk : t.kind = .importWord) :
    offset + byteLength t.gap + byteLength t.text ≤ n.start := by
  obtain ⟨s, before, after, hs, hsplit, hnodes⟩ := h
  obtain ⟨hstart, -⟩ := span_of_nodes hnodes
  obtain ⟨u, later, hu, hne⟩ := hs.tokens_of_isKept hnodes hn
  rw [hts] at hsplit
  cases before with
  | nil =>
      rw [hu] at hsplit
      obtain rfl : t = u := (List.cons.inj hsplit).1
      exact absurd hk hne
  | cons v before =>
      obtain rfl : t = v := (List.cons.inj hsplit).1
      rw [hstart, charsOf_cons, byteLength_append, byteLength_append]
      omega

/-! ### Nodes in a row -/

theorem separate_nodesAll (ss : List Shape) (offset : Nat) :
    (nodesAll offset ss).Pairwise fun a b => ∀ x ∈ a.preorder, ∀ y ∈ b.preorder,
      x.stop ≤ y.start := by
  induction ss generalizing offset with
  | nil => simp
  | cons s ss ih =>
      rw [nodesAll_cons, List.pairwise_append]
      refine ⟨?_, ih _, ?_⟩
      · have hlength := nodes_length s offset
        match s.nodes offset, hlength with
        | [], _ => simp
        | [a], _ => simp
      · intro a ha b hb x hx y hy
        have hstop := (within_of_mem s offset x (Node.mem_preorderAll.2 ⟨a, ha, hx⟩)).stop
        have hstart := (within_of_mem_nodesAll ss _ y (Node.mem_preorderAll.2 ⟨b, hb, hy⟩)).le_start
        exact Nat.le_trans hstop hstart

end Shape

/-! ### Characters of nodes -/

theorem Shape.Origin.spelled {ts : List Token} {n : Node} (h : Origin ts 0 n) (gap : List Char) :
    ∃ before own after, charsOf ts ++ gap = before ++ own ++ after ∧
      n.start = byteLength before ∧ n.stop = byteLength before + byteLength own ∧
      n.Spelled own := by
  obtain ⟨s, front, back, hs, rfl, hnodes⟩ := h
  obtain ⟨hstart, hstop⟩ := span_of_nodes hnodes
  obtain ⟨lead, own, hchars, hlead, hspelled⟩ := hs.spelled hnodes
  refine ⟨charsOf front ++ lead, own, charsOf back ++ gap, by simp [hchars], ?_, ?_, hspelled⟩
  · rw [hstart, hlead, byteLength_append]
    omega
  · rw [hstop, hchars, byteLength_append, byteLength_append]
    omega

/-! ### Directives -/

def EndsAt (text : List Char) (offset : Nat) (c : Char) : Prop :=
  ∃ before after, text = before ++ [c] ++ after ∧ offset = byteLength (before ++ [c])

theorem EndsAt.of_getLast? (before after : List Char) {own : List Char} {c : Char}
    (h : own.getLast? = some c) :
    EndsAt (before ++ own ++ after) (byteLength before + byteLength own) c := by
  obtain ⟨front, rfl⟩ := List.getLast?_eq_some_iff.1 h
  exact ⟨before ++ front, after, by simp, by rw [List.append_assoc, ← byteLength_append]⟩

namespace Shape

/-- The last token of a directive is its string or a semicolon. -/
theorem last_of_directive {parts : List Shape} {offset : Nat} {place : Place} {start : Nat}
    {text : List Char} (hended : ∀ t, token none t ∈ parts → t.isSign ';' = true)
    (hsound : ∀ p ∈ parts, p.Sound)
    (h : nodesAll offset parts = [.leaf (.string place) start text]) :
    ∃ front t c, tokensAll parts = front ++ [t] ∧ t.text.getLast? = some c ∧
      (isQuote c = true ∨ c = ';') := by
  rcases List.eq_nil_or_concat parts with rfl | ⟨init, p, rfl⟩
  · simp at h
  · rw [List.concat_eq_append] at hended hsound h ⊢
    have hp : p ∈ init ++ [p] := by simp
    rw [nodesAll_append, nodesAll_cons, nodesAll_nil, List.append_nil] at h
    -- the last part is the string, or else no node at all
    have hlast : ∀ m ∈ p.nodes (offset + byteLength (charsOf (tokensAll init))),
        m = .leaf (.string place) start text := by
      intro m hm
      have hmem := List.mem_append_right (nodesAll offset init) hm
      rwa [h, List.mem_singleton] at hmem
    cases p with
    | token kind t =>
        refine ⟨tokensAll init, t, ?_⟩
        cases kind with
        | none =>
            have hmark := hended t hp
            simp only [Token.isSign, Bool.and_eq_true, beq_iff_eq] at hmark
            exact ⟨';', by simp, by rw [hmark.2]; rfl, Or.inr rfl⟩
        | some kind =>
            simp only [nodes, List.mem_singleton, forall_eq] at hlast
            obtain ⟨rfl, -, -⟩ := Node.leaf.inj hlast
            cases hsound _ hp with
            | token admitted solid =>
                obtain ⟨c, hquote, -, hc⟩ := grounded_leaf (admitted _ rfl) solid.looks 0
                exact ⟨c, by simp, hc, Or.inl hquote⟩
    | run t =>
        simp only [nodes, List.mem_singleton, forall_eq] at hlast
        cases hlast
    | node kind inner =>
        rw [nodes_node] at hlast
        cases hlast _ (List.mem_singleton_self _)

theorem leadOf_lt {front : List Token} {t : Token} {c : Char} (hc : t.text.getLast? = some c) :
    leadOf (front ++ [t]) < byteLength (charsOf (front ++ [t])) := by
  have hpos : 0 < byteLength t.text := by
    refine byteLength_pos ?_
    rintro hnil
    rw [hnil] at hc
    cases hc
  cases front with
  | nil =>
      simp only [List.nil_append, leadOf, charsOf_cons, charsOf_nil, byteLength_append]
      omega
  | cons u front =>
      have hle := leadOf_le (u :: front)
      have heq : leadOf (u :: front ++ [t]) = leadOf (u :: front) := rfl
      have hchars : byteLength (charsOf [t]) = byteLength t.gap + byteLength t.text := by
        simp [byteLength_append]
      rw [charsOf_append, byteLength_append, hchars, heq]
      omega

/-- A directive is not empty, and ends with its quote or with a semicolon. -/
theorem endsAt_directive {ss : List Shape} (hss : ∀ s ∈ ss, s.Sound ∧ s.IsEnded) (gap : List Char)
    {n : Node} (hn : n ∈ nodesAll 0 ss) (hdirective : n.isDirective = true) :
    n.start < n.stop ∧
      ∃ c, EndsAt (charsOf (tokensAll ss) ++ gap) n.stop c ∧ (isQuote c = true ∨ c = ';') := by
  obtain ⟨before, s, after, rfl, hs⟩ := exists_of_mem_nodesAll hn
  obtain ⟨hsound, hended⟩ := hss s (by simp)
  obtain ⟨hstart, hstop⟩ := span_of_nodes hs
  have hlast : ∃ front t c, s.tokens = front ++ [t] ∧ t.text.getLast? = some c ∧
      (isQuote c = true ∨ c = ';') := by
    unfold Node.isDirective at hdirective
    split at hdirective
    · cases s with
      | token kind t => cases kind <;> simp [nodes] at hs
      | run t => simp [nodes] at hs
      | node kind parts =>
          rw [nodes_node] at hs
          obtain ⟨rfl, -, hchildren⟩ := Node.branch.inj (List.singleton_inj.1 hs)
          cases hsound with
          | node _ _ _ inner =>
              rw [tokens_node]
              exact last_of_directive hended inner hchildren
    · cases hdirective
  obtain ⟨front, t, c, htokens, hc, hkind⟩ := hlast
  rw [htokens] at hstart hstop
  refine ⟨by rw [hstart, hstop]; exact Nat.add_lt_add_left (leadOf_lt hc) _, c, ?_, hkind⟩
  have hends := EndsAt.of_getLast? (charsOf (tokensAll before ++ front) ++ t.gap)
    (charsOf (tokensAll after) ++ gap) hc
  rw [hstop, Nat.zero_add]
  simpa [htokens, byteLength_append, Nat.add_assoc] using hends

end Shape

/-! ### Documents -/

/-- Comments and the line that names an interpreter come first, then come comments and
constructs. -/
def Node.AreHeaded (ns : List Node) : Prop :=
  ∃ front back, ns = front ++ back ∧ (∀ n ∈ front, n.isComment = true ∨ n.isLeaf .hashBang = true) ∧
    ∀ n ∈ back, n.isComment = true ∨ n.isConstruct = true

namespace Shape

theorem areHeaded_of_hasFront {ss : List Shape} (h : HasFront ss) :
    Node.AreHeaded (nodesAll 0 ss) := by
  obtain ⟨front, back, rfl, hfront, hback⟩ := h
  refine ⟨_, _, nodesAll_append 0 front back, forall_nodesAll ?_ 0, forall_nodesAll ?_ _⟩
  · intro s hs offset n hn
    rcases hfront with rfl | ⟨cs, t, -, -, rfl⟩
    · cases hs
    rcases List.mem_append.1 hs with hs | hs
    · obtain ⟨c, -, rfl⟩ := List.mem_map.1 hs
      obtain rfl : n = .leaf .comment _ c.text := by simpa [nodes] using hn
      exact Or.inl rfl
    · rw [List.mem_singleton.1 hs] at hn
      obtain rfl : n = .leaf .hashBang _ t.text := by simpa [nodes] using hn
      exact Or.inr rfl
  · intro s hs offset n hn
    have hbehind := hback s hs
    cases s with
    | token kind t =>
        obtain rfl : kind = some .comment := hbehind.1
        obtain rfl : n = .leaf .comment _ t.text := by simpa [nodes] using hn
        exact Or.inl rfl
    | run t => cases hbehind
    | node kind parts =>
        rw [nodes_node, List.mem_singleton] at hn
        rw [hn]
        exact Or.inr rfl

end Shape

/-- The tree of a document fits its text. -/
structure Document.Laid (d : Document) : Prop where
  leads : d.all.Pairwise Node.Leads
  grounded : ∀ n ∈ d.all, n.Grounded
  spelled : ∀ n ∈ d.all, ∃ before own after, d.text = before ++ own ++ after ∧
    n.start = byteLength before ∧ n.stop = byteLength before + byteLength own ∧ n.Spelled own
  /-- What is in a node, and is not empty, is all in it. -/
  nested : ∀ m ∈ d.all, ∀ n ∈ Node.preorderAll m.children, n.start < n.stop →
    m.start ≤ n.start ∧ n.stop ≤ m.stop
  /-- A literal, a comment or a specifier in a declaration of imports comes after its first word. -/
  imports : ∀ m ∈ d.all, m.isImport = true → ∀ n ∈ Node.preorderAll m.children,
    n.isKept = true → m.start + "import".length ≤ n.start
  separate : d.nodes.Pairwise fun a b => ∀ x ∈ a.preorder, ∀ y ∈ b.preorder, x.stop ≤ y.start
  siblings : ∀ m ∈ d.all, m.children.Pairwise fun a b =>
    ∀ x ∈ a.preorder, ∀ y ∈ b.preorder, x.stop ≤ y.start
  /-- A directive ends with its quote or with a semicolon. -/
  directives : ∀ n ∈ d.nodes, n.isDirective = true → n.start < n.stop ∧
    ∃ c, EndsAt d.text n.stop c ∧ (isQuote c = true ∨ c = ';')
  headed : Node.AreHeaded d.nodes

/-- A node with children is that of a construct. -/
theorem Shape.Origin.construct {ts : List Token} {offset : Nat} {m : Node} (h : Origin ts offset m)
    (hm : m.children ≠ []) :
    ∃ kind parts k, (node kind parts).Sound ∧ (node kind parts).nodes k = [m] := by
  obtain ⟨s, before, after, hs, -, hnodes⟩ := h
  cases s with
  | token kind t =>
      cases kind with
      | none => simp [nodes] at hnodes
      | some kind =>
          obtain rfl : m = .leaf kind _ t.text := by simpa [nodes] using hnodes.symm
          exact absurd rfl hm
  | run t =>
      obtain rfl : m = .run _ t.text := by simpa [nodes] using hnodes.symm
      exact absurd rfl hm
  | node kind parts => exact ⟨kind, parts, _, hs, hnodes⟩

theorem Shape.Origin.children {ts : List Token} {offset : Nat} {m : Node} (h : Origin ts offset m)
    {n : Node} (hn : n ∈ Node.preorderAll m.children) :
    ∃ kind parts k, (node kind parts).Sound ∧ (node kind parts).nodes k = [m] ∧
      Origin (tokensAll parts) k n := by
  obtain ⟨kind, parts, k, hsound, hnodes⟩ := h.construct fun hnil => by simp [hnil] at hn
  refine ⟨kind, parts, k, hsound, hnodes, ?_⟩
  rw [nodes_node] at hnodes
  obtain rfl := List.singleton_inj.1 hnodes
  cases hsound with
  | node _ _ _ inner => exact origin_nodesAll inner _ n hn

theorem Document.text_of_parse {path : Option String} {text : List Char} {d : Document}
    (h : parse path text = .ok d) : d.text = text := by
  unfold parse at h
  simp only at h
  split at h
  · rw [← Except.ok.inj h]
  · cases h

theorem Document.laid_of_parse {path : Option String} {text : List Char} {d : Document}
    (h : parse path text = .ok d) : d.Laid := by
  unfold parse at h
  simp only at h
  split at h
  · next nodes hnodes =>
    obtain rfl := Except.ok.inj h
    obtain ⟨shapes, gap, rfl, hshapes, hfront, htext⟩ := shapes_of_parse hnodes
    have hsound := fun s hs => (hshapes s hs).1
    have horigin := origin_nodesAll hsound 0
    refine ⟨Shape.leads_nodesAll shapes 0, Shape.grounded_nodesAll hsound 0, ?_, ?_, ?_,
      Shape.separate_nodesAll shapes 0, ?_, ?_, areHeaded_of_hasFront hfront⟩
    · intro n hn
      obtain ⟨before, own, after, hsplit, hspelled⟩ := (horigin n hn).spelled gap
      exact ⟨before, own, after, htext.trans hsplit, hspelled⟩
    · intro m hm n hn hpos
      obtain ⟨kind, parts, k, -, hm, hinner⟩ := (horigin m hm).children hn
      obtain ⟨hstart, hstop⟩ := span_of_nodes hm
      rw [hstart, hstop, tokens_node]
      exact hinner.lead_le hpos
    · intro m hm himport n hn hkept
      obtain ⟨kind, parts, k, hnode, hm, hinner⟩ := (horigin m hm).children hn
      obtain ⟨hstart, -⟩ := span_of_nodes hm
      have hlooks := hnode.looks
      rw [nodes_node] at hm
      obtain rfl := List.singleton_inj.1 hm
      cases kind with
      | importDeclaration typeOnly =>
          cases hnode with
          | node made _ _ _ =>
              obtain ⟨t, rest, ht, hk⟩ := made
              have htext : t.text = "import".toList := by
                have himport := hlooks t (by simp [ht])
                simpa [Token.Looks, hk] using himport
              have hle := hinner.import_le hkept ht hk
              rw [hstart, tokens_node, ht]
              rw [htext] at hle
              exact hle
      | _ => cases himport
    · intro m hm
      by_cases hchildren : m.children = []
      · simp [hchildren]
      · obtain ⟨kind, parts, k, -, hm⟩ := (horigin m hm).construct hchildren
        rw [nodes_node] at hm
        obtain rfl := List.singleton_inj.1 hm
        exact Shape.separate_nodesAll parts k
    · intro n hn hdirective
      have hends := Shape.endsAt_directive hshapes gap hn hdirective
      rwa [← htext] at hends
  · cases h

/-- The trees that a parser gives are of the text and lie in it as they should. -/
def Parser.Lays (parse : Parser) : Prop :=
  ∀ path text d, parse path text = .ok d → d.text = text ∧ d.Laid

theorem Parser.lays_parse : Parser.Lays Document.parse :=
  fun _ _ _ h => ⟨Document.text_of_parse h, Document.laid_of_parse h⟩

end Phrasebook.Source

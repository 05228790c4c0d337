import Phrasebook.Proofs.Finding
import Phrasebook.Proofs.ImportPlace
import Phrasebook.Source.Callee

/-!
The names of callees. A callee has a name exactly if it is a chain of member accesses from an
identifier or `this`, and the name lists the names along the chain: they have no dots, so that the
dots of the name are those between them. White space and comments in the chain do not matter.
-/

namespace Phrasebook.Source

open Shape

inductive IsSpacing : List Char → Prop
  | nil : IsSpacing []
  | append {a b : List Char} (first : AreBlank a ∨ IsRemark a) (rest : IsSpacing b) :
      IsSpacing (a ++ b)

theorem IsSpacing.of_areBlank {gap : List Char} (h : AreBlank gap) : IsSpacing gap :=
  List.append_nil gap ▸ .append (Or.inl h) .nil

theorem IsSpacing.concat {a b : List Char} (ha : IsSpacing a) (hb : IsSpacing b) :
    IsSpacing (a ++ b) := by
  induction ha with
  | nil => exact hb
  | append first _ ih =>
      rw [List.append_assoc]
      exact .append first ih

/-- Names as they are written in a chain: a dot or a question mark and a dot before each but the
first, which is an identifier or `this`, with white space and comments around it. -/
inductive ChainText : List (List Char) → List Char → Prop
  | name {text : List Char} (shown : Shown text) (reference : Lexeme.isReference text = true) :
      ChainText [text] text
  | access {names : List (List Char)} {own before dot after text : List Char}
      (inner : ChainText names own) (spaceBefore : IsSpacing before)
      (isDot : dot = ".".toList ∨ dot = "?.".toList) (spaceAfter : IsSpacing after)
      (shown : Shown text) : ChainText (names ++ [text]) (own ++ before ++ dot ++ after ++ text)

theorem ChainText.names_ne_nil {names : List (List Char)} {own : List Char}
    (h : ChainText names own) : names ≠ [] := by
  cases h <;> simp

theorem ChainText.dot_not_mem {names : List (List Char)} {own : List Char}
    (h : ChainText names own) : ∀ name ∈ names, '.' ∉ name := by
  induction h with
  | name shown _ => exact List.forall_mem_singleton.2 shown.dot_not_mem
  | access _ _ _ _ shown ih =>
      exact List.forall_mem_append.2 ⟨ih, List.forall_mem_singleton.2 shown.dot_not_mem⟩

/-- The dots of the name of a chain are those between its names. -/
theorem ChainText.splitOn_intercalate {names : List (List Char)} {own : List Char}
    (h : ChainText names own) : (['.'].intercalate names).splitOn '.' = names :=
  List.splitOn_intercalate '.' h.dot_not_mem h.names_ne_nil

namespace Node

/-- A chain of member accesses from a name, with the names along it, and comments among its
parts. -/
inductive IsChain : Node → List (List Char) → Prop
  | name (start : Nat) (text : List Char) : IsChain (leaf .name start text) [text]
  | access {object : Node} {names : List (List Char)} {between : List Node} (span : Span)
      (start : Nat) (text : List Char) (inner : IsChain object names)
      (comments : ∀ c ∈ between, c.isComment = true) :
      IsChain (branch .member span (object :: (between ++ [leaf .property start text])))
        (names ++ [text])

theorem IsChain.chain_eq {n : Node} {names : List (List Char)} (h : n.IsChain names) :
    n.chain = some names := by
  induction h with
  | name => rfl
  | access span start text _ _ ih => simp [chain, ih]

/-- A node, and what it is an access, an index or a call of, from the outside in. -/
def spine : Node → List Node
  | branch kind span (subject :: following) =>
      branch kind span (subject :: following) ::
        if kind == .member || kind == .indexed || kind == .call then subject.spine else []
  | n => [n]

/-- A call, an index or non-null access, an expression in parentheses, or the access of a private
name. -/
def breaksChain (n : Node) : Bool :=
  n.isBranch .call || n.isBranch .indexed || n.isBranch .parenthesized ||
    n.isBranch .member && n.children.getLast?.any (·.isLeaf .privateName)

theorem breaksChain_of_mem_spine {n m : Node} {names : List (List Char)}
    (h : n.chain = some names) (hm : m ∈ n.spine) : m.breaksChain = false := by
  fun_induction chain n generalizing names with
  | case1 start text =>
      obtain rfl : m = leaf .name start text := by simpa [spine] using hm
      rfl
  | case2 span object following start text hlast ih =>
      obtain ⟨inner, hinner, -⟩ := Option.map_eq_some_iff.1 h
      rw [spine, List.mem_cons] at hm
      rcases hm with rfl | hm
      · have hchildren : (object :: following).getLast? = some (leaf .property start text) := by
          rw [List.getLast?_cons, hlast]
          rfl
        simp [breaksChain, isBranch, children, hchildren, isLeaf]
      · exact ih hinner hm
  | case3 => cases h
  | case4 => cases h

end Node

namespace Shape

theorem Sound.tokens_ne_nil {s : Shape} (h : s.Sound) : s.tokens ≠ [] := by
  cases h with
  | token | run => simp
  | node _ firm _ _ => simpa using firm.1

/-- What is accessed or called is one node in the end. -/
theorem nodes_of_isSubject {x : Shape} (hx : x.IsSubject) (hsound : x.Sound) (offset : Nat) :
    ∃ n, x.nodes offset = [n] := by
  cases x with
  | token kind t =>
      cases kind with
      | some kind => exact ⟨.leaf kind (offset + byteLength t.gap) t.text, by simp [nodes]⟩
      | none =>
          -- a token that shows an element has been put in
          exfalso
          cases hsound with
          | token _ solid =>
              have hlooks := solid.looks
              have hnested : t.kind.isNested .element = true := hx
              cases hk : t.kind <;> simp_all [TokenKind.isNested, Token.Looks]
  | run t => exact hx.elim
  | node kind parts => exact ⟨_, nodes_node offset kind parts⟩

/-- The nodes between what is accessed and the name. -/
theorem isComment_link (before dots after : List Token) (offset : Nat) :
    ∀ n ∈ nodesAll offset (comments before ++ dots.map (token none) ++ comments after),
      n.isComment = true := by
  have hcomments : ∀ cs : List Token, ∀ p ∈ comments cs, ∀ offset, ∀ n ∈ p.nodes offset,
      n.isComment = true := by
    intro cs p hp offset n hn
    obtain ⟨c, -, rfl⟩ := List.mem_map.1 hp
    obtain rfl : n = .leaf .comment _ c.text := by simpa [nodes] using hn
    rfl
  refine forall_nodesAll (fun p hp => ?_) offset
  rcases List.mem_append.1 hp with hp | hp
  · rcases List.mem_append.1 hp with hp | hp
    · exact hcomments before p hp
    · obtain ⟨t, -, rfl⟩ := List.mem_map.1 hp
      simp [nodes]
  · exact hcomments after p hp

theorem tokensAll_map_token (kind : Option Leaf) (ts : List Token) :
    tokensAll (ts.map (token kind)) = ts := by
  induction ts with
  | nil => simp
  | cons t ts ih => simp [ih]

theorem isSpacing_comments {cs : List Token} (hcs : AreComments cs) (hsolid : ∀ c ∈ cs, c.Solid) :
    IsSpacing (charsOf cs) := by
  induction cs with
  | nil => exact .nil
  | cons c cs ih =>
      obtain ⟨hc, hcs⟩ := List.forall_mem_cons.1 hcs
      obtain ⟨hsolid, hrest⟩ := List.forall_mem_cons.1 hsolid
      have hremark : IsRemark c.text := by
        have hlooks := hsolid.looks
        simpa [Token.Looks, hc] using hlooks
      rw [charsOf_cons, List.append_assoc]
      exact .append (Or.inl hsolid.blank) (.append (Or.inr hremark) (ih hcs hrest))

end Shape

theorem Token.text_of_sign {t : Token} (hsolid : t.Solid) (h : t.kind = .sign) :
    ∃ c, t.text = [c] := by
  have hlooks := hsolid.looks
  obtain ⟨c, hc, -⟩ : ∃ c, t.text = [c] ∧ Lexeme.isBlank c = false := by
    simpa [Looks, h] using hlooks
  exact ⟨c, hc⟩

/-- Signs without white space before them are what they spell. -/
theorem charsOf_of_tightSigns {ts more : List Token} (hsigns : ∀ t ∈ ts, t.kind = .sign)
    (hsolid : ∀ t ∈ ts, t.Solid) {m : List Char} (hlength : ts.length = m.length)
    (h : m <+: tightSigns (ts ++ more)) : charsOf ts = m := by
  induction ts generalizing m with
  | nil => rw [List.length_eq_zero_iff.1 hlength.symm, charsOf_nil]
  | cons t ts ih =>
      obtain ⟨c, m, rfl⟩ := List.exists_cons_of_length_eq_add_one hlength.symm
      obtain ⟨hsign, hrest⟩ := List.forall_mem_cons.1 hsigns
      obtain ⟨ht, hsolid⟩ := List.forall_mem_cons.1 hsolid
      obtain ⟨d, hd⟩ := Token.text_of_sign ht hsign
      rw [List.cons_append, tightSigns] at h
      split at h
      · next htight =>
        rw [hd, List.singleton_append, List.cons_prefix_cons] at h
        have hgap : t.gap = [] := by simpa [hsign] using htight
        rw [charsOf_cons, hgap, hd, h.1, ih hrest hsolid (by simpa using hlength) h.2]
        rfl
      · exact absurd (List.prefix_nil.1 h) (List.cons_ne_nil c m)

/-- Signs that spell a text are that text, with white space before it. -/
theorem AreSigns.charsOf_eq {m : String} {ts : List Token} (h : AreSigns m ts)
    (hsolid : ∀ t ∈ ts, t.Solid) : ∃ gap, AreBlank gap ∧ charsOf ts = gap ++ m.toList := by
  obtain ⟨hsigns, hlength, more, hbegins⟩ := h
  cases ts with
  | nil => exact ⟨[], areBlank_nil, by simp [List.length_eq_zero_iff.1 hlength.symm]⟩
  | cons t ts =>
      obtain ⟨c, rest, hm⟩ := List.exists_cons_of_length_eq_add_one hlength.symm
      obtain ⟨hsign, hrest⟩ := List.forall_mem_cons.1 hsigns
      obtain ⟨ht, hsolid⟩ := List.forall_mem_cons.1 hsolid
      obtain ⟨d, hd⟩ := Token.text_of_sign ht hsign
      rw [hm] at hlength hbegins ⊢
      rw [List.cons_append, signs, hsign, beq_self_eq_true, if_pos rfl, hd, List.singleton_append,
        List.cons_prefix_cons] at hbegins
      refine ⟨t.gap, ht.blank, ?_⟩
      rw [charsOf_cons, hd, hbegins.1,
        charsOf_of_tightSigns hrest hsolid (by simpa using hlength) hbegins.2, List.append_assoc]
      rfl

namespace Shape

theorem IsProperty.eq_token {p : Shape} (h : p.IsProperty) :
    (∃ t, p = token (some .property) t ∧ t.kind = .word) ∨
      ∃ t, p = token (some .privateName) t ∧ t.kind = .privateWord := by
  unfold IsProperty at h
  split at h
  · exact Or.inl ⟨_, rfl, h⟩
  · exact Or.inr ⟨_, rfl, h⟩
  · exact h.elim

/-- A chain of accesses is written as one, from what is accessed on. -/
structure Chained (s : Shape) (n : Node) (names : List (List Char)) : Prop where
  isChain : n.IsChain names
  written : ∃ lead own, charsOf s.tokens = lead ++ own ∧ leadOf s.tokens = byteLength lead ∧
    ChainText names own

theorem chained_token {kind : Leaf} {t : Token} (hsubject : (token (some kind) t).IsSubject)
    (hsound : (token (some kind) t).Sound) {start : Nat} {names : List (List Char)}
    (h : (Node.leaf kind start t.text).chain = some names) :
    (token (some kind) t).Chained (.leaf kind start t.text) names := by
  cases kind with
  | name =>
      obtain rfl : [t.text] = names := by simpa [Node.chain] using h
      cases hsound with
      | token admitted solid =>
          have hshown : Shown t.text := grounded_leaf (admitted _ rfl) solid.looks start
          exact ⟨.name start t.text, t.gap, t.text, by simp, by simp [leadOf],
            .name hshown (hsubject.2.2 rfl)⟩
  | _ => simp [Node.chain] at h

/-- The characters of a member access, of what is accessed on. -/
theorem chainText_member {subject : Shape} {before dots after : List Token} {t : Token}
    (hsolid : ∀ u ∈ before ++ dots ++ after ++ [t], u.Solid) (hbefore : AreComments before)
    (hdots : AreSigns "." dots ∨ AreSigns "?." dots) (hafter : AreComments after)
    (hshown : Shown t.text) {names : List (List Char)} {lead own : List Char}
    (hchars : charsOf subject.tokens = lead ++ own) (hown : ChainText names own) :
    ∃ more, charsOf (subject.tokens ++ before ++ dots ++ after ++ [t]) = lead ++ more ∧
      ChainText (names ++ [t.text]) more := by
  simp only [List.forall_mem_append, List.forall_mem_singleton] at hsolid
  obtain ⟨⟨⟨hcs, hds⟩, hcs'⟩, ht⟩ := hsolid
  obtain ⟨m, gap, hm, hgap, hspell⟩ : ∃ m gap : List Char, (m = ".".toList ∨ m = "?.".toList) ∧
      AreBlank gap ∧ charsOf dots = gap ++ m := by
    rcases hdots with hdots | hdots
    · obtain ⟨gap, hgap, hspell⟩ := hdots.charsOf_eq hds
      exact ⟨_, gap, Or.inl rfl, hgap, hspell⟩
    · obtain ⟨gap, hgap, hspell⟩ := hdots.charsOf_eq hds
      exact ⟨_, gap, Or.inr rfl, hgap, hspell⟩
  have hleft := (isSpacing_comments hbefore hcs).concat (.of_areBlank hgap)
  have hright := (isSpacing_comments hafter hcs').concat (.of_areBlank ht.blank)
  refine ⟨_, ?_, .access hown hleft hm hright hshown⟩
  simp [hchars, hspell]

/-- A member access that has a chain of names has that of what is accessed and then its own name. -/
theorem chained_member {parts : List Shape} (hsound : ∀ p ∈ parts, p.Sound)
    (hmember : IsMember parts)
    (ih : ∀ p ∈ parts, p.IsSubject → ∀ offset n names, p.nodes offset = [n] →
      n.chain = some names → p.Chained n names)
    {offset : Nat} {span : Span} {names : List (List Char)}
    (h : (Node.branch .member span (nodesAll offset parts)).chain = some names) :
    (node .member parts).Chained (.branch .member span (nodesAll offset parts)) names := by
  obtain ⟨subject, before, dots, after, name, rfl, hsubject, hbefore, hdots, hafter, hname⟩ :=
    hmember
  obtain ⟨m, hm⟩ := nodes_of_isSubject hsubject (hsound _ (by simp)) offset
  let link := comments before ++ dots.map (token none) ++ comments after
  have hparts : subject :: comments before ++ dots.map (token none) ++ comments after ++ [name] =
      subject :: (link ++ [name]) := by simp [link]
  rw [hparts, nodesAll_cons, hm, nodesAll_append, nodesAll_cons, nodesAll_nil, List.append_nil,
    List.singleton_append] at h ⊢
  have hlink := isComment_link before dots after (offset + byteLength (charsOf subject.tokens))
  rcases hname.eq_token with ⟨t, rfl, ht⟩ | ⟨t, rfl, -⟩
  · rw [nodes] at h ⊢
    simp only [Node.chain, List.getLast?_concat] at h
    obtain ⟨inner, hinner, rfl⟩ := Option.map_eq_some_iff.1 h
    obtain ⟨hchain, lead, own, hchars, hlead, hown⟩ :=
      ih subject (by simp) hsubject offset m inner hm hinner
    have hsolid : ∀ u ∈ before ++ dots ++ after ++ [t], u.Solid := by
      intro u hu
      obtain ⟨kind, hu⟩ : ∃ kind, token kind u ∈ link ++ [token (some .property) t] := by
        simp only [List.mem_append, List.mem_singleton] at hu
        rcases hu with ((hu | hu) | hu) | rfl
        · exact ⟨some .comment, by simp [link, comments, hu]⟩
        · exact ⟨none, by simp [link, hu]⟩
        · exact ⟨some .comment, by simp [link, comments, hu]⟩
        · exact ⟨some .property, by simp⟩
      cases hsound _ (hparts ▸ List.mem_cons_of_mem subject hu) with
      | token _ solid => exact solid
    have hshown : Shown t.text := by
      have hlooks := (hsolid t (by simp)).looks
      simpa [Token.Looks, ht] using hlooks
    obtain ⟨more, hmore, hwritten⟩ :=
      chainText_member hsolid hbefore hdots hafter hshown hchars hown
    refine ⟨.access span _ t.text hchain hlink, lead, more, ?_, ?_, hwritten⟩
    · rw [← hmore]
      simp [link, comments, tokensAll_map_token]
    · obtain ⟨first, rest, hfirst⟩ :=
        List.exists_cons_of_ne_nil (hsound subject (by simp)).tokens_ne_nil
      rw [← hlead]
      simp [hfirst, leadOf]
  · rw [nodes] at h
    simp [Node.chain] at h

theorem Sound.chained {s : Shape} (hs : s.Sound) (hsubject : s.IsSubject) {offset : Nat} {n : Node}
    {names : List (List Char)} (hn : s.nodes offset = [n]) (h : n.chain = some names) :
    s.Chained n names := by
  induction hs generalizing offset n names with
  | @token kind t admitted solid =>
      cases kind with
      | none => simp [nodes] at hn
      | some kind =>
          obtain rfl : n = .leaf kind _ t.text := by simpa [nodes] using hn.symm
          exact chained_token hsubject (.token admitted solid) h
  | run => exact hsubject.elim
  | @node kind parts made firm built inner ih =>
      rw [nodes_node] at hn
      obtain rfl := List.singleton_inj.1 hn
      cases kind with
      | member =>
          exact chained_member inner built (fun p hp hsubject offset n names hn h =>
            ih p hp hsubject hn h) h
      | _ => simp [Node.chain] at h

end Shape

/-- A node has its characters in a text where its shape stands. -/
theorem excerpt_of_nodes {x : Shape} {n : Node} {before lead own : List Char}
    (hn : x.nodes (byteLength before) = [n]) (hchars : charsOf x.tokens = lead ++ own)
    (hlead : leadOf x.tokens = byteLength lead) (after : List Char) :
    excerpt (before ++ charsOf x.tokens ++ after) n.span = own := by
  obtain ⟨hstart, hstop⟩ := span_of_nodes hn
  have hspan : n.span = ⟨byteLength (before ++ lead),
      byteLength (before ++ lead) + byteLength own⟩ := by
    change Span.mk n.start n.stop = _
    rw [hstart, hstop, hlead, hchars, byteLength_append, byteLength_append, Nat.add_assoc]
  rw [hspan, hchars, ← List.append_assoc before, excerpt_append]

/-- A call is read with what is called in front. -/
theorem Shape.Sound.subject_of_call {s : Shape} (hs : s.Sound) {offset : Nat} {call : Node}
    (hcall : s.nodes offset = [call]) (hkind : call.isBranch .call = true) :
    ∃ (x : Shape) (following : List Token), s.tokens = x.tokens ++ following ∧ x.Sound ∧
      x.IsSubject ∧ ∃ callee others, x.nodes offset = [callee] ∧
        call.children = callee :: others := by
  cases hs with
  | @token kind t _ _ =>
      cases kind with
      | none => simp [nodes] at hcall
      | some kind =>
          obtain rfl : call = .leaf kind _ t.text := by simpa [nodes] using hcall.symm
          cases hkind
  | @run t _ _ =>
      obtain rfl : call = .run _ t.text := by simpa [nodes] using hcall.symm
      cases hkind
  | @node kind parts _ _ built inner =>
      rw [nodes_node] at hcall
      obtain rfl := List.singleton_inj.1 hcall
      obtain rfl : kind = .call := by simpa [Node.isBranch] using hkind
      obtain ⟨x, following, rfl, hx⟩ := built
      obtain ⟨callee, hcallee⟩ := nodes_of_isSubject hx (inner x (by simp)) offset
      have hchildren : nodesAll offset (x :: following) =
          callee :: nodesAll (offset + byteLength (charsOf x.tokens)) following := by
        rw [nodesAll_cons, hcallee, List.singleton_append]
      exact ⟨x, tokensAll following, by simp, inner x (by simp), hx, callee, _, hcallee, hchildren⟩

/-- The first child of a call, which is a chain as it is written if it has one. -/
structure Document.Calls (d : Document) (call callee : Node) : Prop where
  head : ∃ following, call.children = callee :: following
  chained : ∀ names, callee.chain = some names →
    callee.IsChain names ∧ ChainText names (d.excerpt callee.span)

theorem Document.exists_callee {path : Option String} {text : List Char} {d : Document}
    (h : Document.parse path text = .ok d) {call : Node} (hcall : call ∈ d.all)
    (hkind : call.isBranch .call = true) : ∃ callee, d.Calls call callee := by
  unfold Document.parse at h
  simp only at h
  split at h
  case h_2 => cases h
  case h_1 nodes hnodes =>
    obtain rfl := Except.ok.inj h
    obtain ⟨shapes, gap, rfl, hshapes, -, rfl⟩ := shapes_of_parse hnodes
    obtain ⟨s, front, back, hs, hsplit, hcall⟩ :=
      origin_nodesAll (fun s hs => (hshapes s hs).1) 0 call hcall
    obtain ⟨x, following, htokens, hsound, hx, callee, others, hcallee, hchildren⟩ :=
      hs.subject_of_call hcall hkind
    rw [Nat.zero_add] at hcallee
    refine ⟨callee, ⟨others, hchildren⟩, fun names hnames => ?_⟩
    obtain ⟨hchain, lead, own, hchars, hlead, hown⟩ := hsound.chained hx hcallee hnames
    refine ⟨hchain, ?_⟩
    have htext : charsOf (tokensAll shapes) ++ gap =
        charsOf front ++ charsOf x.tokens ++ (charsOf following ++ charsOf back ++ gap) := by
      simp [hsplit, htokens]
    rwa [Document.excerpt, htext, excerpt_of_nodes hcallee hchars hlead]

namespace Document.Calls

variable {d : Document} {call callee : Node} {names : List (List Char)}

theorem callee_eq (h : d.Calls call callee) : call.callee = callee.dottedName := by
  obtain ⟨following, hchildren⟩ := h.head
  rw [Node.callee, hchildren]
  rfl

theorem isChain_iff (h : d.Calls call callee) : callee.IsChain names ↔ callee.chain = some names :=
  ⟨fun hchain => hchain.chain_eq, fun hchain => (h.chained names hchain).1⟩

theorem callee_eq_some_iff (h : d.Calls call callee) {name : List Char} :
    call.callee = some name ↔
      ∃ names, callee.IsChain names ∧ name = ['.'].intercalate names := by
  rw [h.callee_eq, Node.dottedName, Option.map_eq_some_iff]
  refine exists_congr fun names => ?_
  rw [h.isChain_iff]
  exact and_congr_right fun _ => eq_comm

theorem chainText (h : d.Calls call callee) (hchain : callee.IsChain names) :
    ChainText names (d.excerpt callee.span) :=
  (h.chained names hchain.chain_eq).2

theorem callee_of_isChain (h : d.Calls call callee) (hchain : callee.IsChain names) :
    call.callee = some (['.'].intercalate names) :=
  h.callee_eq_some_iff.2 ⟨names, hchain, rfl⟩

end Document.Calls

/-- A call of a file that reads begins with its callee. The callee has a name exactly if it is a
chain of member accesses, and the name tells the names along the chain, which is how the callee is
written but for white space and comments: so callees have one name if and only if their chains list
the same names. No chain goes through a call, an index, parentheses or a private name. -/
theorem Document.callee_named {path : Option String} {text : List Char} {d : Document}
    (h : Document.parse path text = .ok d) {call : Node} (hcall : call ∈ d.all)
    (hkind : call.isBranch .call = true) :
    ∃ callee following, call.children = callee :: following ∧
      (∀ name, call.callee = some name ↔
        ∃ names, callee.IsChain names ∧ name = ['.'].intercalate names) ∧
      (∀ names, callee.IsChain names →
        (['.'].intercalate names).splitOn '.' = names ∧ ChainText names (d.excerpt callee.span)) ∧
      (∀ names, callee.IsChain names → ∀ path' text' e, Document.parse path' text' = .ok e →
        ∀ other ∈ e.all, other.isBranch .call = true → ∀ callee' ∈ other.children.head?,
          ∀ names', callee'.IsChain names' → (call.callee = other.callee ↔ names = names')) ∧
      ∀ n ∈ callee.spine, n.breaksChain = true → call.callee = none := by
  obtain ⟨callee, hcalls⟩ := exists_callee h hcall hkind
  obtain ⟨following, hchildren⟩ := hcalls.head
  refine ⟨callee, following, hchildren, fun _ => hcalls.callee_eq_some_iff,
    fun names hchain => ⟨(hcalls.chainText hchain).splitOn_intercalate, hcalls.chainText hchain⟩,
    ?_, fun n hn hbreaks => ?_⟩
  · intro names hchain path' text' e h' other hother hkind' callee' hcallee' names' hchain'
    obtain ⟨first, hcalls'⟩ := exists_callee h' hother hkind'
    obtain ⟨following', hchildren'⟩ := hcalls'.head
    obtain rfl : first = callee' := by simpa [hchildren'] using hcallee'
    rw [hcalls.callee_of_isChain hchain, hcalls'.callee_of_isChain hchain', Option.some.injEq]
    refine ⟨fun heq => ?_, fun heq => by rw [heq]⟩
    rw [← (hcalls.chainText hchain).splitOn_intercalate, heq,
      (hcalls'.chainText hchain').splitOn_intercalate]
  · rw [hcalls.callee_eq, Node.dottedName, Option.map_eq_none_iff]
    cases hchain : callee.chain with
    | none => rfl
    | some names =>
        rw [Node.breaksChain_of_mem_spine hchain hn] at hbreaks
        cases hbreaks

theorem Document.callee_named_optional :
    ∃ d, ∃ call ∈ d.all, ∃ callee : Node,
      Document.parse none "this.intl/* c */ ?.\n formatMessage(\"k\")".toList = .ok d ∧
      call.isBranch .call = true ∧ call.callee = some "this.intl.formatMessage".toList ∧
      callee.IsChain ["this".toList, "intl".toList, "formatMessage".toList] ∧
      d.excerpt callee.span = "this.intl/* c */ ?.\n formatMessage".toList := by
  have hfacts : (Document.parse none
      "this.intl/* c */ ?.\n formatMessage(\"k\")".toList).toOption.map (fun d =>
        (d.all.filter (·.isBranch .call)).map fun n =>
          (n.callee, n.children.head?.map fun c => d.excerpt c.span)) =
      some [(some "this.intl.formatMessage".toList,
        some "this.intl/* c */ ?.\n formatMessage".toList)] := by
    decide +kernel
  cases hparse : Document.parse none "this.intl/* c */ ?.\n formatMessage(\"k\")".toList with
  | error e =>
      rw [hparse] at hfacts
      cases hfacts
  | ok d =>
      rw [hparse] at hfacts
      obtain ⟨call, others, hcalls, hfirst, -⟩ := List.map_eq_cons_iff.1 (Option.some.inj hfacts)
      obtain ⟨hname, hexcerpt⟩ := Prod.mk.inj hfirst
      obtain ⟨hcall, hkind⟩ := List.mem_filter.1
          (hcalls ▸ List.mem_cons_self : call ∈ d.all.filter _)
      obtain ⟨callee, following, hchildren, hnamed, hchains, -⟩ :=
        Document.callee_named hparse hcall hkind
      obtain ⟨names, hchain, heq⟩ := (hnamed _).1 hname
      have hnames : "this.intl.formatMessage".toList.splitOn '.' = names := by
        rw [heq]
        exact (hchains names hchain).1
      refine ⟨d, call, hcall, callee, rfl, hkind, hname, ?_, ?_⟩
      · rw [← hnames] at hchain
        exact hchain
      · rw [hchildren] at hexcerpt
        exact Option.some.inj hexcerpt

end Phrasebook.Source

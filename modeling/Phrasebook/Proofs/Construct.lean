import Phrasebook.Proofs.Directive
import Phrasebook.Proofs.Frame
import Phrasebook.Proofs.TokenText

/-!
What the shapes of a file are made of. Leaves are made of tokens that look as they should, runs
are never empty, no construct begins or ends with white space, and the few constructs that matter
keep their own parts when the parts that were read on their own are put in. The sections of a file,
one after another, are all of it.
-/

namespace Phrasebook.Source

open Shape

namespace Shape

def Firm (ts : List Token) : Prop := ts ≠ [] ∧ FirmEnds ts

/-- A shape as it is in the end, when all parts have been put in. -/
inductive Sound : Shape → Prop
  | token {kind : Option Leaf} {t : Token} (admitted : ∀ k ∈ kind, k.admits t = true)
      (solid : t.Solid) : Sound (token kind t)
  | run {t : Token} (textual : t.kind = .text) (visible : t.text ≠ []) : Sound (run t)
  | node {kind : Construct} {parts : List Shape} (made : Made kind parts)
      (firm : Firm (tokensAll parts)) (built : Built kind parts)
      (inner : ∀ s ∈ parts, Sound s) : Sound (node kind parts)

/-- A part of a construct stays one. -/
theorem isPart_fill {test : Construct → Bool} {p : Shape} (hp : p.isPart test = true)
    (table : List (List Shape)) : ∀ x ∈ p.fill table, x.isPart test = true := by
  have hown : ∀ kind t k, t.kind = k → (∀ role index, k ≠ .nested role index) →
      (token kind t).isPart test = true →
        ∀ x ∈ (token kind t).fill table, x.isPart test = true := by
    intro kind t k hkind hk hpart x hx
    rw [fill_of_isOwn (isOwn_of_kind hkind hk), List.mem_singleton] at hx
    rwa [hx]
  cases p with
  | token kind t =>
      cases kind with
      | none => exact hown _ t .sign (by simpa [isPart] using hp) (by simp) hp
      | some kind =>
          cases kind with
          | chunk => exact hown _ t .chunk (by simpa [isPart] using hp) (by simp) hp
          | comment => exact hown _ t .comment (by simpa [isPart] using hp) (by simp) hp
          | _ => cases hp
  | run t => cases hp
  | node kind parts =>
      intro x hx
      rw [fill_node, List.mem_singleton] at hx
      rwa [hx]

theorem isPart_fillAll {test : Construct → Bool} {parts : List Shape}
    (h : ∀ p ∈ parts, p.isPart test = true) (table : List (List Shape)) :
    ∀ x ∈ fillAll table parts, x.isPart test = true := by
  intro x hx
  obtain ⟨p, hp, hx⟩ := mem_fillAll.1 hx
  exact isPart_fill (h p hp) table x hx

theorem beginsWith_fillAll {kind : TokenKind} (hkind : ∀ role index, kind ≠ .nested role index)
    {parts : List Shape} (hparts : ∀ s ∈ parts, s.IsCode)
    (h : BeginsWith kind (tokensAll parts)) (table : List (List Shape)) :
    BeginsWith kind (tokensAll (fillAll table parts)) := by
  obtain ⟨t, rest, ht, hk⟩ := h
  have hown := isOwn_of_kind hk hkind
  rw [tokensAll_fillAll hparts, ht, List.flatMap_cons, hown.filled_eq]
  exact ⟨t, _, rfl, hk⟩

theorem opensWith_fillAll {c : Char} {parts : List Shape} (hparts : ∀ s ∈ parts, s.IsCode)
    (h : OpensWith c (tokensAll parts)) (table : List (List Shape)) :
    OpensWith c (tokensAll (fillAll table parts)) := by
  obtain ⟨t, rest, ht, hk, hc⟩ := h
  have hown := isOwn_of_kind hk (by simp)
  rw [tokensAll_fillAll hparts, ht, List.flatMap_cons, hown.filled_eq]
  exact ⟨t, _, rfl, hk, hc⟩

theorem made_fillAll {kind : Construct} {parts : List Shape} (hparts : ∀ s ∈ parts, s.IsCode)
    (h : Made kind parts) (table : List (List Shape)) : Made kind (fillAll table parts) := by
  cases kind with
  | template =>
      exact ⟨opensWith_fillAll hparts h.1 table, isPart_fillAll h.2 table⟩
  | namedImports => exact isPart_fillAll h table
  | importDeclaration typeOnly => exact beginsWith_fillAll (by simp) hparts h table
  | _ => trivial

/-- A row of tokens with its parts put in begins and ends as its first and last token do. -/
theorem firm_filled {table : List (List Shape)} {ts : List Token} (hne : ts ≠ []) (h : FirmEnds ts)
    (hfirm : ∀ t ∈ ts, ¬t.IsOwn → Firm (t.filled table)) :
    Firm (ts.flatMap (Token.filled table)) := by
  have hone : ∀ t ∈ ts, t.kind.isLoose = false → Firm (t.filled table) := by
    intro t ht hkind
    by_cases hown : t.IsOwn
    · rw [hown.filled_eq]
      exact ⟨by simp, by simpa using hkind, by simpa using hkind⟩
    · exact hfirm t ht hown
  obtain ⟨t, rest, rfl⟩ := List.exists_cons_of_ne_nil hne
  obtain ⟨htext, hends⟩ := hone t (by simp) (h.first t rfl)
  refine ⟨by simp [htext], ?_, ?_⟩
  · rw [List.flatMap_cons, List.head?_append_of_ne_nil _ htext]
    exact hends.first
  · obtain ⟨init, u, hlast⟩ := (List.eq_nil_or_concat (t :: rest)).resolve_left hne
    rw [hlast, List.concat_eq_append] at h hone ⊢
    obtain ⟨hutext, huends⟩ := hone u (by simp) (h.last u (by simp))
    rw [List.flatMap_append, List.flatMap_singleton, List.getLast?_append_of_ne_nil _ hutext]
    exact huends.last

theorem isListed_fill {p : Shape} (hp : p.IsListed) (table : List (List Shape)) :
    ∀ x ∈ p.fill table, x.IsListed := by
  have hown : ∀ kind t k, t.kind = k → (∀ role index, k ≠ .nested role index) →
      (token kind t).IsListed → ∀ x ∈ (token kind t).fill table, x.IsListed := by
    intro kind t k hkind hk hpart x hx
    rw [fill_of_isOwn (isOwn_of_kind hkind hk), List.mem_singleton] at hx
    rwa [hx]
  cases p with
  | token kind t =>
      cases kind with
      | none => exact hown _ t .sign hp.1 (by simp) hp
      | some kind =>
          cases kind with
          | comment => exact hown _ t .comment hp (by simp) hp
          | _ => cases hp
  | run t => cases hp
  | node kind parts =>
      intro x hx
      rw [fill_node, List.mem_singleton] at hx
      rwa [hx]

theorem fill_of_isNaming {p : Shape} (hp : p.IsNaming) (table : List (List Shape)) :
    p.fill table = [p] := by
  cases p with
  | token kind t =>
      refine fill_of_isOwn fun role index hk => ?_
      have hkind : t.kind = .word ∨ t.kind = .string ∨ t.kind = .comment := hp
      simp [hk] at hkind
  | run t => cases hp
  | node kind parts => cases hp

theorem fillAll_of_fill {table : List (List Shape)} {parts : List Shape}
    (h : ∀ p ∈ parts, p.fill table = [p]) : fillAll table parts = parts := by
  induction parts with
  | nil => simp
  | cons p parts ih =>
      rw [fillAll_cons, h p (by simp), ih fun q hq => h q (by simp [hq]), List.singleton_append]

theorem fillAll_append (table : List (List Shape)) (a b : List Shape) :
    fillAll table (a ++ b) = fillAll table a ++ fillAll table b := by
  induction a with
  | nil => simp
  | cons s a ih => rw [List.cons_append, fillAll_cons, fillAll_cons, ih, List.append_assoc]

def ShowsNode (table : List (List Shape)) (t : Token) : Prop :=
  t.kind.isNested .element = true → ∃ kind inner, (token none t).fill table = [node kind inner]

/-- What is accessed or called stays one shape. -/
theorem isSubject_fill {table : List (List Shape)} {x : Shape} (hx : x.IsSubject)
    (hshows : ∀ t ∈ x.tokens, ShowsNode table t) : ∃ y, x.fill table = [y] ∧ y.IsSubject := by
  cases x with
  | token kind t =>
      cases kind with
      | none =>
          obtain ⟨kind, inner, hfill⟩ := hshows t (by simp) hx
          exact ⟨_, hfill, trivial⟩
      | some kind => exact ⟨_, fill_of_isOwn hx.2.1, hx⟩
  | run t => exact hx.elim
  | node kind parts => exact ⟨_, fill_node table kind parts, trivial⟩

theorem fillAll_of_isOwn {table : List (List Shape)} {kind : Option Leaf} {k : TokenKind}
    (hk : ∀ role index, k ≠ .nested role index) {ts : List Token} (h : ∀ t ∈ ts, t.kind = k) :
    fillAll table (ts.map (token kind)) = ts.map (token kind) := by
  refine fillAll_of_fill fun p hp => ?_
  obtain ⟨t, ht, rfl⟩ := List.mem_map.1 hp
  exact fill_of_isOwn (isOwn_of_kind (h t ht) hk)

theorem fill_of_isProperty {p : Shape} (hp : p.IsProperty) (table : List (List Shape)) :
    p.fill table = [p] := by
  unfold IsProperty at hp
  split at hp
  · exact fill_of_isOwn (isOwn_of_kind hp (by simp))
  · exact fill_of_isOwn (isOwn_of_kind hp (by simp))
  · exact hp.elim

theorem isMember_fillAll {table : List (List Shape)} {parts : List Shape} (h : IsMember parts)
    (hshows : ∀ t ∈ tokensAll parts, ShowsNode table t) : IsMember (fillAll table parts) := by
  obtain ⟨subject, before, dots, after, name, rfl, hsubject, hbefore, hdots, hafter, hname⟩ := h
  have hsigns : ∀ t ∈ dots, t.kind = .sign := hdots.elim (·.kind) (·.kind)
  obtain ⟨y, hfill, hy⟩ := isSubject_fill hsubject fun t ht => hshows t (by simp [ht])
  refine ⟨y, before, dots, after, name, ?_, hy, hbefore, hdots, hafter, hname⟩
  simp only [List.cons_append, fillAll_cons, fillAll_append, fillAll_nil, hfill, comments,
    fillAll_of_isOwn (k := .comment) (by simp) hbefore,
    fillAll_of_isOwn (k := .sign) (by simp) hsigns,
    fillAll_of_isOwn (k := .comment) (by simp) hafter, fill_of_isProperty hname, List.append_nil,
    List.nil_append]

theorem built_fillAll {kind : Construct} {parts : List Shape} (h : Built kind parts)
    {table : List (List Shape)} (hshows : ∀ t ∈ tokensAll parts, ShowsNode table t) :
    Built kind (fillAll table parts) := by
  cases kind with
  | namedImports =>
      obtain ⟨l, inner, r, rfl, hl, hr, hinner⟩ := h
      refine ⟨l, fillAll table inner, r, ?_, hl, hr, fun x hx => ?_⟩
      · have hfirst : (token none l).fill table = [token none l] :=
          fill_of_isOwn (isOwn_of_kind hl.1 (by simp))
        have hlast : (token none r).fill table = [token none r] :=
          fill_of_isOwn (isOwn_of_kind hr.1 (by simp))
        rw [List.cons_append, fillAll_cons, fillAll_append, fillAll_cons, fillAll_nil,
          hfirst, hlast]
        simp
      · obtain ⟨p, hp, hx⟩ := mem_fillAll.1 hx
        exact isListed_fill (hinner p hp) table x hx
  | importSpecifier typeOnly =>
      rw [fillAll_of_fill fun p hp => fill_of_isNaming (h.1 p hp) table]
      exact h
  | member => exact isMember_fillAll h hshows
  | call =>
      obtain ⟨subject, following, rfl, hsubject⟩ := h
      obtain ⟨y, hfill, hy⟩ := isSubject_fill hsubject fun t ht => hshows t (by simp [ht])
      exact ⟨y, fillAll table following, by rw [fillAll_cons, hfill, List.singleton_append], hy⟩
  | _ => trivial

/-- An outline of sound tokens with sound parts put in is sound. -/
theorem IsCode.sound_fill {table : List (List Shape)}
    (htable : ∀ ss ∈ table, ∀ s ∈ ss, s.Sound) {s : Shape} (hs : s.IsCode) (hframed : s.IsFramed)
    (hsolid : ∀ t ∈ s.tokens, t.IsOwn → t.Solid)
    (hfirm : ∀ t ∈ s.tokens, ¬t.IsOwn → Firm (t.filled table))
    (hshows : ∀ t ∈ s.tokens, ShowsNode table t) : ∀ x ∈ s.fill table, x.Sound := by
  induction hs with
  | @token kind leaf t admitted =>
      intro x hx
      by_cases hnested : ∃ role index, t.kind = .nested role index
      · obtain ⟨role, index, hk⟩ := hnested
        simp only [fill, hk] at hx
        by_cases hindex : index < table.length
        · rw [List.getD_eq_getElem _ _ hindex] at hx
          exact htable _ (List.getElem_mem hindex) x hx
        · rw [List.getD_eq_default _ _ (Nat.le_of_not_lt hindex)] at hx
          cases hx
      · have hown : t.IsOwn := fun role index hk => hnested ⟨role, index, hk⟩
        rw [fill_of_isOwn hown, List.mem_singleton] at hx
        rw [hx]
        exact .token admitted (hsolid t (by simp) hown)
  | @node kind parts made visible inner ih =>
      intro x hx
      rw [fill_node, List.mem_singleton] at hx
      rw [hx]
      rw [tokens_node] at hsolid hfirm hshows
      cases hframed with
      | node ends built framed =>
          refine .node (made_fillAll inner made table) ?_ (built_fillAll built hshows)
            fun y hy => ?_
          · rw [tokensAll_fillAll inner]
            exact firm_filled visible ends hfirm
          · obtain ⟨p, hp, hy⟩ := mem_fillAll.1 hy
            have hmem : ∀ t ∈ p.tokens, t ∈ tokensAll parts :=
              fun t ht => mem_tokensAll.2 ⟨p, hp, ht⟩
            exact ih p hp (framed p hp) (fun t ht => hsolid t (hmem t ht))
              (fun t ht => hfirm t (hmem t ht)) (fun t ht => hshows t (hmem t ht)) y hy

end Shape

/-! ### Reading makes sound shapes -/

variable {dialect : Dialect} {result : List Shape}

/-- A part of sound tokens, whose shapes are sound if it reads, and begin and end with firm tokens
if it is more than a token. An element is one node. -/
structure Part.Lawful (p : Part) : Prop where
  own : p.1.first.IsOwn
  solid : ∀ t ∈ p.1.tokens, t.Solid
  sound : ∀ shapes, p.2 = .ok shapes → ∀ s ∈ shapes, s.Sound
  firm : p.1.role?.isSome = true → ∀ shapes, p.2 = .ok shapes → Firm (tokensAll shapes)
  element : p.1.role? = some .element → ∀ shapes, p.2 = .ok shapes →
    ∃ inner, shapes = [.node .element inner]

theorem Part.sound_of_shapes {parts : List Part} (h : ∀ p ∈ parts, p.Lawful)
    {found : List (List Shape)} (hfound : Part.shapes parts = .ok found) :
    ∀ ss ∈ found, ∀ s ∈ ss, s.Sound := by
  rw [Part.shapes_eq_ok] at hfound
  intro ss hss
  have hmem : (.ok ss : Except Fault (List Shape)) ∈ parts.map Prod.snd := by
    rw [hfound]
    exact List.mem_map_of_mem hss
  obtain ⟨p, hp, hps⟩ := List.mem_map.1 hmem
  exact (h p hp).sound ss hps

/-- The part that a token of an outline stands for. -/
theorem Part.exists_of_mem_outline {parts : List Part} (h : ∀ p ∈ parts, p.1.first.IsOwn)
    {found : List (List Shape)} (hfound : Part.shapes parts = .ok found)
    (after : List (List Shape)) {t : Token} (ht : t ∈ Tree.outline 0 (parts.map Prod.fst))
    {role : Role} {index : Nat} (hk : t.kind = .nested role index) :
    ∃ p ∈ parts, p.1.role? = some role ∧ p.2 = .ok ((found ++ after).getD index []) := by
  have hfirst : ∀ tree ∈ parts.map Prod.fst, tree.first.IsOwn := by
    intro tree htree
    obtain ⟨p, hp, rfl⟩ := List.mem_map.1 htree
    exact h p hp
  obtain ⟨left, right, heq⟩ := List.append_of_mem ht
  obtain ⟨before, tree, behind, htrees, -, rfl, hrole, -⟩ := Tree.outline_eq_append hfirst heq hk
  obtain ⟨front, back, rfl, rfl, hback⟩ := List.map_eq_append_iff.1 htrees
  obtain ⟨p, back, rfl, rfl, rfl⟩ := List.map_eq_cons_iff.1 hback
  obtain ⟨found, others, rfl, hmap, hothers⟩ :=
    List.map_eq_append_iff.1 ((List.map_append).symm.trans (Part.shapes_eq_ok.1 hfound)).symm
  obtain ⟨shapes, others, rfl, hp, -⟩ := List.map_eq_cons_iff.1 hothers
  have hlength : found.length = front.length := by simpa using congrArg List.length hmap
  refine ⟨p, by simp, hrole, ?_⟩
  simp [← hp, ← hlength]

/-- What a token of an outline stands for is firm. -/
theorem Part.firm_of_mem_outline {parts : List Part} (h : ∀ p ∈ parts, p.Lawful)
    {table : List (List Shape)} (htable : Part.shapes parts = .ok table) {t : Token}
    (ht : t ∈ Tree.outline 0 (parts.map Prod.fst)) (hown : ¬t.IsOwn) : Firm (t.filled table) := by
  obtain ⟨role, index, hk⟩ : ∃ role index, t.kind = .nested role index := by
    simpa [Token.IsOwn] using hown
  obtain ⟨p, hp, hrole, hshapes⟩ :=
    Part.exists_of_mem_outline (fun p hp => (h p hp).own) htable [] ht hk
  rw [List.append_nil] at hshapes
  rw [Token.filled, hk]
  exact (h p hp).firm (by rw [hrole]; rfl) _ hshapes

/-- What a token of an outline stands for, if it shows an element. -/
theorem Part.showsNode_of_mem_outline {parts : List Part} (h : ∀ p ∈ parts, p.Lawful)
    {table : List (List Shape)} (htable : Part.shapes parts = .ok table) {t : Token}
    (ht : t ∈ Tree.outline 0 (parts.map Prod.fst)) : ShowsNode table t := by
  intro hnested
  obtain ⟨index, hk⟩ : ∃ index, t.kind = .nested .element index := by
    cases hkind : t.kind <;> simp_all [TokenKind.isNested]
  obtain ⟨p, hp, hrole, hshapes⟩ :=
    Part.exists_of_mem_outline (fun p hp => (h p hp).own) htable [] ht hk
  obtain ⟨inner, hinner⟩ := (h p hp).element hrole _ hshapes
  rw [List.append_nil] at hinner
  exact ⟨.element, inner, by simp only [fill, hk, hinner]⟩

theorem Part.sound_of_readAs {goal : Goal} {parts : List Part} (h : ∀ p ∈ parts, p.Lawful)
    (hread : Part.readAs dialect goal parts = .ok result) : ∀ s ∈ result, s.Sound := by
  obtain ⟨shown, table, hshown, htable, rfl⟩ := Part.readAs_eq_ok.1 hread
  obtain ⟨⟨rest, hrest⟩, hcode⟩ := readAll_ok hshown
  intro x hx
  obtain ⟨s, hs, hx⟩ := mem_fillAll.1 hx
  have hmem : ∀ t ∈ s.tokens, t ∈ Tree.outline 0 (parts.map Prod.fst) := by
    intro t ht
    rw [hrest]
    exact List.mem_append_left _ (mem_tokensAll.2 ⟨s, hs, ht⟩)
  refine (hcode s hs).sound_fill (Part.sound_of_shapes h htable) (framed_of_readAll hshown s hs) ?_
    (fun t ht hown => Part.firm_of_mem_outline h htable (hmem t ht) hown)
    (fun t ht => Part.showsNode_of_mem_outline h htable (hmem t ht)) x hx
  intro t ht hown
  obtain ⟨p, hp, hpt⟩ := List.mem_map.1 (Tree.token_mem_of_outline (hmem t ht) hown)
  refine (h p hp).solid t ?_
  rw [hpt, Tree.tokens_token]
  exact List.mem_singleton_self t

theorem Part.sound_of_readElement {parts : List Part} (h : ∀ p ∈ parts, p.Lawful)
    (hread : Part.readElement dialect parts = .ok result) (hfirm : Firm (tokensAll result)) :
    ∀ s ∈ result, s.Sound := by
  by_cases hend : ∃ p ∈ parts, Part.endsTag p = true
  · obtain ⟨p, hp, ht⟩ := hend
    obtain ⟨c, hc, rfl⟩ := Part.Cut.exists_valid hp ht
    obtain ⟨tag, content, htag, hcontent, rfl⟩ := (Part.readElement_cut hc).1 hread
    obtain ⟨inner, closing, hinner, hclosing, rfl⟩ := (Part.readContent_cut hc).1 hcontent
    simp only [Part.Cut.row, List.forall_mem_append, List.forall_mem_cons] at h
    obtain ⟨hop, htagEnd, hcon, hcl⟩ := h
    have ho := Part.sound_of_readAs
      (List.forall_mem_append.2 ⟨hop, List.forall_mem_singleton.2 htagEnd⟩) htag
    have hi := Part.sound_of_shapes hcon hinner
    have hk := Part.sound_of_readAs hcl hclosing
    refine List.forall_mem_singleton.2 (.node trivial (by simpa using hfirm) trivial ?_)
    simp only [List.forall_mem_append]
    refine ⟨ho, fun s hs => ?_, hk⟩
    obtain ⟨ss, hss, hs⟩ := List.mem_flatten.1 hs
    exact hi ss hss s hs
  · have hall : ∀ p ∈ parts, Part.endsTag p = false := by simpa using hend
    obtain ⟨tag, htag, rfl⟩ := (Part.readElement_simple hall).1 hread
    exact List.forall_mem_singleton.2
      (.node trivial (by simpa using hfirm) trivial (Part.sound_of_readAs h htag))

theorem Shape.sound_ofText (text : List Char) : ∀ s ∈ ofText text, s.Sound := by
  have hlayout : ∀ layout, ∀ s ∈ stretch (token none) layout, s.Sound := by
    intro layout s hs
    unfold stretch at hs
    split at hs
    · cases hs
    · rw [List.mem_singleton.1 hs]
      exact .token (by simp) ⟨areBlank_nil, trivial⟩
  rw [ofText_eq]
  simp only [List.forall_mem_append]
  refine ⟨⟨hlayout _, fun s hs => ?_⟩, hlayout _⟩
  unfold stretch at hs
  split at hs
  · cases hs
  · next hne =>
    rw [List.mem_singleton.1 hs]
    exact .run rfl (by simpa using hne)

namespace Tree

theorem sound_tokenShapes {t : Token} (h : t.Solid) : ∀ s ∈ tokenShapes t, s.Sound := by
  unfold tokenShapes
  split
  · exact Shape.sound_ofText _
  · next hk =>
    refine List.forall_mem_singleton.2 (.token (fun k hk' => ?_) h)
    obtain rfl : Leaf.string .attribute = k := by simpa using hk'
    simp [Leaf.admits, hk]
  · exact List.forall_mem_singleton.2 (.token (by simp) h)

theorem lawful_token {t : Token} (hown : t.IsOwn) (h : t.Solid) :
    Part.Lawful (token t, (token t).read dialect) := by
  refine ⟨hown, by simpa using h, fun shapes hs => ?_, fun hrole shapes hs => ?_,
    fun hrole _ => @read_element dialect _ _ hrole⟩
  · rw [read_token] at hs
    obtain rfl := Except.ok.inj hs
    exact sound_tokenShapes h
  · rw [read_token] at hs
    obtain rfl := Except.ok.inj hs
    have hkind : t.kind = .attribute := by
      by_contra hne
      simp [role?, hne] at hrole
    have hfirm : t.kind.isLoose = false := by rw [hkind]; rfl
    simp only [tokenShapes, hkind]
    exact ⟨by simp, by simpa using hfirm, by simpa using hfirm⟩

/-- What opens a whole tree and what closes it are firm. -/
theorem firm_of_recut {opening : Token} {parts : List Tree} {ending : Option Token} {top : Bool}
    (h : Formed true top (nested opening parts ending)) {cut : List Token}
    (hcut : Recut cut (nested opening parts ending).tokens) : Firm cut := by
  cases h with
  | nested proper opens closes isWhole inner =>
      obtain ⟨e, rfl⟩ := Option.isSome_iff_exists.1 (isWhole rfl)
      have hopens : opening.kind.isLoose = false ∧ opening.kind ≠ .text := by
        cases hk : opening.kind <;> simp [hk, TokenKind.opens] at opens <;> simp [TokenKind.isLoose]
      have hcloses : e.kind.isLoose = false ∧ e.kind ≠ .text := by
        have he := (closes e rfl).2
        cases hk : e.kind <;> simp [hk, TokenKind.closes] at he <;> simp [TokenKind.isLoose]
      rw [tokens_nested] at hcut
      obtain ⟨later, rfl⟩ := Recut.eq_cons hcut hopens.2
      obtain ⟨init, hinit⟩ := Recut.eq_concat hcut hcloses.2
      refine ⟨List.cons_ne_nil _ _, by simpa using hopens.1, ?_⟩
      rw [hinit]
      simpa using hcloses.1

theorem lawful_read {top : Bool} {t : Tree} (hformed : Formed true top t)
    (h : ∀ u ∈ t.tokens, u.Solid) : Part.Lawful (t, t.read dialect) := by
  have hown := Token.isOwn_of_isProper hformed.first_isProper
  induction t using induction_parts generalizing top with
  | htoken t => exact lawful_token hown (h t (by simp))
  | hnested opening parts ending ih =>
      have hrow : ∀ p ∈ row opening (readEach dialect parts) ending, p.Lawful := by
        rw [row_eq_readEach, readEach_eq_map]
        intro p hp
        obtain ⟨t, ht, rfl⟩ := List.mem_map.1 hp
        have hsolid : ∀ u ∈ t.tokens, u.Solid := by
          intro u hu
          refine h u ?_
          rw [← tokensAll_row]
          exact mem_tokensAll.2 ⟨t, ht, hu⟩
        obtain ⟨hproper, ⟨hmem, hform⟩ | htoken⟩ := formed_row hformed t ht
        · exact ih t hmem hform hsolid (Token.isOwn_of_isProper hproper)
        · rw [htoken] at hsolid ⊢
          exact lawful_token (Token.isOwn_of_isProper hproper) (hsolid t.first (by simp))
      have hfirm : ∀ shapes, (nested opening parts ending).read dialect = .ok shapes →
          Firm (Shape.tokensAll shapes) := fun shapes hs =>
        firm_of_recut hformed ((faithful_read hformed).recut shapes hs)
      refine ⟨hown, h, fun shapes hs => ?_, fun _ => hfirm,
        fun hrole _ => @read_element dialect _ _ hrole⟩
      have hshapes := hfirm shapes hs
      simp only [read_nested, readNested] at hs
      split at hs
      · exact Part.sound_of_readAs hrow hs
      · exact Part.sound_of_readElement hrow hs hshapes

/-! ### Sections -/

theorem flatten_sections (trees : List Tree) : (sections trees).flatten = trees := by
  induction trees with
  | nil => rfl
  | cons t trees ih =>
      rw [sections]
      split
      · next first others h =>
        rw [h] at ih
        split
        · simpa using ih
        · simpa using ih
      · next h =>
        rw [h] at ih
        simpa using ih

def Imports (trees : List Tree) : Prop :=
  ∃ t rest, trees = token t :: rest ∧ t.kind = .importWord

theorem Imports.ne_nil {trees : List Tree} (h : Imports trees) : trees ≠ [] := by
  obtain ⟨t, rest, rfl, -⟩ := h
  exact List.cons_ne_nil _ rest

/-- All sections but the first begin with an import. -/
theorem sections_eq (trees : List Tree) :
    ∃ first others, sections trees = first :: others ∧ ∀ l ∈ others, Imports l := by
  induction trees with
  | nil => exact ⟨[], [], rfl, by simp⟩
  | cons t trees ih =>
      obtain ⟨first, others, h, hothers⟩ := ih
      rw [sections, h]
      simp only
      split
      · next himport =>
        refine ⟨[], (t :: first) :: others, rfl, List.forall_mem_cons.2 ⟨?_, hothers⟩⟩
        cases t with
        | token t => exact ⟨t, first, rfl, beq_iff_eq.1 himport⟩
        | nested opening parts ending => cases himport
      · exact ⟨t :: first, others, rfl, hothers⟩

theorem shown_end {e : Token} (he : isEnd e = true) (index : Nat) : (token e).shown index = e := by
  have hkind : e.kind = .stop ∨ e.kind = .border := by simpa [isEnd] using he
  have hrole : (token e).role? = none := by rcases hkind with hk | hk <;> simp [role?, hk]
  rw [shown, hrole]
  rfl

theorem isEnd_of_mem_outline {body : List Tree} (hbody : ∀ t ∈ body, t.first.isProper = true)
    {t : Token} {index : Nat} (ht : t ∈ outline index body) : isEnd t = false := by
  cases hend : isEnd t with
  | false => rfl
  | true =>
      exfalso
      have hkind : t.kind = .stop ∨ t.kind = .border := by simpa [isEnd] using hend
      have hmem : token t ∈ body := by
        refine token_mem_of_outline ht ?_
        rcases hkind with hk | hk <;> simp [hk]
      have hproper := hbody _ hmem
      rcases hkind with hk | hk <;> simp [first, Token.isProper, hk] at hproper

/-- Reading a section takes all tokens of its outline but the end. -/
theorem exists_shown_section {body : List Tree} (hbody : ∀ t ∈ body, t.first.isProper = true)
    {e : Token} (he : isEnd e = true)
    (hread : Part.readAs dialect .section (readEach dialect (body ++ [token e])) = .ok result) :
    ∃ read found last, readAll dialect .section (outline 0 (body ++ [token e])) = .ok read ∧
      Part.shapes (readEach dialect body) = .ok found ∧ result = fillAll (found ++ last) read ∧
      Shape.tokensAll read = outline 0 body := by
  obtain ⟨read, table, hshown, htable, rfl⟩ := Part.readAs_eq_ok.1 hread
  obtain ⟨rest, hrest, hatEnd⟩ := atEnd_of_readAll (by simp [Goal.TakesAll]) hshown
  have hnoEnd := isEnd_of_readAll hshown
  rw [readEach_fst] at hshown hrest
  rw [outline_append, outline, outline, shown_end he] at hrest
  rw [readEach_append] at htable
  obtain ⟨found, last, hfound, -, rfl⟩ := Part.shapes_append_ok htable
  refine ⟨read, found, last, hshown, hfound, rfl, ?_⟩
  -- the end is not read, and nothing before it is an end
  cases rest with
  | nil =>
      have hmem : e ∈ Shape.tokensAll read := by
        rw [List.append_nil] at hrest
        simp [← hrest]
      rw [hnoEnd e hmem] at he
      cases he
  | cons r rest =>
      rcases List.eq_nil_or_concat rest with rfl | ⟨init, last, rfl⟩
      · exact (List.append_inj_left' hrest rfl).symm
      · have hsplit : outline 0 body ++ [e] = (Shape.tokensAll read ++ r :: init) ++ [last] := by
          simpa using hrest
        have hmem : r ∈ outline 0 body := by simp [List.append_inj_left' hsplit rfl]
        have hr := isEnd_of_mem_outline hbody hmem
        have hend : isEnd r = true := hatEnd
        rw [hr] at hend
        cases hend

/-- What is read of a section is all of it but its end. -/
theorem section_recut {body : List Tree} (hbody : ∀ t ∈ body, Formed true true t) {e : Token}
    (he : isEnd e = true)
    (hread : Part.readAs dialect .section (readEach dialect (body ++ [token e])) = .ok result) :
    Recut (Shape.tokensAll result) (tokensAll body) := by
  obtain ⟨read, found, last, hshown, hfound, rfl, htokens⟩ :=
    exists_shown_section (fun t ht => (hbody t ht).first_isProper) he hread
  have hfaithful : ∀ p ∈ readEach dialect body, p.Faithful := by
    intro p hp
    rw [readEach_eq_map] at hp
    obtain ⟨t, ht, rfl⟩ := List.mem_map.1 hp
    exact faithful_read (hbody t ht)
  have hfilled := Part.outline_filled hfaithful hfound [] last
  rw [readEach_fst] at hfilled
  rw [tokensAll_fillAll (readAll_ok hshown).2, htokens]
  simpa using hfilled

/-- All trees of sections that read do. -/
theorem reads_of_readSections {secs : List (List Tree)} {offset : Nat} {nodes : List Node}
    (h : readSections dialect offset secs = .ok nodes) :
    ∀ t ∈ secs.flatten, ∃ shapes, t.read dialect = .ok shapes := by
  induction secs generalizing offset nodes with
  | nil => simp
  | cons first others ih =>
      rw [readSections] at h
      split at h
      · cases h
      · next shapes hshapes =>
        intro t ht
        rw [List.flatten_cons, List.mem_append] at ht
        rcases ht with ht | ht
        · refine reads_of_readAs hshapes (t, t.read dialect) ?_
          rw [readEach_eq_map]
          exact List.mem_map_of_mem (List.mem_append_left _ ht)
        · cases hrest : readSections dialect (offset + addUp (first.map Tree.width)) others with
          | error f => simp [hrest, Except.map] at h
          | ok rest => exact ih hrest t ht

theorem addUp_width (trees : List Tree) :
    addUp (trees.map Tree.width) = byteLength (charsOf (tokensAll trees)) := by
  induction trees with
  | nil => rfl
  | cons t trees ih =>
      rw [List.map_cons, addUp_cons, ih, Tree.width_eq]
      simp

theorem isOwn_first {body : List Tree} (hbody : ∀ t ∈ body, Formed true true t) {e : Token}
    (he : isEnd e = true) : ∀ t ∈ body ++ [token e], t.first.IsOwn := by
  intro t ht
  rcases List.mem_append.1 ht with ht | ht
  · exact Token.isOwn_of_isProper (hbody t ht).first_isProper
  · rw [List.mem_singleton.1 ht]
    have hkind : e.kind = .stop ∨ e.kind = .border := by simpa [isEnd] using he
    rcases hkind with hk | hk
    · exact isOwn_of_kind hk (by simp)
    · exact isOwn_of_kind hk (by simp)

theorem lawful_readEach {body : List Tree} {e : Token} (hbody : ∀ t ∈ body, Formed true true t)
    (he : isEnd e = true) (h : ∀ u ∈ tokensAll (body ++ [token e]), u.Solid) :
    ∀ p ∈ readEach dialect (body ++ [token e]), p.Lawful := by
  intro p hp
  rw [readEach_eq_map] at hp
  obtain ⟨t, ht, rfl⟩ := List.mem_map.1 hp
  have hsolid : ∀ u ∈ t.tokens, u.Solid := fun u hu => h u (mem_tokensAll.2 ⟨t, ht, hu⟩)
  have hown := isOwn_first hbody he t ht
  rcases List.mem_append.1 ht with ht | ht
  · exact lawful_read (hbody t ht) hsolid
  · obtain rfl := List.mem_singleton.1 ht
    exact lawful_token hown (hsolid e (by simp))

/-- The last tree of all is not in a section with another after it. -/
theorem later_of_flatten {first second trees : List Tree} {others : List (List Tree)}
    {t last : Tree}
    (h : (first :: (t :: second) :: others).flatten = trees ++ [last]) :
    ∃ later, trees = first ++ later ∧ ((t :: second) :: others).flatten = later ++ [last] := by
  rw [List.flatten_cons] at h
  rcases List.eq_nil_or_concat ((t :: second) :: others).flatten with hnil | ⟨init, end', hconcat⟩
  · simp at hnil
  · rw [hconcat, List.concat_eq_append, ← List.append_assoc] at h
    obtain ⟨hinit, hlast⟩ := List.append_inj' h rfl
    refine ⟨init, hinit.symm, ?_⟩
    rw [hconcat, List.concat_eq_append, hlast]

theorem behind_fillAll {ss : List Shape} (h : ∀ x ∈ ss, x.IsBehind) (table : List (List Shape)) :
    ∀ x ∈ fillAll table ss, x.IsBehind := by
  intro x hx
  obtain ⟨p, hp, hx⟩ := mem_fillAll.1 hx
  have hbehind := h p hp
  cases p with
  | token kind t =>
      rw [fill_of_isOwn (isOwn_of_kind hbehind.2 (by simp)), List.mem_singleton] at hx
      rwa [hx]
  | run t => cases hbehind
  | node kind parts =>
      rw [fill_node, List.mem_singleton] at hx
      rw [hx]
      trivial

theorem hasFront_fillAll {ss : List Shape} (h : HasFront ss) (table : List (List Shape)) :
    HasFront (fillAll table ss) := by
  obtain ⟨front, back, rfl, hfront, hback⟩ := h
  refine ⟨front, fillAll table back, ?_, hfront, behind_fillAll hback table⟩
  have hown : fillAll table front = front := by
    refine fillAll_of_fill fun p hp => ?_
    rcases hfront with rfl | ⟨cs, t, hcs, ht, rfl⟩
    · cases hp
    · rcases List.mem_append.1 hp with hp | hp
      · obtain ⟨c, hc, rfl⟩ := List.mem_map.1 hp
        exact fill_of_isOwn (isOwn_of_kind (hcs c hc) (by simp))
      · rw [List.mem_singleton.1 hp]
        exact fill_of_isOwn (isOwn_of_kind ht (by simp))
  rw [fillAll_append, hown]

structure SectionShapes (trees : List Tree) (body : List Token) (shapes : List Shape) : Prop where
  sound : ∀ s ∈ shapes, s.Sound ∧ s.IsEnded
  recut : Recut (Shape.tokensAll shapes) body
  front : HasFront shapes
  behind : Imports trees → ∀ x ∈ shapes, x.IsBehind

theorem shapes_of_section {body : List Tree} {e : Token} (hbody : ∀ t ∈ body, Formed true true t)
    (he : isEnd e = true) (hsolid : ∀ u ∈ tokensAll (body ++ [token e]), u.Solid)
    (hread : Part.readAs dialect .section (readEach dialect (body ++ [token e])) = .ok result) :
    SectionShapes (body ++ [token e]) (tokensAll body) result := by
  have hsound := Part.sound_of_readAs (lawful_readEach hbody he hsolid) hread
  have hended := ended_of_section (isOwn_first hbody he) hread
  have hrecut := section_recut hbody he hread
  obtain ⟨read, table, hshown, -, rfl⟩ := Part.readAs_eq_ok.1 hread
  refine ⟨fun s hs => ⟨hsound s hs, hended s hs⟩, hrecut,
    hasFront_fillAll (section_front hshown) table, fun himports => behind_fillAll ?_ table⟩
  obtain ⟨t, rest, htrees, ht⟩ := himports
  have hrole : (token t).role? = none := by simp [role?, ht]
  rw [htrees, readEach_fst, outline, shown, hrole] at hshown
  exact section_behind ht hshown

/-- The nodes of sections are those of shapes in a row, which have all tokens up to the end. -/
theorem shapes_of_readSections {first : List Tree} {others : List (List Tree)}
    (hothers : ∀ l ∈ others, Imports l) {trees : List Tree} {stop : Token}
    (hstop : isEnd stop = true) (hflat : (first :: others).flatten = trees ++ [token stop])
    (hformed : ∀ t ∈ trees, Formed true true t)
    (hsolid : ∀ u ∈ tokensAll (trees ++ [token stop]), u.Solid) {offset : Nat} {nodes : List Node}
    (h : readSections dialect offset (first :: others) = .ok nodes) :
    ∃ shapes, nodes = nodesAll offset shapes ∧ SectionShapes first (tokensAll trees) shapes := by
  induction others generalizing first trees offset nodes with
  | nil =>
      obtain rfl : first = trees ++ [token stop] := by simpa using hflat
      rw [readSections] at h
      split at h
      · cases h
      · next shapes hshapes =>
        simp only [border, List.append_nil] at hshapes
        refine ⟨shapes, ?_, shapes_of_section hformed hstop hsolid hshapes⟩
        simpa [readSections, Except.map] using h.symm
  | cons second others ih =>
      obtain ⟨himport, hlaterImports⟩ := List.forall_mem_cons.1 hothers
      obtain ⟨t, second, rfl, ht⟩ := himport
      obtain ⟨later, rfl, hlater⟩ := later_of_flatten hflat
      rw [readSections] at h
      split at h
      · cases h
      · next shapes hshapes =>
        have hborder : isEnd ⟨.border, t.gap, []⟩ = true := rfl
        simp only [border, gap, Tree.first] at hshapes
        have hfirst : ∀ u ∈ first, Formed true true u := fun u hu => hformed u (by simp [hu])
        have hlaterSolid : ∀ u ∈ tokensAll (later ++ [token stop]), u.Solid := by
          intro u hu
          refine hsolid u ?_
          rw [List.append_assoc, tokensAll_append]
          exact List.mem_append_right _ hu
        have hfirstSolid : ∀ u ∈ tokensAll (first ++ [token ⟨.border, t.gap, []⟩]), u.Solid := by
          intro u hu
          rw [tokensAll_append, List.mem_append] at hu
          rcases hu with hu | hu
          · exact hsolid u (by simp [hu])
          · obtain rfl : u = ⟨.border, t.gap, []⟩ := by simpa using hu
            -- the white space is that before the import
            refine ⟨(hlaterSolid t ?_).blank, trivial⟩
            rw [← hlater]
            simp
        have hsection := shapes_of_section hfirst hborder hfirstSolid hshapes
        cases hrest : readSections dialect (offset + addUp (first.map Tree.width))
            ((token t :: second) :: others) with
        | error f => simp [hrest, Except.map] at h
        | ok rest =>
            obtain ⟨after, rfl, hafter⟩ := ih hlaterImports hlater
              (fun u hu => hformed u (by simp [hu])) hlaterSolid hrest
            have hbehind := hafter.behind ⟨t, second, rfl, ht⟩
            refine ⟨shapes ++ after, ?_, ?_, ?_, hsection.front.append hbehind, ?_⟩
            · rw [hrest] at h
              rw [nodesAll_append, hsection.recut.chars, ← addUp_width]
              simpa [Except.map] using h.symm
            · exact List.forall_mem_append.2 ⟨hsection.sound, hafter.sound⟩
            · simpa using hsection.recut.append hafter.recut
            · rintro ⟨u, others, rfl, hu⟩
              have hshapes := hsection.behind ⟨u, others ++ [token ⟨.border, t.gap, []⟩], rfl, hu⟩
              exact List.forall_mem_append.2 ⟨hshapes, hbehind⟩

end Tree

/-- The nodes of a file are those of shapes in a row that are sound and that have all tokens of the
file but the end. -/
theorem recut_of_parse {text : List Char} {nodes : List Node}
    (h : parse dialect text = .ok nodes) :
    ∃ shapes body gap, nodes = nodesAll 0 shapes ∧ (∀ s ∈ shapes, s.Sound ∧ s.IsEnded) ∧
      HasFront shapes ∧ tokens (dialect == .markup) text = body ++ [⟨.stop, gap, []⟩] ∧
      Recut (tokensAll shapes) body := by
  obtain ⟨body, gap, htokens, hproper⟩ := tokens_isProper (dialect == .markup) text
  have hsolid := tokens_solid (dialect == .markup) text
  rw [parse, htokens] at h
  rw [htokens] at hsolid
  have hreads := Tree.reads_of_readSections h
  rw [Tree.flatten_sections] at hreads
  obtain ⟨trees, htrees, hbody, hformed⟩ := Tree.ofTokens_of_reads hproper (by rfl) (by rfl) hreads
  obtain ⟨first, others, hsecs, hothers⟩ :=
    Tree.sections_eq (Tree.ofTokens (body ++ [⟨.stop, gap, []⟩]))
  have hflat := Tree.flatten_sections (Tree.ofTokens (body ++ [⟨.stop, gap, []⟩]))
  rw [hsecs] at h hflat
  rw [htrees] at hflat
  obtain ⟨shapes, hnodes, hshapes⟩ := Tree.shapes_of_readSections hothers (by rfl) hflat hformed
    (by simpa [hbody] using hsolid) h
  have hrecut := hshapes.recut
  rw [hbody] at hrecut
  exact ⟨shapes, body, gap, hnodes, hshapes.sound, hshapes.front, htokens, hrecut⟩

/-- So they are all of the file, but for white space at its end. -/
theorem shapes_of_parse {text : List Char} {nodes : List Node}
    (h : parse dialect text = .ok nodes) :
    ∃ shapes gap, nodes = nodesAll 0 shapes ∧ (∀ s ∈ shapes, s.Sound ∧ s.IsEnded) ∧
      HasFront shapes ∧ text = charsOf (tokensAll shapes) ++ gap := by
  obtain ⟨shapes, body, gap, hnodes, hsound, hfront, htokens, hrecut⟩ := recut_of_parse h
  refine ⟨shapes, gap, hnodes, hsound, hfront, ?_⟩
  rw [hrecut.chars, ← tokens_chars (dialect == .markup) text, htokens]
  simp

end Phrasebook.Source

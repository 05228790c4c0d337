import Phrasebook.Import
import Phrasebook.Proofs.Place

/-!
What the characters of a node are. Those of a leaf are its text; a construct is not empty and
neither begins nor ends with the end of a line, a declaration of imports begins with that word, and
a list of imports stands in braces.
-/

namespace Phrasebook.Source

open Shape

/-! ### Both ends -/

structure IsCrisp (text : List Char) : Prop where
  first : ∀ c ∈ text.head?, Lexeme.isLineEnd c = false
  last : ∀ c ∈ text.getLast?, Lexeme.isLineEnd c = false

theorem IsFirm.isCrisp {text : List Char} (h : IsFirm text) : IsCrisp text := by
  obtain ⟨⟨c, hc, hfirst⟩, d, hd, hlast⟩ := h
  refine ⟨fun e he => ?_, fun e he => ?_⟩
  · rw [Option.mem_unique he hc]
    exact Lexeme.isLineEnd_of_isBlank hfirst
  · rw [Option.mem_unique he hd]
    exact Lexeme.isLineEnd_of_isBlank hlast

theorem IsFirm.ne_nil {text : List Char} (h : IsFirm text) : text ≠ [] := by
  rintro rfl
  obtain ⟨c, hc, -⟩ := h.1
  cases hc

theorem IsQuoted.isFirm {text : List Char} (h : IsQuoted text) : IsFirm text := by
  obtain ⟨c, hquote, hfirst, hlast⟩ := h
  have hc : Lexeme.isBlank c = false := by
    simp only [isQuote, Bool.or_eq_true, beq_iff_eq] at hquote
    rcases hquote with rfl | rfl <;> rfl
  exact ⟨⟨c, hfirst, hc⟩, c, hlast, hc⟩

theorem IsRemark.ne_nil {text : List Char} (h : IsRemark text) : text ≠ [] := by
  rintro rfl
  cases h.1

theorem IsRemark.isCrisp {text : List Char} (h : IsRemark text) : IsCrisp text := by
  obtain ⟨hfirst, hlast⟩ := h
  refine ⟨fun c hc => ?_, fun c hc => ?_⟩
  · rw [Option.mem_unique hc hfirst]
    rfl
  · rcases hlast with hlast | hall
    · rw [Option.mem_unique hc hlast]
      rfl
    · exact hall c (List.mem_of_getLast? hc)

/-- A token that is not loose has a text, with neither end at the end of a line. -/
theorem Token.Looks.crisp {t : Token} (h : t.Looks) (hkind : t.kind.isLoose = false) :
    t.text ≠ [] ∧ IsCrisp t.text := by
  have hfirm : IsFirm t.text → t.text ≠ [] ∧ IsCrisp t.text := fun h => ⟨h.ne_nil, h.isCrisp⟩
  cases hk : t.kind with
  | word => exact hfirm (Shown.isFirm (by simpa [Looks, hk] using h))
  | string | «attribute» => exact hfirm (IsQuoted.isFirm (by simpa [Looks, hk] using h))
  | sign =>
      obtain ⟨c, hc, hblank⟩ : ∃ c, t.text = [c] ∧ Lexeme.isBlank c = false := by
        simpa [Looks, hk] using h
      exact hfirm (hc ▸ isFirm_singleton hblank)
  | importWord =>
      have htext : t.text = "import".toList := by simpa [Looks, hk] using h
      exact hfirm (htext ▸ ⟨⟨'i', rfl, rfl⟩, 't', rfl, rfl⟩)
  | comment =>
      have hremark : IsRemark t.text := by simpa [Looks, hk] using h
      exact ⟨hremark.ne_nil, hremark.isCrisp⟩
  | nested role index => simp [Looks, hk] at h
  | text | chunk | hashBang | broken | stop | border => rw [hk] at hkind; cases hkind
  | _ => exact hfirm (by simpa [Looks, hk] using h)

namespace Shape

/-- The characters of a row of tokens end as those of the last token do. -/
theorem getLast?_charsOf {init : List Token} {t : Token} (h : t.text ≠ []) :
    (charsOf (init ++ [t])).getLast? = t.text.getLast? := by
  rw [charsOf_append, charsOf_cons, charsOf_nil, List.append_nil, ← List.append_assoc,
    List.getLast?_append_of_ne_nil _ h]

/-- The characters of tokens, without the white space before the first, end as the last token
does. -/
theorem own_of_firm {ts : List Token} (hlooks : ∀ t ∈ ts, t.Looks) (hfirm : Firm ts) :
    ∃ lead own, charsOf ts = lead ++ own ∧ leadOf ts = byteLength lead ∧
      (∀ t rest, ts = t :: rest → own = t.text ++ charsOf rest) ∧
      (∀ t ∈ ts.getLast?, own.getLast? = t.text.getLast?) ∧ own ≠ [] ∧ IsCrisp own := by
  obtain ⟨hne, hends⟩ := hfirm
  obtain ⟨t, rest, rfl⟩ := List.exists_cons_of_ne_nil hne
  obtain ⟨init, u, hlast⟩ := (List.eq_nil_or_concat (t :: rest)).resolve_left hne
  rw [List.concat_eq_append] at hlast
  -- neither the first token nor the last is loose, so both have a text of their own
  obtain ⟨htext, hcrisp⟩ := (hlooks t (by simp)).crisp (hends.first t rfl)
  have hu : (t :: rest).getLast? = some u := by simp [hlast]
  obtain ⟨hutext, hucrisp⟩ := (hlooks u (by simp [hlast])).crisp (hends.last u hu)
  have hown : (t.text ++ charsOf rest).getLast? = u.text.getLast? := by
    rw [← getLast?_charsOf hutext, ← hlast, charsOf_cons, List.append_assoc,
      List.getLast?_append_of_ne_nil t.gap (by simp [htext])]
  refine ⟨t.gap, t.text ++ charsOf rest, by simp, rfl, ?_, ?_, by simp [htext], ⟨?_, ?_⟩⟩
  · rintro t' rest' ⟨⟩
    rfl
  · rw [hu]
    simpa using hown
  · rw [List.head?_append_of_ne_nil _ htext]
    exact hcrisp.first
  · rw [hown]
    exact hucrisp.last

end Shape

/-! ### Lists of imports -/

inductive IsFiller : List Char → Prop
  | nil : IsFiller []
  | append {a b : List Char} (first : AreBlank a ∨ a = [','] ∨ IsRemark a) (rest : IsFiller b) :
      IsFiller (a ++ b)

theorem IsFiller.concat {a b : List Char} (ha : IsFiller a) (hb : IsFiller b) :
    IsFiller (a ++ b) := by
  induction ha with
  | nil => exact hb
  | append first _ ih =>
      rw [List.append_assoc]
      exact .append first ih

/-- What is between the braces of a list of imports that has comments only. -/
structure Fills (children : List Node) (inner : List Char) : Prop where
  filler : IsFiller inner
  comments : ∀ c ∈ children, c.isComment = true
  plain : children = [] → ∀ c ∈ inner, Lexeme.isBlank c = true ∨ c = ','
  marked : children ≠ [] → '/' ∈ inner

theorem Fills.append {cs ds : List Node} {a b : List Char} (h : Fills cs a) (h' : Fills ds b) :
    Fills (cs ++ ds) (a ++ b) := by
  refine ⟨h.filler.concat h'.filler, List.forall_mem_append.2 ⟨h.comments, h'.comments⟩, ?_, ?_⟩
  · intro hnil
    obtain ⟨hcs, hds⟩ := List.append_eq_nil_iff.1 hnil
    exact List.forall_mem_append.2 ⟨h.plain hcs, h'.plain hds⟩
  · intro hne
    rw [List.mem_append]
    by_cases hcs : cs = []
    · refine Or.inr (h'.marked ?_)
      rintro rfl
      exact hne (by rw [hcs, List.append_nil])
    · exact Or.inl (h.marked hcs)

theorem fills_blank {gap : List Char} (h : AreBlank gap) : Fills [] gap :=
  ⟨List.append_nil gap ▸ .append (Or.inl h) .nil, by simp, fun _ c hc => Or.inl (h c hc),
    fun hne => absurd rfl hne⟩

theorem fills_comma : Fills [] [','] :=
  ⟨.append (Or.inr (Or.inl rfl)) .nil, by simp, by simp, fun hne => absurd rfl hne⟩

theorem fills_comment {text : List Char} (h : IsRemark text) (start : Nat) :
    Fills [.leaf .comment start text] text :=
  ⟨List.append_nil text ▸ .append (Or.inr (Or.inr h)) .nil, by simp [Node.isComment, Node.isLeaf],
    by simp, fun _ => List.mem_of_head? h.1⟩

theorem Token.text_of_isMark {c : Char} {t : Token} (h : t.IsMark c) (hlooks : t.Looks) :
    t.text = [c] := by
  obtain ⟨d, hd, -⟩ : ∃ d, t.text = [d] ∧ Lexeme.isBlank d = false := by
    simpa [Looks, h.1] using hlooks
  rw [hd, h.2 d (by simp [hd])]

namespace Shape

theorem fills_nodes {p : Shape} (hlisted : p.IsListed) (hsound : p.Sound) (offset : Nat)
    (hnone : ∀ c ∈ p.nodes offset, c.isSpecifier = false) :
    Fills (p.nodes offset) (charsOf p.tokens) := by
  cases hsound with
  | @token kind t admitted solid =>
      rw [tokens_token, charsOf_cons, charsOf_nil, List.append_nil]
      have hgap : ∀ {ns}, Fills ns t.text → Fills ns (t.gap ++ t.text) :=
        fun h => List.nil_append _ ▸ (fills_blank solid.blank).append h
      cases kind with
      | none =>
          have hcomma : Fills [] t.text := by
            rw [Token.text_of_isMark hlisted solid.looks]
            exact fills_comma
          exact hgap hcomma
      | some kind =>
          cases kind with
          | comment =>
              have hk : t.kind = .comment := hlisted
              exact hgap (fills_comment (by simpa [Token.Looks, hk] using solid.looks) _)
          | _ => cases hlisted
  | run => cases hlisted
  | @node kind parts =>
      have hkind : isSpecifierKind kind = true := hlisted
      cases kind with
      | importSpecifier typeOnly =>
          rw [nodes_node] at hnone
          cases hnone _ (List.mem_singleton_self _)
      | _ => cases hkind

theorem fills_nodesAll {inner : List Shape} (hlisted : ∀ p ∈ inner, p.IsListed)
    (hsound : ∀ p ∈ inner, p.Sound) (offset : Nat)
    (hnone : ∀ c ∈ nodesAll offset inner, c.isSpecifier = false) :
    Fills (nodesAll offset inner) (charsOf (tokensAll inner)) := by
  induction inner generalizing offset with
  | nil => exact fills_blank areBlank_nil
  | cons p inner ih =>
      rw [nodesAll_cons, List.forall_mem_append] at hnone
      rw [List.forall_mem_cons] at hlisted hsound
      rw [nodesAll_cons, tokensAll_cons, charsOf_append]
      exact (fills_nodes hlisted.1 hsound.1 offset hnone.1).append
        (ih hlisted.2 hsound.2 _ hnone.2)

end Shape

/-! ### Nodes -/

def Construct.Spells : Construct → List Node → List Char → Prop
  | .importDeclaration _, _, own => "import".toList <+: own
  | .importSpecifier _, _, own => ∃ c ∈ own.getLast?, Lexeme.shows c = true
  | .namedImports, children, own => ∃ inner, own = '\x7b' :: inner ++ ['\x7d'] ∧
      ((∀ c ∈ children, c.isSpecifier = false) → Fills children inner)
  | _, _, _ => True

def Node.Spelled : Node → List Char → Prop
  | leaf _ _ text, own | run _ text, own => own = text
  | branch kind _ children, own => own ≠ [] ∧ IsCrisp own ∧ kind.Spells children own

namespace Shape

/-- A list of imports begins and ends with its braces. -/
theorem spells_namedImports {parts : List Shape} (hbuilt : Built .namedImports parts)
    (hsound : ∀ p ∈ parts, p.Sound) (offset : Nat) {own : List Char}
    (hown : ∀ t rest, tokensAll parts = t :: rest → own = t.text ++ charsOf rest) :
    Construct.namedImports.Spells (nodesAll offset parts) own := by
  obtain ⟨l, inner, r, rfl, hl, hr, hlisted⟩ := hbuilt
  have hsolid : ∀ t, token none t ∈ token none l :: inner ++ [token none r] → t.Solid := by
    intro t ht
    cases hsound _ ht with
    | token _ solid => exact solid
  have hltext := Token.text_of_isMark hl (hsolid l (by simp)).looks
  have hrtext := Token.text_of_isMark hr (hsolid r (by simp)).looks
  refine ⟨charsOf (tokensAll inner) ++ r.gap, ?_, fun hnone => ?_⟩
  · rw [hown l (tokensAll inner ++ [r]) (by simp), hltext, charsOf_append, charsOf_cons, hrtext]
    simp
  · have hnodes : nodesAll offset (token none l :: inner ++ [token none r]) =
        nodesAll (offset + byteLength (charsOf (token none l).tokens)) inner := by
      rw [List.cons_append, nodesAll_cons, nodesAll_append, nodesAll_cons, nodesAll_nil]
      simp only [nodes, List.nil_append, List.append_nil]
    rw [hnodes] at hnone ⊢
    have hinner := fills_nodesAll hlisted (fun p hp => hsound p (by simp [hp])) _ hnone
    simpa using hinner.append (fills_blank (hsolid r (by simp)).blank)

/-- The characters of a construct, without the white space before them. -/
theorem spells_of_sound {kind : Construct} {parts : List Shape} (h : (node kind parts).Sound)
    (offset : Nat) :
    ∃ lead own, charsOf (tokensAll parts) = lead ++ own ∧
      leadOf (tokensAll parts) = byteLength lead ∧ own ≠ [] ∧ IsCrisp own ∧
      kind.Spells (nodesAll offset parts) own := by
  have hlooks := h.looks
  rw [tokens_node] at hlooks
  cases h with
  | node made firm built inner =>
      obtain ⟨lead, own, hchars, hlead, hown, hlast, hne, hcrisp⟩ := own_of_firm hlooks firm
      refine ⟨lead, own, hchars, hlead, hne, hcrisp, ?_⟩
      cases kind with
      | importDeclaration typeOnly =>
          obtain ⟨t, rest, ht, hk⟩ := made
          have htext : t.text = "import".toList := by
            have himport := hlooks t (by simp [ht])
            simpa [Token.Looks, hk] using himport
          exact ⟨charsOf rest, by rw [hown t rest ht, htext]⟩
      | importSpecifier typeOnly =>
          obtain ⟨-, init, t, rfl⟩ := built
          have hshown : Shown t.text := by
            cases inner _ (List.mem_concat_self ..) with
            | token admitted solid => exact grounded_leaf (admitted _ rfl) solid.looks 0
          refine ⟨t.text.getLast hshown.1, ?_, hshown.2 _ (List.getLast_mem _)⟩
          rw [hlast t (by simp), Option.mem_def, List.getLast?_eq_some_getLast]
      | namedImports => exact spells_namedImports built inner offset hown
      | _ => trivial

/-- Each node has its characters among those of the tokens of its shape. -/
theorem Sound.spelled {s : Shape} (hs : s.Sound) {offset : Nat} {n : Node}
    (h : s.nodes offset = [n]) :
    ∃ lead own, charsOf s.tokens = lead ++ own ∧ leadOf s.tokens = byteLength lead ∧
      n.Spelled own := by
  cases s with
  | token kind t =>
      cases kind with
      | none => simp [nodes] at h
      | some kind =>
          obtain rfl : n = .leaf kind _ t.text := by simpa [nodes] using h.symm
          exact ⟨t.gap, t.text, by simp, by simp [leadOf], rfl⟩
  | run t =>
      obtain rfl : n = .run _ t.text := by simpa [nodes] using h.symm
      exact ⟨t.gap, t.text, by simp, by simp [leadOf], rfl⟩
  | node kind parts =>
      rw [nodes_node] at h
      obtain rfl := List.singleton_inj.1 h
      rw [tokens_node]
      exact spells_of_sound hs offset

end Shape

end Phrasebook.Source

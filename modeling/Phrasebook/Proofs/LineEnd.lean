import Phrasebook.Proofs.PatchFault
import Phrasebook.Proofs.RunContent
import Phrasebook.Proofs.Symbol
import Phrasebook.Proofs.WrittenString

/-!
Line ends. A patch keeps to the line ends of its file: no edit ends between the two characters that
end a line, and what edits put in has the line ends of the file, since names and keys have none.
-/

namespace Phrasebook

open Text Source

/-! ### Pairs -/

namespace Text

/-- Every line feed of a text comes right after a carriage return. -/
def IsPaired (text : List Char) : Prop :=
  ∀ before after, text = before ++ '\n' :: after → before.getLast? = some '\r'

def IsInline (text : List Char) : Prop := ∀ c ∈ text, c ≠ '\n' ∧ c ≠ '\r'

theorem isPaired_of_not_mem {text : List Char} (h : '\n' ∉ text) : IsPaired text := by
  rintro before after rfl
  simp at h

theorem IsPaired.append {a b : List Char} (ha : IsPaired a) (hb : IsPaired b) :
    IsPaired (a ++ b) := by
  intro before after h
  -- a line feed at the very start of `b` would have nothing in front of it there
  rcases List.append_eq_append_iff.1 h with ⟨x, rfl, hx⟩ | ⟨x, hx, hcons⟩
  · rw [List.getLast?_append, hb x after hx]
    rfl
  · cases x with
    | nil => cases hb [] after (by simpa using hcons.symm)
    | cons c x =>
        obtain ⟨rfl, -⟩ := List.cons.inj hcons
        exact ha before x hx

theorem isPaired_pair : IsPaired ['\r', '\n'] := by
  intro before after h
  rcases before with _ | ⟨c, _ | ⟨e, before⟩⟩
  · simp at h
  · obtain ⟨rfl, -⟩ := List.cons.inj h
    rfl
  · simp at h

@[simp] theorem isInline_nil : IsInline [] := fun _ hc => (List.not_mem_nil hc).elim

@[simp] theorem isInline_append {a b : List Char} : IsInline (a ++ b) ↔ IsInline a ∧ IsInline b :=
  List.forall_mem_append

@[simp] theorem isInline_cons {c : Char} {a : List Char} :
    IsInline (c :: a) ↔ (c ≠ '\n' ∧ c ≠ '\r') ∧ IsInline a :=
  List.forall_mem_cons

/-- A property of texts that is kept when they are put together, and that texts without line ends
have. -/
structure IsLineRule (P : List Char → Prop) : Prop where
  append : ∀ a b, P a → P b → P (a ++ b)
  inline : ∀ a, IsInline a → P a

theorem isLineRule_isPaired : IsLineRule IsPaired :=
  ⟨fun _ _ => IsPaired.append, fun _ h => isPaired_of_not_mem fun hmem => (h _ hmem).1 rfl⟩

theorem isLineRule_noReturn : IsLineRule fun text => '\r' ∉ text :=
  ⟨fun a b ha hb => by simp [ha, hb], fun _ h hmem => (h _ hmem).2 rfl⟩

/-- A place in a text that is not between the two characters that end a line. -/
def Unbroken (text : List Char) (offset : Int) : Prop :=
  ∀ before after, text = before ++ after → offset = byteLength before →
    before.getLast? = some '\r' → after.head? ≠ some '\n'

theorem unbroken_of_split {text before after : List Char} (h : text = before ++ after)
    (hends : before.getLast? = some '\r' → after.head? ≠ some '\n') :
    Unbroken text (byteLength before) := by
  intro before' after' h' hlength
  obtain ⟨rfl, rfl⟩ := eq_of_byteLength_eq (h.symm.trans h') (Int.ofNat_inj.1 hlength)
  exact hends

/-- What is between unbroken places of a text has pairs only, if the text has. -/
theorem IsPaired.piece {text before own after : List Char} (h : IsPaired text)
    (hsplit : text = before ++ own ++ after) (hplace : Unbroken text (byteLength before)) :
    IsPaired own := by
  rintro x y rfl
  have hx : (before ++ x).getLast? = some '\r' := h _ (y ++ after) (by rw [hsplit]; simp)
  cases x with
  | nil =>
      rw [List.append_nil] at hx
      exact absurd rfl (hplace before _ (by rw [hsplit, List.append_assoc]) rfl hx)
  | cons c x => rwa [List.getLast?_append_of_ne_nil _ (List.cons_ne_nil c x)] at hx

end Text

/-- What holds of the pieces of a text between unbroken places and of what edits put in holds of the
text with the edits made. -/
theorem Edit.Spliced.holds {P : List Char → Prop} (hP : IsLineRule P)
    {text : List Char} (hpieces : ∀ before own after, text = before ++ own ++ after →
      Unbroken text (byteLength before) → P own)
    {offset : Nat} {edits : List Edit} {rest result : List Char}
    (h : Spliced offset edits rest result)
    (hedits : ∀ e ∈ edits, P e.replacement ∧ Unbroken text e.stop)
    (before : List Char) (htext : text = before ++ rest) (hbefore : byteLength before = offset)
    (hplace : Unbroken text offset) : P result := by
  -- by induction on the edits: what is kept up to an edit begins where the edit before it ends, and
  -- this is the only place at which a pair could be cut
  induction h generalizing before with
  | nil =>
      rw [← hbefore] at hplace
      exact hpieces before _ [] (by simpa using htext) hplace
  | @cons offset e edits kept old rest result start stop later ih =>
      obtain ⟨⟨hreplacement, hstop⟩, hedits⟩ := List.forall_mem_cons.1 hedits
      have hkept : P kept := by
        rw [← hbefore] at hplace
        exact hpieces before kept (old ++ rest) (by rw [htext]; simp) hplace
      rw [stop] at hstop
      have hresult : P result := by
        refine ih hedits (before ++ kept ++ old) (by rw [htext]; simp) ?_ hstop
        rw [byteLength_append, byteLength_append, hbefore]
      exact hP.append _ _ (hP.append _ _ hkept hreplacement) hresult

/-! ### Where edits end -/

namespace Source

/-- Whether it is known of a node that it neither begins nor ends with the end of a line. -/
def Node.isCrisp : Node → Bool
  | leaf (.string _) _ _ | leaf .stringKeyword _ _ | leaf .name _ _ | leaf .comment _ _ => true
  | branch _ _ _ => true
  | _ => false

theorem Node.isCrisp_of_isComment {n : Node} (h : n.isComment = true) : n.isCrisp = true := by
  obtain ⟨start, text, rfl⟩ := eq_of_isComment h
  rfl

theorem Node.isCrisp_of_isConstruct {n : Node} (h : n.isConstruct = true) : n.isCrisp = true := by
  cases n <;> first | rfl | cases h

namespace Document

variable {d : Document}

theorem Laid.crisp (hd : d.Laid) {n : Node} (hn : n ∈ d.all) (hcrisp : n.isCrisp = true) :
    ∃ before own after, d.text = before ++ own ++ after ∧ n.start = byteLength before ∧
      n.stop = byteLength before + byteLength own ∧ own ≠ [] ∧ IsCrisp own := by
  obtain ⟨before, own, after, htext, hstart, hstop, hspelled⟩ := hd.spelled n hn
  refine ⟨before, own, after, htext, hstart, hstop, ?_⟩
  have hgrounded := hd.grounded n hn
  have hfirm : IsFirm own → own ≠ [] ∧ IsCrisp own := fun h => ⟨h.ne_nil, h.isCrisp⟩
  cases n with
  | leaf kind start text =>
      obtain rfl : own = text := hspelled
      cases kind with
      | string place => exact hfirm (IsQuoted.isFirm hgrounded)
      | stringKeyword =>
          obtain rfl : own = "string".toList := hgrounded
          exact hfirm ⟨⟨'s', rfl, rfl⟩, 'g', rfl, rfl⟩
      | name => exact hfirm (Shown.isFirm hgrounded)
      | comment => exact ⟨IsRemark.ne_nil hgrounded, IsRemark.isCrisp hgrounded⟩
      | _ => cases hcrisp
  | run start text => cases hcrisp
  | branch kind span children => exact ⟨hspelled.1, hspelled.2.1⟩

theorem Laid.unbroken_start (hd : d.Laid) {n : Node} (hn : n ∈ d.all) (hcrisp : n.isCrisp = true) :
    Unbroken d.text n.start := by
  obtain ⟨before, own, after, htext, hstart, -, hne, hown⟩ := hd.crisp hn hcrisp
  rw [List.append_assoc] at htext
  rw [hstart]
  refine unbroken_of_split htext fun _ hhead => ?_
  rw [List.head?_append_of_ne_nil _ hne] at hhead
  cases hown.first _ hhead

theorem Laid.unbroken_stop (hd : d.Laid) {n : Node} (hn : n ∈ d.all) (hcrisp : n.isCrisp = true) :
    Unbroken d.text n.stop := by
  obtain ⟨before, own, after, htext, -, hstop, hne, hown⟩ := hd.crisp hn hcrisp
  rw [hstop, ← byteLength_append]
  refine unbroken_of_split htext fun hlast => ?_
  rw [List.getLast?_append_of_ne_nil _ hne] at hlast
  cases hown.last _ hlast

/-- The edit of a literal that has a text ends with the quote of the literal, or with the last
character of a run that is no white space. -/
theorem Laid.unbroken_ofLiteral (hd : d.Laid) {n : Node} (hn : n ∈ d.all) {l : Literal}
    (hl : d.literalAt n = some (.ok l)) (hvalue : Points.strip l.value ≠ []) (call : List Char) :
    Unbroken d.text (Edit.ofLiteral l call).stop := by
  rw [(hd.fits_ofLiteral hn hl call).2.1]
  obtain ⟨hliteral, hcases⟩ := literalAt_cases hl
  rcases hcases l rfl with ⟨start, raw, rfl, rfl⟩ | ⟨kind, inAttribute, isKey, value, hkind, rfl⟩
  · obtain ⟨before, own, after, htext, hstart, -, hspelled⟩ := hd.spelled _ hn
    obtain rfl : own = raw := hspelled
    obtain rfl : start = byteLength before := hstart
    -- the run is not all white space, or its value would be blank
    have hne : strip own ≠ [] := by
      intro hnil
      have hdecode := CharacterReference.strip_decode_strip own
      rw [hnil] at hdecode
      refine hvalue ?_
      show Points.strip (Points.ofChars (CharacterReference.decode own)) = []
      rw [Points.strip_ofChars, ← hdecode]
      rfl
    have hvisible : HasVisibleEnds (strip own) := strip_eq_self_iff.1 (trim_trim isSpace own)
    have hsplit : d.text =
        (before ++ leftMargin isSpace own ++ strip own) ++ (rightMargin isSpace own ++ after) := by
      rw [htext]
      conv_lhs => rw [← margins_trim isSpace own]
      simp [strip]
    have hplace := unbroken_of_split hsplit fun hlast => by
      rw [List.getLast?_append_of_ne_nil _ hne] at hlast
      cases hvisible.2 _ hlast
    rwa [byteLength_append, byteLength_append] at hplace
  · refine hd.unbroken_stop hn ?_
    cases n with
    | leaf kind start text => cases kind <;> first | rfl | cases hliteral
    | run start text =>
        rw [literalAt] at hl
        exact absurd (congrArg Literal.kind (Except.ok.inj (Option.some.inj hl))).symm hkind
    | branch kind span children => rfl

/-- Behind all statements the last character is no carriage return, unless there is no literal. -/
theorem Laid.unbroken_last (hd : d.Laid) {anchor n : Node} (hlast : d.nodes.getLast? = some anchor)
    (hn : n ∈ d.all) (hliteral : n.isLiteral = true) : Unbroken d.text anchor.stop := by
  refine hd.unbroken_stop (mem_all (List.mem_of_getLast? hlast)) ?_
  obtain ⟨front, back, hnodes, hfront, hback⟩ := hd.headed
  rcases List.eq_nil_or_concat back with rfl | ⟨init, m, rfl⟩
  · -- comments and the line that names an interpreter hold no literals
    obtain ⟨m, hm, hnm⟩ := Node.mem_preorderAll.1 hn
    rw [hnodes, List.append_nil] at hm
    have hleaf : ∃ kind start text, m = .leaf kind start text ∧
        (kind = .comment ∨ kind = .hashBang) := by
      cases m with
      | leaf kind start text =>
          refine ⟨kind, start, text, rfl, ?_⟩
          simpa [Node.isComment, Node.isLeaf] using hfront _ hm
      | _ => simpa [Node.isComment, Node.isLeaf] using hfront _ hm
    obtain ⟨kind, start, text, rfl, hkind⟩ := hleaf
    rw [Node.preorder_leaf, List.mem_singleton] at hnm
    rw [hnm] at hliteral
    rcases hkind with rfl | rfl <;> cases hliteral
  · rw [hnodes, List.concat_eq_append, ← List.append_assoc, List.getLast?_concat] at hlast
    obtain rfl := Option.some.inj hlast
    exact (hback m (by simp)).elim Node.isCrisp_of_isComment Node.isCrisp_of_isConstruct

theorem Laid.isCrisp_or_hashBang (hd : d.Laid) {n : Node} (hn : n ∈ d.nodes) :
    n.isCrisp = true ∨ n.isLeaf .hashBang = true := by
  obtain ⟨front, back, hnodes, hfront, hback⟩ := hd.headed
  rw [hnodes, List.mem_append] at hn
  rcases hn with hn | hn
  · exact (hfront n hn).imp_left Node.isCrisp_of_isComment
  · exact Or.inl ((hback n hn).elim Node.isCrisp_of_isComment Node.isCrisp_of_isConstruct)

theorem Laid.unbroken_statement (hd : d.Laid) {n : Node} (hn : n ∈ d.nodes) :
    Unbroken d.text n.start := by
  rcases hd.isCrisp_or_hashBang hn with hcrisp | hbang
  · exact hd.unbroken_start (mem_all hn) hcrisp
  · obtain ⟨before, own, after, htext, hstart, -, hspelled⟩ := hd.spelled n (mem_all hn)
    have hgrounded := hd.grounded n (mem_all hn)
    cases n with
    | leaf kind start text =>
        obtain rfl : kind = .hashBang := by simpa [Node.isLeaf] using hbang
        obtain rfl : own = text := hspelled
        obtain ⟨rest, rfl⟩ := List.head?_eq_some_iff.1 hgrounded.1
        rw [hstart]
        exact unbroken_of_split (htext.trans (List.append_assoc ..)) fun _ => by simp
    | _ => cases hbang

theorem Laid.unbroken_augment (hd : d.Laid) {b : ImportBinding} {style : ImportStyle}
    {declaration : Node} (hdeclaration : declaration ∈ d.nodes)
    (himport : declaration.isImport = true) {e : Edit}
    (he : augment b style declaration = some e) : Unbroken d.text e.stop := by
  have hbranch : ∀ {m : Node} {kind : Construct}, m.isBranch kind = true → m.isCrisp = true :=
    fun h => Node.isCrisp_of_isConstruct (isConstruct_of_isBranch h)
  rcases augment_cases he with rfl | ⟨clause, hclause, hplace⟩
  · obtain ⟨before, rest, htext, -, hplace, -⟩ := hd.spelled_import (mem_all hdeclaration) himport
    show Unbroken d.text ((declaration.start + "import".length : Nat) : Int)
    rw [hplace]
    exact unbroken_of_split htext fun hlast => by simp at hlast
  · have hclauseAll : clause ∈ d.all :=
      child_mem_all (mem_all hdeclaration) (List.mem_of_find?_eq_some hclause)
    rcases hplace with rfl | ⟨named, hnamed, hplace⟩ | ⟨name, hname, rfl⟩
    · exact hd.unbroken_start hclauseAll (hbranch (List.find?_some hclause))
    · have hnamedAll := child_mem_all hclauseAll (List.mem_of_find?_eq_some hnamed)
      rcases hplace with ⟨-, rfl⟩ | ⟨last, hlast, rfl⟩
      · exact hd.unbroken_stop hnamedAll (hbranch (List.find?_some hnamed))
      · obtain ⟨hchild, hspecifier⟩ := List.mem_filter.1 (List.mem_of_getLast? hlast)
        obtain ⟨typeOnly, span, children, rfl⟩ := Node.eq_of_isSpecifier hspecifier
        exact hd.unbroken_stop (child_mem_all hnamedAll hchild) rfl
    · refine hd.unbroken_stop (child_mem_all hclauseAll (List.mem_of_find?_eq_some hname)) ?_
      have hleaf := List.find?_some hname
      cases name with
      | leaf kind start text =>
          obtain rfl : kind = .name := by simpa [Node.isLeaf] using hleaf
          rfl
      | _ => cases hleaf

theorem Laid.unbroken_insertDeclaration (hd : d.Laid) (style : ImportStyle) (text : List Char)
    {n : Node} (hn : n ∈ d.all) (hliteral : n.isLiteral = true) :
    Unbroken d.text (d.insertDeclaration style text).stop := by
  rcases d.insertDeclaration_cases style text with
    ⟨target, below, hdrop, hplace⟩ | ⟨anchor, -, hlast, hplace⟩ | ⟨hnodes, -⟩
  · have htarget : target ∈ d.nodes := by
      have hmem : target ∈ d.nodes.drop d.aboveLength := by simp [hdrop]
      exact List.mem_of_mem_drop hmem
    rcases hplace with ⟨-, hplace⟩ | hplace
    · rw [hplace]
      obtain ⟨before, own, after, htext, hstart, -, -⟩ := hd.spelled target (mem_all htarget)
      rw [List.append_assoc] at htext
      obtain ⟨above, line, hbefore, hline, -, hend⟩ := lineStart_eq htext
      show Unbroken d.text ((d.lineStart target.start : Nat) : Int)
      rw [hstart, hline]
      -- a line begins right behind a line feed
      refine unbroken_of_split (htext.trans (by rw [hbefore, List.append_assoc])) fun hlast => ?_
      cases hend _ hlast
    · rw [hplace]
      exact hd.unbroken_statement htarget
  · rw [hplace]
    exact hd.unbroken_last hlast hn hliteral
  · simp [all, hnodes] at hn

theorem Laid.unbroken_ensureImport (hd : d.Laid) {b : ImportBinding} {e : Edit}
    (h : d.ensureImport b = .ok (some e)) {n : Node} (hn : n ∈ d.all)
    (hliteral : n.isLiteral = true) : Unbroken d.text e.stop := by
  rcases ensureImport_cases h with ⟨m, hm, himport, hedit | rfl⟩ | rfl
  · exact hd.unbroken_augment hm himport hedit
  · refine hd.unbroken_stop (mem_all hm) ?_
    cases m <;> first | rfl | cases himport
  · exact hd.unbroken_insertDeclaration _ _ hn hliteral

/-! ### What edits put in -/

/-- The style of a file: its line end apart, it has no line ends. -/
theorem Laid.importStyle_inline (hd : d.Laid) :
    isQuote d.importStyle.quote = true ∧ IsInline d.importStyle.semicolon ∧
      IsInline d.importStyle.padding ∧ d.importStyle.newline = d.newline := by
  have hinline : IsInline [';'] ∧ IsInline [' '] ∧ IsInline [] := by simp [IsInline]
  obtain ⟨hsemicolon, hpadding, hempty⟩ := hinline
  unfold importStyle
  cases hfound : d.nodes.findSome? fun n =>
      if n.isImport then n.importSource?.map (d.styleOf n) else none with
  | none => exact ⟨rfl, hsemicolon, hpadding, rfl⟩
  | some style =>
      obtain ⟨n, hn, hstyle⟩ := List.exists_of_findSome?_eq_some hfound
      split at hstyle
      · obtain ⟨source, hsource, rfl⟩ := Option.map_eq_some_iff.1 hstyle
        refine ⟨?_, ?_, ?_, rfl⟩
        · have hall := child_mem_all (mem_all hn) (List.mem_of_find?_eq_some hsource)
          have hleaf := List.find?_some hsource
          have hgrounded := hd.grounded source hall
          cases source with
          | leaf kind start text =>
              obtain rfl : kind = .string .specifier := by simpa [Node.isLeaf] using hleaf
              obtain ⟨c, hquote, hhead, -⟩ := hgrounded
              obtain ⟨rest, rfl⟩ := List.head?_eq_some_iff.1 hhead
              exact hquote
          | _ => cases hleaf
        · show IsInline (if _ then [';'] else [])
          split <;> assumption
        · show IsInline (if _ then [] else [' '])
          split <;> assumption
      · cases hstyle

theorem isInline_clause {b : ImportBinding} {style : ImportStyle} (hsymbol : IsInline b.symbol)
    (hpadding : IsInline style.padding) : IsInline (b.clause style) := by
  unfold ImportBinding.clause
  cases b.kind with
  | default => exact hsymbol
  | named => simp [hsymbol, hpadding]

theorem holds_render {P : List Char → Prop} (hP : IsLineRule P) {b : ImportBinding}
    {style : ImportStyle} (hclause : IsInline (b.clause style))
    (hquote : isQuote style.quote = true)
    (hsemicolon : IsInline style.semicolon)
    (hsource : P (Escape.specifierBody style.quote b.source)) : P (b.render style) := by
  have hmark : style.quote ≠ '\n' ∧ style.quote ≠ '\r' := by
    constructor <;> intro heq <;> rw [heq] at hquote <;> exact absurd hquote (by decide)
  have hhead :
      IsInline ("import ".toList ++ b.clause style ++ " from ".toList ++ [style.quote]) := by
    simp [hclause, hmark]
  have htail : IsInline (style.quote :: style.semicolon) := isInline_cons.2 ⟨hmark, hsemicolon⟩
  have hbody := hP.append _ _ (hP.inline _ hhead) hsource
  rw [← List.append_cons ("import ".toList ++ b.clause style ++ " from ".toList)] at hbody
  exact hP.append _ _ hbody (hP.inline _ htail)

/-- What is put in for a binding has the line ends of the file, if its symbol has none and its
module has no others. -/
theorem Laid.ensureImport_inserts {P : List Char → Prop} (hP : IsLineRule P) (hd : d.Laid)
    (hnewline : P d.newline) {b : ImportBinding} (hsymbol : IsInline b.symbol)
    (hsource : ∀ quote, P (Escape.specifierBody quote b.source)) {e : Edit}
    (h : d.ensureImport b = .ok (some e)) : P e.replacement := by
  obtain ⟨hquote, hsemicolon, hpadding, hline⟩ := hd.importStyle_inline
  have hclause := isInline_clause hsymbol hpadding
  have hrender := holds_render hP hclause hquote hsemicolon (hsource _)
  rw [← hline] at hnewline
  rcases ensureImport_cases h with ⟨m, -, -, hedit | rfl⟩ | rfl
  · -- what is added to a declaration stays on its line
    refine hP.inline _ ?_
    rcases augment_cases hedit with
      rfl | ⟨_, -, rfl | ⟨_, -, ⟨-, rfl⟩ | ⟨_, -, rfl⟩⟩ | ⟨_, -, rfl⟩⟩
    all_goals simp [insertion, hclause, hsymbol]
  · exact hP.append _ _ hnewline hrender
  · rcases d.insertDeclaration_cases d.importStyle (b.render d.importStyle) with
      ⟨_, _, -, ⟨-, hplace⟩ | hplace⟩ | ⟨_, -, -, hplace⟩ | ⟨-, hplace⟩
    all_goals rw [hplace]
    · exact hP.append _ _ hrender hnewline
    · exact hP.append _ _ hrender hnewline
    · exact hP.append _ _ hnewline hrender
    · exact hP.append _ _ hrender hnewline

theorem isInline_ofLiteral {call : List Char} (h : IsInline call) (l : Literal) :
    IsInline (Edit.ofLiteral l call).replacement := by
  unfold Edit.ofLiteral
  simp only
  repeat' split
  all_goals simp [h]

/-! ### The line end of a file -/

theorem endsLinesTwice_of_pair (before after : List Char) :
    newline.endsLinesTwice (before ++ '\r' :: '\n' :: after) = true := by
  induction before with
  | nil => rfl
  | cons c before ih =>
      rw [List.cons_append]
      unfold newline.endsLinesTwice
      split
      · rfl
      · next heq =>
        obtain ⟨-, rfl⟩ := List.cons.inj heq
        exact ih
      · next heq => cases heq

theorem return_mem_of_endsLinesTwice {text : List Char} (h : newline.endsLinesTwice text = true) :
    '\r' ∈ text := by
  fun_induction newline.endsLinesTwice text with
  | case1 => simp
  | case2 c r _ ih => exact List.mem_cons_of_mem c (ih h)
  | case3 => cases h

/-- A file with line feeds, all of them in pairs, has the pair as its line end. -/
theorem newline_of_isPaired (h : IsPaired d.text) (hline : '\n' ∈ d.text) :
    d.newline = ['\r', '\n'] := by
  obtain ⟨before, after, htext⟩ := List.append_of_mem hline
  obtain ⟨init, rfl⟩ := List.getLast?_eq_some_iff.1 (h before after htext)
  have htwice := endsLinesTwice_of_pair init after
  rw [← List.singleton_append, ← List.append_assoc, ← htext] at htwice
  rw [newline, if_pos htwice]

theorem newline_of_noReturn (h : '\r' ∉ d.text) : d.newline = ['\n'] := by
  rw [newline, if_neg fun htwice => h (return_mem_of_endsLinesTwice htwice)]

end Document

end Source

/-! ### Names and keys -/

theorem mem_of_mem_specifierBody {quote c : Char} {text : List Char}
    (h : c ∈ Escape.specifierBody quote text) : c ∈ text ∨ c = '\\' := by
  obtain ⟨x, hx, hc⟩ := List.mem_flatMap.1 h
  unfold Escape.specifierChar at hc
  split at hc
  · exact Or.inr (by simpa using hc)
  · split at hc
    · rcases List.mem_pair.1 hc with rfl | rfl
      · exact Or.inr rfl
      · exact Or.inl hx
    · rw [List.mem_singleton.1 hc]
      exact Or.inl hx

theorem mem_of_mem_strip {c : Char} {text : List Char} (h : c ∈ strip text) : c ∈ text := by
  rw [← margins_trim isSpace text]
  exact List.mem_append_left _ (List.mem_append_right _ h)

/-- White space apart, no character ends a line. -/
theorem isInline_of_isSpace {text : List Char} (h : ∀ c ∈ text, isSpace c = false) :
    IsInline text := by
  intro c hc
  have hspace := h c hc
  constructor
  all_goals
    rintro rfl
    exact absurd hspace (by decide)

theorem Call.isInline_render {name key call : List Char} (h : Call.render name key = .ok call) :
    IsInline call := by
  obtain ⟨f, hf, rfl⟩ := Call.render_eq_ok h
  have hname : IsInline f := isInline_of_isSpace fun c hc =>
    (Call.isPlain_of_callee hf (by simp [hc])).1
  have hbody : IsInline (Escape.quotedBody key) := by
    intro c hc
    have hle := Escape.le_of_mem_quotedBody hc
    constructor
    all_goals
      rintro rfl
      exact absurd hle (by decide)
  simp [Escape.quoted, hname, hbody]

/-- What a target imports: its module has no other characters than the target names, and its symbol
is a part of the call. -/
theorem Target.isInline_binding {t : Target} {f : List Char} {b : ImportBinding}
    (hcallee : Call.callee t.functionName = .ok f) (h : t.binding = .ok (some b)) :
    (∃ s ∈ t.importSource, b.source = strip s) ∧ IsInline b.symbol := by
  unfold binding at h
  simp only at h
  split at h
  · cases h
  · next hasked =>
    simp only [Bool.or_eq_true, List.isEmpty_iff, not_or] at hasked
    obtain ⟨⟨-, hsource⟩, hsymbol⟩ := hasked
    split at h
    · obtain rfl := Option.some.inj (Except.ok.inj h)
      refine ⟨?_, isInline_of_isSpace fun c => ?_⟩
      · cases hs : t.importSource with
        | none =>
            rw [hs] at hsource
            exact absurd rfl hsource
        | some s => exact ⟨s, rfl, by rw [Option.getD_some]⟩
      · refine Call.isSpace_of_isIdentifier ((Call.splitAt_of_callee hcallee).2 _ ?_)
        obtain ⟨p, ps, hparts⟩ := List.exists_cons_of_ne_nil (Path.splitAt_ne_nil t.functionName)
        rw [hparts, List.headD_cons] at hsymbol ⊢
        refine List.mem_filter.2 ⟨List.mem_map.2 ⟨p, by simp [hparts], rfl⟩, ?_⟩
        simpa using hsymbol
    · cases h

/-! ### Patches -/

namespace Patch

variable {w : Workspace} {root : Option Path} {t : Target} {r : Rendering}

/-- What a patch takes the place of is not blank. -/
theorem value_of_locate (hmet : t.lacks? = none) {d : Document} {l : Literal}
    (h : d.locate t.text t.line t.column = .ok (some l)) : Points.strip l.value ≠ [] := by
  have hblank := (Target.not_blank hmet).2
  have hfits := Document.fits_of_locate h
  simp only [Document.fits, Bool.and_eq_true, beq_iff_eq] at hfits
  rw [hfits.2]
  intro hnil
  have hstrip : strip t.text = [] := List.map_eq_nil_iff.1 hnil
  rw [Document.isBlankText_of_strip hstrip] at hblank
  cases hblank

/-- What holds of the pieces of a file, of its line end and of the module to import from holds of
the file with the patch made. -/
theorem holds_renderBy {parse : Parser} (hparser : parse.Lays) {P : List Char → Prop}
    (hP : IsLineRule P) (h : renderBy parse w root t = .ok r)
    (hpieces : ∀ before own after, r.before = before ++ own ++ after →
      Unbroken r.before (byteLength before) → P own)
    (hnewline : ∀ d : Document, d.text = r.before → P d.newline)
    (hsource : ∀ s ∈ t.importSource, ∀ quote, P (Escape.specifierBody quote (strip s))) :
    P r.after := by
  obtain ⟨call, text, hrenders⟩ := renders_of_renderBy h
  obtain ⟨rfl, d, l, found, hparse, hlocate, -, hfound, hedit⟩ :=
    edited_of_renderText hrenders.renders
  obtain ⟨htext, hd⟩ := hparser _ _ _ hparse
  obtain ⟨n, hn, hl⟩ := Document.mem_literals_of_locate hlocate
  obtain ⟨f, hcallee, -⟩ := Call.render_eq_ok hrenders.named
  have hvalue := value_of_locate hrenders.met hlocate
  have himports : ∀ e ∈ found, d.Admits e ∧ P e.replacement ∧ Unbroken d.text e.stop := by
    intro e he
    obtain ⟨b, hbinding, hensure⟩ := hfound e he
    obtain ⟨⟨s, hs, hbody⟩, hsymbol⟩ := Target.isInline_binding hcallee hbinding
    refine ⟨hd.admits_ensureImport hensure, ?_,
      hd.unbroken_ensureImport hensure hn (Document.literalAt_ok hl).1⟩
    exact hd.ensureImport_inserts hP (hnewline d htext) hsymbol
      (fun quote => hbody ▸ hsource s hs quote) hensure
  have hedits : ∀ e ∈ Edit.ofLiteral l call :: found.toList,
      P e.replacement ∧ Unbroken d.text e.stop := by
    refine List.forall_mem_cons.2 ⟨⟨?_, hd.unbroken_ofLiteral hn hl hvalue call⟩, fun e he => ?_⟩
    · exact hP.inline _ (Document.isInline_ofLiteral (Call.isInline_render hrenders.named) l)
    · exact (himports e (Option.mem_toList.1 he)).2
  obtain ⟨result, hresult, hspliced⟩ := hd.apply_ofLiteral hn hl call found
    fun e he => (himports e he).1
  rw [htext] at hresult hspliced hedits
  obtain rfl := Except.ok.inj (hresult.symm.trans hedit)
  refine hspliced.holds hP hpieces (fun e he => hedits e ?_) [] rfl rfl ?_
  · exact (List.mergeSort_perm _ Edit.precedes).mem_iff.1 he
  · exact unbroken_of_split (List.nil_append r.before).symm nofun

/-- A patch keeps to the line ends of its file, if the module that it imports from has no others: a
file with line feeds, each after a carriage return, stays one, and so does a file without carriage
returns. Of the parser only the layout of its trees matters. -/
theorem render_keeps_lineEnds {parse : Parser} (hparser : parse.Lays)
    (h : renderBy parse w root t = .ok r) :
    ('\n' ∈ r.before → IsPaired r.before → (∀ s ∈ t.importSource, '\n' ∉ s) → IsPaired r.after) ∧
      ('\r' ∉ r.before → (∀ s ∈ t.importSource, '\r' ∉ s) → '\r' ∉ r.after) := by
  have hbody : ∀ {c : Char} {s : List Char} (quote : Char), c ≠ '\\' → c ∉ s →
      c ∉ Escape.specifierBody quote (strip s) := by
    intro c s quote hne hnot hc
    rcases mem_of_mem_specifierBody hc with hc | hc
    · exact hnot (mem_of_mem_strip hc)
    · exact hne hc
  constructor
  · intro hline hpaired hsource
    refine holds_renderBy hparser isLineRule_isPaired h
      (fun before own after => hpaired.piece) ?_ ?_
    · intro d hd
      rw [Document.newline_of_isPaired (hd ▸ hpaired) (hd ▸ hline)]
      exact isPaired_pair
    · exact fun s hs quote => isPaired_of_not_mem (hbody quote (by decide) (hsource s hs))
  · intro hreturn hsource
    refine holds_renderBy hparser isLineRule_noReturn h
      (fun before own after htext _ hmem => ?_) ?_ ?_
    · rw [htext] at hreturn
      exact hreturn (by simp [hmem])
    · intro d hd
      rw [Document.newline_of_noReturn (hd ▸ hreturn)]
      decide
    · exact fun s hs quote => hbody quote (by decide) (hsource s hs)

/-- A declaration of its own, above a call, in a file with pairs and in one without. -/
theorem render_keeps_lineEnds_declaration :
    let file (text : List Char) : Workspace :=
      ⟨Store.empty.place ["w", "a.tsx"] (.leaf (.file (Utf8.encode text))), ⟨"/", ["w"]⟩,
        ⟨"/", ["h"]⟩, []⟩
    let t : Target := ⟨"a.tsx".toList, "Save".toList, 1, 2, "k".toList, "t".toList,
      some "m".toList, "named".toList, false⟩
    (∃ r, render (file "x(\"Save\");\r\n".toList) none t = .ok r ∧ '\n' ∈ r.before ∧
      IsPaired r.before ∧ (∀ s ∈ t.importSource, '\n' ∉ s) ∧
      r.after = "import \x7b t \x7d from \"m\";\r\nx(t(\"k\"));\r\n".toList ∧ IsPaired r.after) ∧
    ∃ r, render (file "x(\"Save\");\n".toList) none t = .ok r ∧ '\r' ∉ r.before ∧
      (∀ s ∈ t.importSource, '\r' ∉ s) ∧
      r.after = "import \x7b t \x7d from \"m\";\nx(t(\"k\"));\n".toList ∧ '\r' ∉ r.after := by
  intro file t
  let path : Path := ⟨"/", ["w", "a.tsx"]⟩
  let call := "t(\"k\")".toList
  let b : ImportBinding := ⟨"m".toList, "t".toList, .named⟩
  let l : Literal :=
    { kind := .string, value := Points.ofString "Save", position := ⟨1, 2⟩, span := ⟨2, 8⟩,
      content := ⟨2, 8⟩, inAttribute := false, isKey := false }
  have hmet : t.lacks? = none := by decide +kernel
  have hnamed : Call.render t.functionName (strip t.key) = .ok call := by decide +kernel
  have hbinding : t.binding = .ok (some b) := by decide +kernel
  have hmodule : ∀ s ∈ t.importSource, '\n' ∉ s ∧ '\r' ∉ s := by
    rintro s ⟨⟩
    decide
  have hrender : ∀ newline, newline = ['\r', '\n'] ∨ newline = ['\n'] →
      render (file ("x(\"Save\");".toList ++ newline)) none t =
        .ok ⟨path, "x(\"Save\");".toList ++ newline,
          "import \x7b t \x7d from \"m\";".toList ++ newline ++ "x(t(\"k\"));".toList ++ newline,
          true⟩ := by
    intro newline hnewline
    let e : Edit := ⟨0, 0, "import \x7b t \x7d from \"m\";".toList ++ newline⟩
    have hfacts : (Document.parse (some path.toString)
        ("x(\"Save\");".toList ++ newline)).toOption.map
          (fun d => (d.locate t.text t.line t.column, d.ensureImport b)) =
            some (.ok (some l), .ok (some e)) := by
      rcases hnewline with rfl | rfl <;> decide +kernel
    have hpath : locateFile (file ("x(\"Save\");".toList ++ newline)) none t.filePath =
        .ok path := by
      rcases hnewline with rfl | rfl <;> decide +kernel
    have hreads : (file ("x(\"Save\");".toList ++ newline)).store.readText path =
        .ok ("x(\"Save\");".toList ++ newline) := by
      rcases hnewline with rfl | rfl <;> decide +kernel
    have hordered : Edit.ordered [Edit.ofLiteral l call, e] = [e, Edit.ofLiteral l call] := by
      refine Edit.ordered_of_not_precedes ?_
      rcases hnewline with rfl | rfl <;> decide +kernel
    have hedit : Edit.apply
        ([] ++ [] ++ "x(".toList ++ "\"Save\"".toList ++ (");".toList ++ newline))
        [Edit.ofLiteral l call, e] = _ := Edit.apply_pair rfl rfl rfl rfl hordered
    rw [render, renderBy_eq _ hmet hnamed rfl hpath hreads,
      renderText_of_facts hfacts hbinding hedit]
    rcases hnewline with rfl | rfl <;> rfl
  have hpaired : IsPaired "x(\"Save\");\r\n".toList :=
    IsPaired.append (isPaired_of_not_mem (show '\n' ∉ "x(\"Save\");".toList by decide))
      isPaired_pair
  have hpair := hrender ['\r', '\n'] (Or.inl rfl)
  have hfeed := hrender ['\n'] (Or.inr rfl)
  exact ⟨⟨_, hpair, by decide, hpaired, fun s hs => (hmodule s hs).1, rfl,
      (render_keeps_lineEnds Parser.lays_parse hpair).1 (by decide) hpaired fun s hs =>
        (hmodule s hs).1⟩,
    ⟨_, hfeed, by decide, fun s hs => (hmodule s hs).2, rfl,
      (render_keeps_lineEnds Parser.lays_parse hfeed).2 (by decide) fun s hs => (hmodule s hs).2⟩⟩

end Patch

end Phrasebook

import Phrasebook.Proofs.Part
import Phrasebook.Proofs.TextRun

/-!
Where the nodes of a tree stand. What a tree reads as has the tokens of the tree, all of them and in
order, but for texts of elements, which it cuts; so a node begins in the text where its first token
does.
-/

namespace Phrasebook.Source

/-! ### Lengths -/

theorem foldl_utf8Size (n : Nat) (text : List Char) :
    text.foldl (fun n c => n + c.utf8Size) n = n + byteLength text := by
  induction text generalizing n with
  | nil => rfl
  | cons c r ih =>
      rw [byteLength, List.foldl_cons, List.foldl_cons, ih, ih]
      omega

@[simp] theorem byteLength_nil : byteLength [] = 0 := rfl

@[simp] theorem byteLength_cons (c : Char) (r : List Char) :
    byteLength (c :: r) = c.utf8Size + byteLength r := by
  rw [byteLength, List.foldl_cons, foldl_utf8Size]
  omega

@[simp] theorem byteLength_append (a b : List Char) :
    byteLength (a ++ b) = byteLength a + byteLength b := by
  induction a with
  | nil => simp
  | cons c a ih =>
      simp only [List.cons_append, byteLength_cons, ih]
      omega

theorem byteLength_pos {text : List Char} (h : text ≠ []) : 0 < byteLength text := by
  obtain ⟨c, r, rfl⟩ := List.exists_cons_of_ne_nil h
  rw [byteLength_cons]
  have hc := c.utf8Size_pos
  omega

theorem Token.width_eq (t : Token) : t.width = byteLength t.chars := by
  simp [Token.width, Token.chars]

theorem sum_width (ts : List Token) : addUp (ts.map Token.width) = byteLength (charsOf ts) := by
  induction ts with
  | nil => rfl
  | cons t ts ih =>
      rw [List.map_cons, addUp_cons, ih, Token.width_eq, ← byteLength_append]
      rfl

theorem Shape.width_eq (s : Shape) : s.width = byteLength (charsOf s.tokens) := sum_width _

theorem Tree.width_eq (t : Tree) : t.width = byteLength (charsOf t.tokens) := sum_width _

/-! ### Tokens of shapes -/

open Shape

theorem Shape.stretch_chars (form : Token → Shape) (hform : ∀ t, (form t).tokens = [t])
    (text : List Char) : charsOf (tokensAll (stretch form text)) = text := by
  unfold stretch
  split
  · next h => simpa using h
  · simp [hform]

theorem Shape.ofText_eq (text : List Char) :
    ofText text = stretch (token none) (Lexeme.layoutBefore text) ++
      stretch run (Lexeme.textRun text) ++ stretch (token none) (Lexeme.layoutAfter text) := by
  have hdrop : text.drop ((Lexeme.layoutBefore text).length + (Lexeme.textRun text).length) =
      Lexeme.layoutAfter text := by
    conv => lhs; arg 2; rw [← Lexeme.layout_textRun text]
    rw [← List.length_append, List.drop_left]
  rw [ofText, hdrop]

theorem Shape.ofText_chars (text : List Char) : charsOf (tokensAll (ofText text)) = text := by
  rw [ofText_eq, tokensAll_append, tokensAll_append, charsOf_append, charsOf_append,
    stretch_chars _ (by simp), stretch_chars _ (by simp), stretch_chars _ (by simp),
    Lexeme.layout_textRun]

theorem Shape.kind_of_mem_ofText {text : List Char} {t : Token} (h : t ∈ tokensAll (ofText text)) :
    t.kind = .text := by
  have hstretch : ∀ (form : Token → Shape) (_ : ∀ t, (form t).tokens = [t]) (part : List Char),
      t ∈ tokensAll (stretch form part) → t.kind = .text := by
    intro form hform part ht
    unfold stretch at ht
    split at ht
    · simp at ht
    · rw [tokensAll_cons, tokensAll_nil, hform, List.append_nil, List.mem_singleton] at ht
      rw [ht]
  rw [ofText_eq, tokensAll_append, tokensAll_append, List.mem_append, List.mem_append] at h
  rcases h with (h | h) | h
  · exact hstretch _ (by simp) _ h
  · exact hstretch _ (by simp) _ h
  · exact hstretch _ (by simp) _ h

/-- Tokens as shapes have them: a text of an element may be cut into what is shown of it and the
layout around. -/
inductive Recut : List Token → List Token → Prop
  | nil : Recut [] []
  | kept (t : Token) {cut ts : List Token} (following : Recut cut ts) : Recut (t :: cut) (t :: ts)
  | text {t : Token} (textual : t.kind = .text) {cut ts : List Token} (following : Recut cut ts) :
      Recut (tokensAll (ofText t.chars) ++ cut) (t :: ts)

namespace Recut

theorem refl (ts : List Token) : Recut ts ts := by
  induction ts with
  | nil => exact .nil
  | cons t ts ih => exact .kept t ih

theorem append {cut ts cut' ts' : List Token} (h : Recut cut ts) (k : Recut cut' ts') :
    Recut (cut ++ cut') (ts ++ ts') := by
  induction h with
  | nil => exact k
  | kept t _ ih => exact .kept t ih
  | text textual _ ih =>
      rw [List.append_assoc]
      exact .text textual ih

theorem chars {cut ts : List Token} (h : Recut cut ts) : charsOf cut = charsOf ts := by
  induction h with
  | nil => rfl
  | kept t _ ih => rw [charsOf_cons, charsOf_cons, ih]
  | @text t textual cut ts _ ih =>
      rw [charsOf_append, ofText_chars, ih, charsOf_cons]
      rfl

theorem eq_cons {t : Token} {cut ts : List Token} (h : Recut cut (t :: ts)) (ht : t.kind ≠ .text) :
    ∃ later, cut = t :: later := by
  cases h with
  | kept => exact ⟨_, rfl⟩
  | text textual => exact absurd textual ht

theorem eq_concat {t : Token} {cut ts : List Token} (h : Recut cut (ts ++ [t]))
    (ht : t.kind ≠ .text) : ∃ init, cut = init ++ [t] := by
  induction ts generalizing cut with
  | nil =>
      cases h with
      | kept _ following =>
          cases following
          exact ⟨[], rfl⟩
      | text textual => exact absurd textual ht
  | cons u ts ih =>
      cases h with
      | kept _ following =>
          obtain ⟨init, rfl⟩ := ih following
          exact ⟨u :: init, rfl⟩
      | text _ following =>
          obtain ⟨init, rfl⟩ := ih following
          exact ⟨tokensAll (ofText u.chars) ++ init, by rw [List.append_assoc]⟩

/-- A token that is no text of an element is there as it was, after the same characters. -/
theorem exists_token {front back ts : List Token} {t : Token} (h : Recut (front ++ t :: back) ts)
    (ht : t.kind ≠ .text) :
    ∃ before after, ts = before ++ t :: after ∧ charsOf before = charsOf front := by
  generalize hcut : front ++ t :: back = cut at h
  induction h generalizing front with
  | nil => simp at hcut
  | @kept u cut ts _ ih =>
      cases front with
      | nil =>
          obtain ⟨rfl, -⟩ := List.cons.inj hcut
          exact ⟨[], ts, rfl, rfl⟩
      | cons v front =>
          obtain ⟨rfl, hrest⟩ := List.cons.inj hcut
          obtain ⟨before, after, rfl, hchars⟩ := ih hrest
          exact ⟨v :: before, after, rfl, by rw [charsOf_cons, charsOf_cons, hchars]⟩
  | @text u textual cut ts _ ih =>
      rcases append_eq_append_cons hcut.symm with ⟨Z, rfl, hZ⟩ | ⟨Z, hZ, -⟩
      · obtain ⟨before, after, rfl, hchars⟩ := ih hZ.symm
        refine ⟨u :: before, after, rfl, ?_⟩
        rw [charsOf_cons, charsOf_append, ofText_chars, hchars]
        rfl
      · exact absurd (kind_of_mem_ofText (by rw [hZ]; simp)) ht

end Recut

/-! ### Outlines with their parts put in -/

def Token.filled (table : List (List Shape)) (t : Token) : List Token :=
  match t.kind with
  | .nested _ index => tokensAll (table.getD index [])
  | _ => [t]

def Token.IsOwn (t : Token) : Prop := ∀ role index, t.kind ≠ .nested role index

theorem Token.isOwn_of_isProper {t : Token} (h : t.isProper = true) : t.IsOwn := by
  intro role index hk
  simp [isProper, hk] at h

theorem Token.IsOwn.filled_eq {table : List (List Shape)} {t : Token} (h : t.IsOwn) :
    t.filled table = [t] := by
  unfold filled
  split
  · next hk => exact absurd hk (h _ _)
  · rfl

@[simp] theorem Shape.fillAll_nil (table : List (List Shape)) : fillAll table [] = [] := by
  simp [fillAll]

@[simp] theorem Shape.fillAll_cons (table : List (List Shape)) (s : Shape) (ss : List Shape) :
    fillAll table (s :: ss) = s.fill table ++ fillAll table ss := by
  simp [fillAll]

@[simp] theorem Shape.fill_node (table : List (List Shape)) (kind : Construct)
    (parts : List Shape) : (node kind parts).fill table = [node kind (fillAll table parts)] := by
  simp [fill]

theorem Shape.IsCode.tokensAll_fill {table : List (List Shape)} {s : Shape} (h : s.IsCode) :
    tokensAll (s.fill table) = s.tokens.flatMap (Token.filled table) := by
  induction h with
  | token kind t =>
      simp only [fill, tokens_token, List.flatMap_cons, List.flatMap_nil, List.append_nil,
        Token.filled]
      cases t.kind <;> simp
  | @node kind parts made visible inner ih =>
      rw [fill_node, tokens_node, tokensAll_cons, tokens_node, tokensAll_nil, List.append_nil]
      clear made visible inner
      induction parts with
      | nil => simp
      | cons s parts ihp =>
          rw [fillAll_cons, tokensAll_append, tokensAll_cons, List.flatMap_append, ih s (by simp),
            ihp fun u hu => ih u (by simp [hu])]

/-- The tokens of an outline with its parts put in. -/
theorem Shape.tokensAll_fillAll {table : List (List Shape)} {ss : List Shape}
    (h : ∀ s ∈ ss, s.IsCode) :
    tokensAll (fillAll table ss) = (tokensAll ss).flatMap (Token.filled table) := by
  induction ss with
  | nil => simp
  | cons s ss ih =>
      rw [fillAll_cons, tokensAll_append, tokensAll_cons, List.flatMap_append,
        (h s (by simp)).tokensAll_fill, ih fun u hu => h u (by simp [hu])]

namespace Shape

theorem mem_fillAll {table : List (List Shape)} {ss : List Shape} {x : Shape} :
    x ∈ fillAll table ss ↔ ∃ s ∈ ss, x ∈ s.fill table := by
  induction ss with
  | nil => simp
  | cons s ss ih => simp [ih]

theorem fill_of_isOwn {table : List (List Shape)} {kind : Option Leaf} {t : Token}
    (h : t.IsOwn) : (token kind t).fill table = [token kind t] := by
  simp only [fill]
  split
  · next hk => exact absurd hk (h _ _)
  · rfl

theorem isOwn_of_kind {t : Token} {kind : TokenKind} (h : t.kind = kind)
    (hk : ∀ role index, kind ≠ .nested role index) : t.IsOwn := by
  intro role index
  rw [h]
  exact hk role index

end Shape

namespace Tree

theorem shown_kind {t : Tree} (h : t.first.IsOwn) {i j : Nat} {role : Role}
    (hk : (t.shown i).kind = .nested role j) : t.role? = some role ∧ j = i := by
  cases hr : t.role? with
  | none =>
      rw [shown, hr] at hk
      exact absurd hk (h role j)
  | some r =>
      simp only [shown, hr, TokenKind.nested.injEq] at hk
      exact ⟨by rw [hk.1], hk.2.symm⟩

/-- The numbers of parts in an outline. -/
theorem index_of_mem_outline {trees : List Tree} (h : ∀ t ∈ trees, t.first.IsOwn) {i j : Nat}
    {role : Role} {t : Token} (ht : t ∈ outline i trees) (hk : t.kind = .nested role j) :
    i ≤ j ∧ j < i + trees.length := by
  induction trees generalizing i with
  | nil => simp [outline] at ht
  | cons tree trees ih =>
      rw [List.length_cons]
      rcases List.mem_cons.1 ht with rfl | ht
      · obtain ⟨-, rfl⟩ := shown_kind (h tree (by simp)) hk
        omega
      · have hj := ih (fun u hu => h u (by simp [hu])) ht
        omega

/-- The tree that a token of an outline stands for. -/
theorem outline_eq_append {trees : List Tree} (h : ∀ t ∈ trees, t.first.IsOwn) {i j : Nat}
    {role : Role} {left right : List Token} {t : Token}
    (heq : outline i trees = left ++ t :: right) (hk : t.kind = .nested role j) :
    ∃ before tree after, trees = before ++ tree :: after ∧ left = outline i before ∧
      j = i + before.length ∧ tree.role? = some role ∧ right = outline (j + 1) after := by
  induction trees generalizing i left with
  | nil => simp [outline] at heq
  | cons tree trees ih =>
      rw [outline] at heq
      cases left with
      | nil =>
          obtain ⟨rfl, hright⟩ := List.cons.inj heq
          obtain ⟨hrole, rfl⟩ := shown_kind (h tree (by simp)) hk
          exact ⟨[], tree, trees, rfl, rfl, rfl, hrole, hright.symm⟩
      | cons u left =>
          obtain ⟨rfl, hrest⟩ := List.cons.inj heq
          obtain ⟨before, other, after, rfl, rfl, rfl, hrole, hright⟩ :=
            ih (fun v hv => h v (by simp [hv])) hrest
          refine ⟨tree :: before, other, after, rfl, rfl, ?_, hrole, hright⟩
          rw [List.length_cons]
          omega

end Tree

structure Part.Faithful (p : Part) : Prop where
  own : p.1.first.IsOwn
  recut : ∀ shapes, p.2 = .ok shapes → Recut (tokensAll shapes) p.1.tokens

theorem Part.Faithful.shown_filled {p : Part} (h : p.Faithful) {shapes : List Shape}
    (hp : p.2 = .ok shapes) {table : List (List Shape)} {i : Nat}
    (hi : table.getD i [] = shapes) :
    Recut ((p.1.shown i).filled table) p.1.tokens := by
  rw [Tree.shown]
  cases hr : p.1.role? with
  | none =>
      rw [h.own.filled_eq]
      conv => arg 2; rw [Tree.eq_token_of_role? hr]
      exact .refl _
  | some role =>
      simp only [Token.filled]
      rw [hi]
      exact h.recut shapes hp

/-- An outline stands for all tokens of its row. -/
theorem Part.outline_filled {parts : List Part} {found : List (List Shape)}
    (h : ∀ p ∈ parts, p.Faithful) (hfound : Part.shapes parts = .ok found)
    (before after : List (List Shape)) :
    Recut ((Tree.outline before.length (parts.map Prod.fst)).flatMap
        (Token.filled (before ++ found ++ after)))
      (Tree.tokensAll (parts.map Prod.fst)) := by
  rw [Part.shapes_eq_ok] at hfound
  induction parts generalizing before found with
  | nil => exact .nil
  | cons p parts ih =>
      obtain ⟨shapes, found, rfl, hp, hparts⟩ := List.map_eq_cons_iff.1 hfound.symm
      have hget : (before ++ shapes :: found ++ after).getD before.length [] = shapes := by simp
      have hlater := ih (fun q hq => h q (by simp [hq])) hparts.symm (before ++ [shapes])
      rw [List.length_append, List.length_singleton, List.append_assoc before,
        List.singleton_append]
        at hlater
      rw [List.map_cons, Tree.outline, List.flatMap_cons, Tree.tokensAll_cons]
      exact ((h p (by simp)).shown_filled hp.symm hget).append hlater

/-! ### Reading keeps the tokens -/

variable {dialect : Dialect} {result : List Shape}

/-- Reading stops nowhere before the end of a row of proper tokens. -/
theorem Part.eq_nil_of_atEnd {parts : List Part}
    (h : ∀ p ∈ parts, p.1.first.isProper = true) {ts rest : List Token} {index : Nat}
    (hts : Tree.outline index (parts.map Prod.fst) = ts ++ rest) (hend : atEnd rest = true) :
    rest = [] := by
  cases rest with
  | nil => rfl
  | cons t rest =>
      have hkind : t.kind = .stop ∨ t.kind = .border := by simpa [atEnd, isEnd] using hend
      have hmem : Tree.token t ∈ parts.map Prod.fst := by
        refine Tree.token_mem_of_outline (t := t) (by rw [hts]; simp) ?_
        rcases hkind with hk | hk <;> simp [hk]
      obtain ⟨p, hp, hpt⟩ := List.mem_map.1 hmem
      have hproper := h p hp
      rw [hpt] at hproper
      rcases hkind with hk | hk <;> simp [Tree.first, Token.isProper, hk] at hproper

/-- Reading a whole row takes all tokens of its outline. -/
theorem Part.exists_shown {goal : Goal} (hgoal : goal.TakesAll) {parts : List Part}
    (h : ∀ p ∈ parts, p.1.first.isProper = true)
    (hread : Part.readAs dialect goal parts = .ok result) :
    ∃ shown table, readAll dialect goal (Tree.outline 0 (parts.map Prod.fst)) = .ok shown ∧
      Part.shapes parts = .ok table ∧ result = fillAll table shown ∧
      tokensAll shown = Tree.outline 0 (parts.map Prod.fst) := by
  obtain ⟨shown, table, hshown, htable, rfl⟩ := Part.readAs_eq_ok.1 hread
  obtain ⟨rest, hrest, hend⟩ := atEnd_of_readAll hgoal hshown
  obtain rfl := Part.eq_nil_of_atEnd h hrest hend
  exact ⟨shown, table, hshown, htable, rfl, by rw [hrest, List.append_nil]⟩

theorem Part.readAs_recut {goal : Goal} (hgoal : goal.TakesAll) {parts : List Part}
    (h : ∀ p ∈ parts, p.Faithful ∧ p.1.first.isProper = true)
    (hread : Part.readAs dialect goal parts = .ok result) :
    Recut (tokensAll result) (Tree.tokensAll (parts.map Prod.fst)) := by
  obtain ⟨shown, table, hshown, htable, rfl, htokens⟩ :=
    Part.exists_shown hgoal (fun p hp => (h p hp).2) hread
  have hfilled := Part.outline_filled (fun p hp => (h p hp).1) htable [] []
  simp only [List.length_nil, List.nil_append, List.append_nil] at hfilled
  rw [tokensAll_fillAll (readAll_ok hshown).2, htokens]
  exact hfilled

/-- The shapes of parts in a row have the tokens of the row. -/
theorem Part.shapes_recut {parts : List Part} (h : ∀ p ∈ parts, p.Faithful)
    {found : List (List Shape)} (hfound : Part.shapes parts = .ok found) :
    Recut (tokensAll found.flatten) (Tree.tokensAll (parts.map Prod.fst)) := by
  rw [Part.shapes_eq_ok] at hfound
  induction parts generalizing found with
  | nil =>
      obtain rfl := List.map_eq_nil_iff.1 hfound.symm
      exact .nil
  | cons p parts ih =>
      obtain ⟨shapes, found, rfl, hp, hparts⟩ := List.map_eq_cons_iff.1 hfound.symm
      rw [List.flatten_cons, Shape.tokensAll_append, List.map_cons, Tree.tokensAll_cons]
      exact ((h p (by simp)).recut shapes hp.symm).append
        (ih (fun q hq => h q (by simp [hq])) hparts.symm)

theorem Part.readElement_recut {parts : List Part}
    (h : ∀ p ∈ parts, p.Faithful ∧ p.1.first.isProper = true)
    (hread : Part.readElement dialect parts = .ok result) :
    Recut (tokensAll result) (Tree.tokensAll (parts.map Prod.fst)) := by
  by_cases hend : ∃ p ∈ parts, Part.endsTag p = true
  · obtain ⟨p, hp, ht⟩ := hend
    obtain ⟨c, hc, rfl⟩ := Part.Cut.exists_valid hp ht
    obtain ⟨tag, content, htag, hcontent, rfl⟩ := (Part.readElement_cut hc).1 hread
    obtain ⟨inner, closing, hinner, hclosing, rfl⟩ := (Part.readContent_cut hc).1 hcontent
    simp only [Part.Cut.row, List.forall_mem_append, List.forall_mem_cons] at h
    obtain ⟨hop, htagEnd, hcon, hcl⟩ := h
    have ho := Part.readAs_recut (by simp [Goal.TakesAll])
      (List.forall_mem_append.2 ⟨hop, List.forall_mem_singleton.2 htagEnd⟩) htag
    have hi := Part.shapes_recut (fun p hp => (hcon p hp).1) hinner
    have hk := Part.readAs_recut (by simp [Goal.TakesAll]) hcl hclosing
    simpa [Part.Cut.row] using ho.append (hi.append hk)
  · have hall : ∀ p ∈ parts, Part.endsTag p = false := by simpa using hend
    obtain ⟨tag, htag, rfl⟩ := (Part.readElement_simple hall).1 hread
    have ho := Part.readAs_recut (by simp [Goal.TakesAll]) h htag
    simpa using ho

namespace Tree

theorem tokenShapes_recut (t : Token) : Recut (Shape.tokensAll (tokenShapes t)) [t] := by
  unfold tokenShapes
  split
  · next htext => simpa using Recut.text htext .nil
  · simpa using Recut.refl [t]
  · simpa using Recut.refl [t]

theorem Formed.first_isProper {whole top : Bool} {t : Tree} (h : Formed whole top t) :
    t.first.isProper = true := by
  cases h with
  | token proper _ _ => exact proper
  | nested proper _ _ _ _ => exact proper

theorem faithful_token {t : Token} (h : t.IsOwn) :
    Part.Faithful (token t, (token t).read dialect) := by
  refine ⟨h, fun shapes hs => ?_⟩
  rw [read_token] at hs
  obtain rfl := Except.ok.inj hs
  simpa using tokenShapes_recut t

/-- What is read where a nested tree is, with what opens and closes it. -/
theorem row_eq_readEach (dialect : Dialect) (opening : Token) (parts : List Tree)
    (ending : Option Token) : row opening (readEach dialect parts) ending =
      readEach dialect (token opening :: parts ++ ending.toList.map token) := by
  simp [row, readEach_eq_map, tokenPart, read_token]

theorem tokensAll_row (opening : Token) (parts : List Tree) (ending : Option Token) :
    tokensAll (token opening :: parts ++ ending.toList.map token) =
      (nested opening parts ending).tokens := by
  cases ending <;> simp

theorem formed_row {opening : Token} {parts : List Tree} {ending : Option Token} {top : Bool}
    (h : Formed true top (nested opening parts ending)) :
    ∀ t ∈ token opening :: parts ++ ending.toList.map token,
      t.first.isProper = true ∧ (t ∈ parts ∧ Formed true false t ∨ t = token t.first) := by
  cases h with
  | nested proper opens closes isWhole inner =>
      intro t ht
      rw [List.cons_append, List.mem_cons, List.mem_append] at ht
      rcases ht with rfl | ht | ht
      · exact ⟨proper, Or.inr rfl⟩
      · exact ⟨(inner t ht).first_isProper, Or.inl ⟨ht, inner t ht⟩⟩
      · obtain ⟨e, he, rfl⟩ := List.mem_map.1 ht
        exact ⟨(closes e (by simpa using he)).1, Or.inr rfl⟩

/-- What a tree reads as has the tokens of the tree. -/
theorem faithful_read {top : Bool} {t : Tree} (h : Formed true top t) :
    Part.Faithful (t, t.read dialect) := by
  induction t using induction_parts generalizing top with
  | htoken t => exact faithful_token (Token.isOwn_of_isProper h.first_isProper)
  | hnested opening parts ending ih =>
      refine ⟨Token.isOwn_of_isProper h.first_isProper, fun shapes hs => ?_⟩
      have hrow : ∀ p ∈ row opening (readEach dialect parts) ending,
          p.Faithful ∧ p.1.first.isProper = true := by
        rw [row_eq_readEach, readEach_eq_map]
        intro p hp
        obtain ⟨t, ht, rfl⟩ := List.mem_map.1 hp
        obtain ⟨hproper, ⟨hmem, hform⟩ | htoken⟩ := formed_row h t ht
        · exact ⟨ih t hmem hform, hproper⟩
        · refine ⟨?_, hproper⟩
          rw [htoken]
          exact faithful_token (Token.isOwn_of_isProper hproper)
      rw [← tokensAll_row, ← row_fst dialect]
      simp only [read_nested, readNested] at hs
      split at hs
      · exact Part.readAs_recut (by simp [Goal.TakesAll]) hrow hs
      · exact Part.readElement_recut hrow hs

end Tree

/-! ### Where nodes begin -/

namespace Node

@[simp] theorem preorderAll_nil : preorderAll [] = [] := by simp [preorderAll]

@[simp] theorem preorderAll_cons (n : Node) (ns : List Node) :
    preorderAll (n :: ns) = n.preorder ++ preorderAll ns := by simp [preorderAll]

@[simp] theorem preorderAll_append (a b : List Node) :
    preorderAll (a ++ b) = preorderAll a ++ preorderAll b := by
  induction a with
  | nil => simp
  | cons n a ih => simp [ih]

@[simp] theorem preorder_leaf (kind : Leaf) (start : Nat) (text : List Char) :
    (leaf kind start text).preorder = [leaf kind start text] := by simp [preorder]

@[simp] theorem preorder_run (start : Nat) (text : List Char) :
    (run start text).preorder = [run start text] := by simp [preorder]

@[simp] theorem preorder_branch (kind : Construct) (span : Span) (children : List Node) :
    (branch kind span children).preorder = branch kind span children :: preorderAll children := by
  simp [preorder]

theorem mem_preorderAll {ns : List Node} {x : Node} :
    x ∈ preorderAll ns ↔ ∃ n ∈ ns, x ∈ n.preorder := by
  induction ns with
  | nil => simp
  | cons n ns ih => simp [ih]

theorem mem_preorder {m n : Node} : n ∈ m.preorder ↔ n = m ∨ n ∈ preorderAll m.children := by
  cases m <;> simp [children]

theorem mem_preorder_self (n : Node) : n ∈ n.preorder := mem_preorder.2 (Or.inl rfl)

end Node

namespace Shape

@[simp] theorem nodesAll_nil (offset : Nat) : nodesAll offset [] = [] := by simp [nodesAll]

theorem nodesAll_cons (offset : Nat) (s : Shape) (ss : List Shape) :
    nodesAll offset (s :: ss) =
      s.nodes offset ++ nodesAll (offset + byteLength (charsOf s.tokens)) ss := by
  simp [nodesAll, width_eq]

theorem nodesAll_append (offset : Nat) (a b : List Shape) :
    nodesAll offset (a ++ b) =
      nodesAll offset a ++ nodesAll (offset + byteLength (charsOf (tokensAll a))) b := by
  induction a generalizing offset with
  | nil => simp
  | cons s a ih =>
      rw [List.cons_append, nodesAll_cons, ih, nodesAll_cons]
      simp [Nat.add_assoc]

def leadOf : List Token → Nat
  | t :: _ => byteLength t.gap
  | [] => 0

theorem nodes_node (offset : Nat) (kind : Construct) (parts : List Shape) :
    (node kind parts).nodes offset =
      [.branch kind ⟨offset + leadOf (tokensAll parts),
        offset + byteLength (charsOf (tokensAll parts))⟩ (nodesAll offset parts)] := by
  simp only [nodes, width_eq, lead, tokens_node]
  cases tokensAll parts <;> rfl

/-- An induction over shapes by their parts. -/
@[elab_as_elim]
theorem induction_parts {P : Shape → Prop} (htoken : ∀ kind t, P (token kind t))
    (hrun : ∀ t, P (run t)) (hnode : ∀ kind parts, (∀ p ∈ parts, P p) → P (node kind parts))
    (s : Shape) : P s :=
  match s with
  | token kind t => htoken kind t
  | run t => hrun t
  | node kind parts => hnode kind parts fun p _ => induction_parts htoken hrun hnode p

/-- A node stands among the characters of a text that begins at an offset. -/
structure Within (offset : Nat) (text : List Char) (n : Node) : Prop where
  start : ∃ p q, text = p ++ q ∧ n.start = offset + byteLength p
  stop : n.stop ≤ offset + byteLength text

theorem within_of_mem_all {ss : List Shape}
    (h : ∀ s ∈ ss, ∀ offset, ∀ n ∈ Node.preorderAll (s.nodes offset),
      Within offset (charsOf s.tokens) n) (offset : Nat) :
    ∀ n ∈ Node.preorderAll (nodesAll offset ss), Within offset (charsOf (tokensAll ss)) n := by
  induction ss generalizing offset with
  | nil => simp
  | cons s ss ih =>
      intro n hn
      rw [nodesAll_cons, Node.preorderAll_append, List.mem_append] at hn
      rw [tokensAll_cons, charsOf_append]
      rcases hn with hn | hn
      · obtain ⟨⟨p, q, hpq, hstart⟩, hstop⟩ := h s (by simp) offset n hn
        refine ⟨⟨p, q ++ charsOf (tokensAll ss), by simp [hpq], hstart⟩, ?_⟩
        rw [byteLength_append]
        omega
      · obtain ⟨⟨p, q, hpq, hstart⟩, hstop⟩ := ih (fun u hu => h u (by simp [hu])) _ n hn
        refine ⟨⟨charsOf s.tokens ++ p, q, by simp [hpq], ?_⟩, ?_⟩
        · rw [hstart, byteLength_append]
          omega
        · rw [byteLength_append]
          omega

theorem leadOf_prefix (ts : List Token) :
    ∃ p q, charsOf ts = p ++ q ∧ leadOf ts = byteLength p := by
  cases ts with
  | nil => exact ⟨[], [], rfl, rfl⟩
  | cons t ts => exact ⟨t.gap, t.text ++ charsOf ts, by simp, rfl⟩

theorem within_of_mem (s : Shape) : ∀ offset, ∀ n ∈ Node.preorderAll (s.nodes offset),
    Within offset (charsOf s.tokens) n := by
  induction s using induction_parts with
  | htoken kind t =>
      intro offset n hn
      cases kind with
      | none => simp [nodes] at hn
      | some kind =>
          obtain rfl : n = .leaf kind (offset + byteLength t.gap) t.text := by
            simpa [nodes] using hn
          exact ⟨⟨t.gap, t.text, by simp, rfl⟩, by simp [Node.stop, Node.span, Nat.add_assoc]⟩
  | hrun t =>
      intro offset n hn
      obtain rfl : n = .run (offset + byteLength t.gap) t.text := by simpa [nodes] using hn
      exact ⟨⟨t.gap, t.text, by simp, rfl⟩, by simp [Node.stop, Node.span, Nat.add_assoc]⟩
  | hnode kind parts ih =>
      intro offset n hn
      rw [nodes_node, Node.preorderAll_cons, Node.preorder_branch, Node.preorderAll_nil,
        List.append_nil, List.mem_cons] at hn
      rw [tokens_node]
      rcases hn with rfl | hn
      · obtain ⟨p, q, hpq, hlead⟩ := leadOf_prefix (tokensAll parts)
        exact ⟨⟨p, q, hpq, by simp [Node.start, Node.span, hlead]⟩, Nat.le_refl _⟩
      · exact within_of_mem_all ih offset n hn

/-- Every node of shapes stands among their characters. -/
theorem within_of_mem_nodesAll (ss : List Shape) (offset : Nat) :
    ∀ n ∈ Node.preorderAll (nodesAll offset ss), Within offset (charsOf (tokensAll ss)) n :=
  within_of_mem_all (fun s _ => within_of_mem s) offset

end Shape

end Phrasebook.Source

import Mathlib.Data.List.TakeWhile
import Phrasebook.Proofs.Nesting
import Phrasebook.Proofs.Reading

/-!
Reading part by part. A row of parts reads as a goal exactly if its outline does and each part
reads on its own; an element is cut at its tags. Where a tree reads, everything that is opened in
it is closed.
-/

namespace Phrasebook.Source

open Source.Tree

namespace Part

/-! ### Rows -/

/-- All parts of a row read, and these are their shapes. -/
theorem shapes_eq_ok {parts : List Part} {table : List (List Shape)} :
    shapes parts = .ok table ↔ parts.map Prod.snd = table.map .ok := by
  induction parts generalizing table with
  | nil => cases table <;> simp [shapes]
  | cons p parts ih =>
      obtain ⟨tree, result⟩ := p
      cases result with
      | error f => cases table <;> simp [shapes]
      | ok first =>
          cases table with
          | nil =>
              simp only [shapes, List.map_cons, List.map_nil]
              constructor
              · intro h
                split at h <;> cases h
              · intro h
                cases h
          | cons entry table =>
              rw [List.map_cons, List.map_cons, List.cons.injEq, ← ih, shapes]
              constructor
              · intro h
                split at h
                · next others hothers =>
                  obtain ⟨rfl, rfl⟩ := List.cons.inj (Except.ok.inj h)
                  exact ⟨rfl, hothers⟩
                · cases h
              · rintro ⟨h, hothers⟩
                rw [hothers, Except.ok.inj h]

theorem reads_of_shapes {parts : List Part} {table : List (List Shape)}
    (h : shapes parts = .ok table) : ∀ p ∈ parts, ∃ found, p.2 = .ok found := by
  intro p hp
  have hmem : p.2 ∈ table.map Except.ok := by
    rw [← shapes_eq_ok.1 h]
    exact List.mem_map_of_mem hp
  obtain ⟨found, -, hfound⟩ := List.mem_map.1 hmem
  exact ⟨found, hfound.symm⟩

theorem shapes_append_ok {a b : List Part} {table : List (List Shape)}
    (h : shapes (a ++ b) = .ok table) :
    ∃ ta tb, shapes a = .ok ta ∧ shapes b = .ok tb ∧ table = ta ++ tb := by
  rw [shapes_eq_ok, List.map_append] at h
  obtain ⟨ta, tb, rfl, ha, hb⟩ := List.map_eq_append_iff.1 h.symm
  exact ⟨ta, tb, shapes_eq_ok.2 ha.symm, shapes_eq_ok.2 hb.symm, rfl⟩

theorem shapes_append {a b : List Part} {ta tb : List (List Shape)} (ha : shapes a = .ok ta)
    (hb : shapes b = .ok tb) : shapes (a ++ b) = .ok (ta ++ tb) := by
  rw [shapes_eq_ok] at ha hb ⊢
  simp [ha, hb]

theorem readAs_eq_ok {dialect : Dialect} {goal : Goal} {parts : List Part} {result : List Shape} :
    readAs dialect goal parts = .ok result ↔
      ∃ shown table, readAll dialect goal (outline 0 (parts.map Prod.fst)) = .ok shown ∧
        shapes parts = .ok table ∧ result = Shape.fillAll table shown := by
  unfold readAs
  simp only []
  constructor
  · intro h
    split at h
    · next shown table hshown htable =>
      exact ⟨shown, table, hshown, htable, (Except.ok.inj h).symm⟩
    all_goals cases h
  · rintro ⟨shown, table, hshown, htable, rfl⟩
    rw [hshown, htable]

/-! ### Elements -/

structure Cut where
  opening : List Part
  tagEnd : Part
  content : List Part
  closing : List Part

namespace Cut

def row (c : Cut) : List Part := c.opening ++ c.tagEnd :: (c.content ++ c.closing)

structure Valid (c : Cut) : Prop where
  opening : ∀ p ∈ c.opening, endsTag p = false
  tagEnd : endsTag c.tagEnd = true
  content : ∀ p ∈ c.content, isContent p = true
  closing : ∀ p ∈ c.closing.head?, isContent p = false

/-- Every row with the end of an opening tag can be cut in this way. -/
theorem exists_valid {row : List Part} {p : Part} (hp : p ∈ row) (ht : endsTag p = true) :
    ∃ c : Cut, c.Valid ∧ c.row = row := by
  obtain ⟨tagEnd, hfind⟩ := List.find?_isSome.2 ⟨p, hp, ht⟩ |> Option.isSome_iff_exists.1
  obtain ⟨htag, opening, following, rfl, hopening⟩ := List.find?_eq_some_iff_append.1 hfind
  refine ⟨⟨opening, tagEnd, following.takeWhile isContent, following.dropWhile isContent⟩,
    ⟨by simpa using hopening, htag, fun q hq => List.mem_takeWhile_imp hq, ?_⟩, by simp [row]⟩
  intro q hq
  have hnot := List.head?_dropWhile_not isContent following
  rw [hq] at hnot
  exact hnot

theorem takeWhile_closing {c : Cut} (h : c.Valid) : c.closing.takeWhile isContent = [] := by
  cases hc : c.closing with
  | nil => rfl
  | cons p rest => simp [h.closing p (by simp [hc])]

theorem dropWhile_closing {c : Cut} (h : c.Valid) :
    c.closing.dropWhile isContent = c.closing := by
  cases hc : c.closing with
  | nil => rfl
  | cons p rest => simp [h.closing p (by simp [hc])]

end Cut

variable {dialect : Dialect} {result : List Shape}

theorem readContent_cut {c : Cut} (h : c.Valid) :
    readContent dialect (c.content ++ c.closing) = .ok result ↔
      ∃ inner closing, shapes c.content = .ok inner ∧
        readAs dialect .closingTag c.closing = .ok closing ∧ result = inner.flatten ++ closing := by
  unfold readContent
  simp only [List.takeWhile_append_of_pos h.content, List.dropWhile_append_of_pos h.content,
    Cut.takeWhile_closing h, Cut.dropWhile_closing h, List.append_nil]
  constructor
  · intro hr
    split at hr
    · next inner closing hi hcl =>
      exact ⟨inner, closing, hi, hcl, (Except.ok.inj hr).symm⟩
    all_goals cases hr
  · rintro ⟨inner, closing, hi, hcl, rfl⟩
    rw [hi, hcl]

theorem readElement_cut {c : Cut} (h : c.Valid) :
    readElement dialect c.row = .ok result ↔
      ∃ tag content, readAs dialect .openingTag (c.opening ++ [c.tagEnd]) = .ok tag ∧
        readContent dialect (c.content ++ c.closing) = .ok content ∧
        result = [.node .element (tag ++ content)] := by
  have hopening : ∀ p ∈ c.opening, (!endsTag p) = true := fun p hp => by simp [h.opening p hp]
  unfold readElement Cut.row
  simp only [List.takeWhile_append_of_pos hopening, List.dropWhile_append_of_pos hopening,
    List.takeWhile_cons, List.dropWhile_cons, h.tagEnd, Bool.not_true, Bool.false_eq_true,
    if_false, List.append_nil]
  constructor
  · intro hr
    split at hr
    · cases hr
    · next tag htag =>
      split at hr
      · next content hcontent => exact ⟨tag, content, htag, hcontent, (Except.ok.inj hr).symm⟩
      · cases hr
  · rintro ⟨tag, content, htag, hcontent, rfl⟩
    rw [htag]
    simp [hcontent]

theorem readElement_simple {row : List Part} (h : ∀ p ∈ row, endsTag p = false) :
    readElement dialect row = .ok result ↔
      ∃ tag, readAs dialect .openingTag row = .ok tag ∧ result = [.node .element tag] := by
  have hrow : ∀ p ∈ row, (!endsTag p) = true := fun p hp => by simp [h p hp]
  unfold readElement
  simp only [List.takeWhile_eq_self_iff.2 hrow, List.dropWhile_eq_nil_iff.2 hrow]
  cases readAs dialect .openingTag row with
  | error f => simp [Except.map]
  | ok tag => simp [Except.map, eq_comm]

end Part

/-! ### What reads is whole -/

namespace Tree

theorem readEach_eq_map (dialect : Dialect) (trees : List Tree) :
    readEach dialect trees = trees.map fun t => (t, t.read dialect) := by
  induction trees with
  | nil => simp [readEach]
  | cons t trees ih => simp [readEach, ih]

theorem readEach_append (dialect : Dialect) (a b : List Tree) :
    readEach dialect (a ++ b) = readEach dialect a ++ readEach dialect b := by
  simp [readEach_eq_map]

theorem readEach_fst (trees : List Tree) : (readEach dialect trees).map Prod.fst = trees := by
  simp [readEach_eq_map, Function.comp_def]

theorem outline_append (index : Nat) (a b : List Tree) :
    outline index (a ++ b) = outline index a ++ outline (index + a.length) b := by
  induction a generalizing index with
  | nil => simp [outline]
  | cons t a ih =>
      simp only [List.cons_append, outline, ih, List.length_cons]
      congr 3
      omega

theorem mem_outline {t : Token} {index : Nat} {trees : List Tree} (h : t ∈ outline index trees) :
    ∃ tree ∈ trees, ∃ i, t = tree.shown i := by
  induction trees generalizing index with
  | nil => simp [outline] at h
  | cons tree trees ih =>
      rcases List.mem_cons.1 h with rfl | h
      · exact ⟨tree, by simp, index, rfl⟩
      · obtain ⟨other, hother, i, hi⟩ := ih h
        exact ⟨other, by simp [hother], i, hi⟩

theorem role?_nested (opening : Token) (parts : List Tree) (ending : Option Token) :
    ∃ role, (nested opening parts ending).role? = some role := by
  unfold role?
  simp only []
  split
  · exact ⟨_, rfl⟩
  · exact ⟨_, rfl⟩
  · exact ⟨_, rfl⟩
  · exact ⟨_, rfl⟩

theorem eq_token_of_role? {t : Tree} (h : t.role? = none) : t = token t.first := by
  cases t with
  | token t => rfl
  | nested opening parts ending =>
      obtain ⟨role, hrole⟩ := role?_nested opening parts ending
      rw [hrole] at h
      cases h

/-- A token in an outline that stands for no part is one of the trees. -/
theorem eq_token_of_shown {t : Tree} {i : Nat} (h : ∀ role, (t.shown i).kind ≠ .nested role i) :
    t = token (t.shown i) := by
  cases hr : t.role? with
  | none =>
      rw [shown, hr]
      exact eq_token_of_role? hr
  | some role => exact absurd (by simp [shown, hr]) (h role)

theorem token_mem_of_outline {t : Token} {index : Nat} {trees : List Tree}
    (h : t ∈ outline index trees) (ht : ∀ role i, t.kind ≠ .nested role i) : token t ∈ trees := by
  obtain ⟨tree, htree, i, rfl⟩ := mem_outline h
  rw [← eq_token_of_shown fun role => ht role i]
  exact htree

/-- A token that closes something, in a row, closes the tree of the row. -/
theorem ending_isSome {top : Bool} {opening : Token} {parts : List Tree} {ending : Option Token}
    (h : Formed false top (nested opening parts ending)) {t : Token}
    (ht : token t ∈ token opening :: parts ++ ending.toList.map token)
    (hcloses : t.kind.closes = true) : ending.isSome = true := by
  cases h with
  | nested proper opens closes isWhole inner =>
      rw [List.cons_append, List.mem_cons, List.mem_append] at ht
      rcases ht with heq | hpart | hend
      · injection heq with heq
        rw [← heq, TokenKind.opens_eq_false hcloses] at opens
        cases opens
      · rw [(inner _ hpart).closes_eq_false] at hcloses
        cases hcloses
      · cases ending with
        | none => simp at hend
        | some e => rfl

theorem row_fst (dialect : Dialect) (opening : Token) (parts : List Tree) (ending : Option Token) :
    (row opening (readEach dialect parts) ending).map Prod.fst =
      token opening :: parts ++ ending.toList.map token := by
  simp [row, readEach_eq_map, tokenPart, Function.comp_def]

/-- An induction over trees by their parts. -/
@[elab_as_elim]
theorem induction_parts {P : Tree → Prop} (hnested : ∀ opening parts ending,
    (∀ p ∈ parts, P p) → P (nested opening parts ending)) (htoken : ∀ t, P (token t)) (t : Tree) :
    P t :=
  match t with
  | token t => htoken t
  | nested opening parts ending =>
      hnested opening parts ending fun p _ => induction_parts hnested htoken p

variable {dialect : Dialect} {result : List Shape}

/-- In a row that reads as a goal there is what the rule of the goal needs. -/
theorem token_mem_of_readAs {goal : Goal} {parts : List Part} {p : TokenKind → Prop}
    (hgoal : ∀ ts shapes, readAll dialect goal ts = .ok shapes → ∃ t ∈ ts, p t.kind)
    (hp : ∀ k, p k → ∀ role i, k ≠ .nested role i)
    (h : Part.readAs dialect goal parts = .ok result) :
    ∃ t, p t.kind ∧ token t ∈ parts.map Prod.fst := by
  obtain ⟨shown, table, hshown, -, -⟩ := Part.readAs_eq_ok.1 h
  obtain ⟨t, ht, hk⟩ := hgoal _ _ hshown
  exact ⟨t, hk, token_mem_of_outline ht (hp _ hk)⟩

theorem reads_of_readAs {goal : Goal} {parts : List Part}
    (h : Part.readAs dialect goal parts = .ok result) :
    ∀ p ∈ parts, ∃ shapes, p.2 = .ok shapes := by
  obtain ⟨shown, table, -, htable, -⟩ := Part.readAs_eq_ok.1 h
  exact Part.reads_of_shapes htable

/-- The parts of an element that reads: each reads, and one is a token that closes. -/
theorem reads_of_readElement {parts : List Part}
    (h : Part.readElement dialect parts = .ok result) :
    (∀ p ∈ parts, ∃ shapes, p.2 = .ok shapes) ∧
      ∃ t, t.kind.closes = true ∧ token t ∈ parts.map Prod.fst := by
  by_cases hend : ∃ p ∈ parts, Part.endsTag p = true
  · obtain ⟨p, hp, ht⟩ := hend
    obtain ⟨c, hc, rfl⟩ := Part.Cut.exists_valid hp ht
    obtain ⟨tag, content, htag, hcontent, -⟩ := (Part.readElement_cut hc).1 h
    obtain ⟨inner, closing, hinner, hclosing, -⟩ := (Part.readContent_cut hc).1 hcontent
    obtain ⟨t, hk, hmem⟩ := token_mem_of_readAs (p := fun k => k = .elementEnd)
      (fun ts shapes => elementEnd_of_closingTag) (by simp) hclosing
    refine ⟨fun q hq => ?_, t, by simp [hk, TokenKind.closes], ?_⟩
    · simp only [Part.Cut.row, List.mem_append, List.mem_cons] at hq
      rcases hq with hq | rfl | hq | hq
      · exact reads_of_readAs htag q (by simp [hq])
      · exact reads_of_readAs htag c.tagEnd (by simp)
      · exact Part.reads_of_shapes hinner q hq
      · exact reads_of_readAs hclosing q hq
    · simp only [Part.Cut.row, List.map_append, List.map_cons, List.mem_append, List.mem_cons]
      exact Or.inr (Or.inr (Or.inr hmem))
  · have hall : ∀ p ∈ parts, Part.endsTag p = false := by simpa using hend
    obtain ⟨tag, htag, -⟩ := (Part.readElement_simple hall).1 h
    obtain ⟨t, hk, hmem⟩ := token_mem_of_readAs (p := fun k => k = .elementEnd ∨ k = .tagEnd)
      (fun ts shapes => tagEnd_of_openingTag) (by rintro k (rfl | rfl) <;> simp) htag
    refine ⟨reads_of_readAs htag, t, ?_, hmem⟩
    rcases hk with hk | hk
    · simp [hk, TokenKind.closes]
    · obtain ⟨q, hq, hqt⟩ := List.mem_map.1 hmem
      have hfalse := hall q hq
      simp [Part.endsTag, hqt, isToken, hk] at hfalse

theorem read_token (t : Token) : (token t).read dialect = .ok (tokenShapes t) := by simp [read]

theorem read_nested (opening : Token) (parts : List Tree) (ending : Option Token) :
    (nested opening parts ending).read dialect =
      readNested dialect opening (readEach dialect parts) ending := by
  simp [read]

theorem reads_of_nested {opening : Token} {parts : List Tree} {ending : Option Token}
    (h : (nested opening parts ending).read dialect = .ok result) :
    (∀ p ∈ parts, ∃ shapes, p.read dialect = .ok shapes) ∧
      ∃ t, t.kind.closes = true ∧ token t ∈ token opening :: parts ++ ending.toList.map token := by
  have hrow : (∀ p ∈ row opening (readEach dialect parts) ending, ∃ shapes, p.2 = .ok shapes) ∧
      ∃ t, t.kind.closes = true ∧
        token t ∈ (row opening (readEach dialect parts) ending).map Prod.fst := by
    rw [read_nested, readNested] at h
    split at h
    · obtain ⟨t, hk, hmem⟩ := token_mem_of_readAs (p := fun k => k = .holeEnd)
        (fun ts shapes => holeEnd_of_readAll) (by simp) h
      exact ⟨reads_of_readAs h, t, by simp [hk, TokenKind.closes], hmem⟩
    · exact reads_of_readElement h
  rw [row_fst] at hrow
  refine ⟨fun p hp => hrow.1 (p, p.read dialect) ?_, hrow.2⟩
  simp [row, readEach_eq_map, hp]

/-- A tree that reads is whole. -/
theorem formed_of_read {top : Bool} {t : Tree} (h : Formed false top t)
    (hread : t.read dialect = .ok result) : Formed true top t := by
  induction t using induction_parts generalizing top result with
  | htoken t =>
      cases h with
      | token proper opens closes => exact .token proper opens closes
  | hnested opening parts ending ih =>
      obtain ⟨hparts, t, hcloses, hmem⟩ := reads_of_nested hread
      have hsome := ending_isSome h hmem hcloses
      cases h with
      | nested proper opens closes isWhole inner =>
          refine .nested proper opens closes (fun _ => hsome) fun p hp => ?_
          obtain ⟨shapes, hs⟩ := hparts p hp
          exact ih p hp (inner p hp) hs

/-- If all trees of a row of tokens read, nothing is left open in them. -/
theorem ofTokens_of_reads {body : List Token} (h : ∀ t ∈ body, t.isProper = true) {last : Token}
    (hopens : last.kind.opens = false) (hcloses : last.kind.closes = false)
    (hread : ∀ t ∈ ofTokens (body ++ [last]), ∃ shapes, t.read dialect = .ok shapes) :
    ∃ trees, ofTokens (body ++ [last]) = trees ++ [token last] ∧ tokensAll trees = body ∧
      ∀ t ∈ trees, Formed true true t := by
  rcases ofTokens_cases h hopens hcloses with ⟨trees, htrees, hbody, hformed⟩ | hopen
  · refine ⟨trees, htrees, hbody, fun t ht => ?_⟩
    obtain ⟨shapes, hs⟩ := hread t (by simp [htrees, ht])
    exact formed_of_read (hformed t ht) hs
  · obtain ⟨opening, inner, hmem, hop, hinner⟩ := hopen
    obtain ⟨shapes, hs⟩ := hread _ hmem
    obtain ⟨-, t, hk, ht⟩ := reads_of_nested hs
    rw [Option.toList_none, List.map_nil, List.append_nil, List.mem_cons] at ht
    rcases ht with ht | ht
    · injection ht with ht
      rw [← ht, TokenKind.opens_eq_false hk] at hop
      cases hop
    · rw [hinner t ht] at hk
      cases hk

end Tree

end Phrasebook.Source

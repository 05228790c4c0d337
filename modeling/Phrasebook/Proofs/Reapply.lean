import Mathlib.Data.List.Infix
import Phrasebook.Proofs.FileStore
import Phrasebook.Proofs.Line
import Phrasebook.Proofs.Rescan

/-!
Making a patch again. A target says where its literal is by line, column and text. Once the call has
taken the place of the literal, no literal with that text begins there: a call in braces or brackets
begins with neither a quote nor a text, and a plain call is code, since the lexer reads it in the
state in which it read the quote. So the target is found no more, unless the import that came with
the call has moved the lines, and another literal with the same text has come to the place.
-/

namespace Phrasebook

open Text Source

namespace Source

open Control Shape Node Source.Tree

variable {dialect : Dialect} {text : List Char} {nodes : List Node}

/-! ### Where literals begin -/

/-- Where a text ends, the lexer is in the text of an element. -/
def EndsInText (markup : Bool) (before : List Char) : Prop :=
  ∃ ts frames done, Control.start.run markup before = (ts, inText frames done)

/-- A run begins in the text of an element, and has all of it but white space at its end. -/
theorem run_begins (h : parse dialect text = .ok nodes) {start : Nat} {raw : List Char}
    (hn : .run start raw ∈ preorderAll nodes) :
    ∃ before right after, text = before ++ (raw ++ (right ++ after)) ∧ start = byteLength before ∧
      EndsInText (dialect == .markup) before ∧ (∀ c ∈ raw, endsText c = false) ∧
      (∀ c ∈ right, isSpace c = true) ∧ TextEnds after := by
  obtain ⟨front, back, hsplit⟩ := List.append_of_mem hn
  obtain ⟨site, hloc, -⟩ := parse_exchange h (c := ⟨front, .run start raw, back⟩) hsplit trivial
  obtain ⟨P, left, right, Q, frames, rfl, hstart, -, hP, hQ, -, -, hright, hinside⟩ :=
    text_of_located rfl hloc
  refine ⟨P ++ left, right, Q, by simp, hstart, ?_, fun c hc => hinside c (by simp [hc]), hright,
    hQ⟩
  have hrun := run_inText (dialect == .markup) frames [] left fun c hc => hinside c (by simp [hc])
  refine ⟨site.left ++ [], frames, left.reverse ++ [], ?_⟩
  rw [run_append, hP, Emission.andThen, hrun]

/-- In the text of an element a character that does not end it goes into a token of text. -/
theorem exists_textToken {markup : Bool} {before : List Char} {c : Char} {X : List Token}
    {frames : List Frame} {done : List Char}
    (hrun : Control.start.run markup before = (X, inText frames done)) (hc : endsText c = false)
    (rest : List Char) :
    charsOf X ++ done.reverse = before ∧
      ∃ w Y, w ≠ [] ∧ tokens markup (before ++ c :: rest) =
        X ++ ⟨.text, [], done.reverse ++ w⟩ :: Y := by
  have hchars := run_chars markup Control.start before
  rw [hrun] at hchars
  refine ⟨hchars, ?_⟩
  have hspan := List.takeWhile_append_dropWhile (p := fun d => !endsText d) (l := c :: rest)
  generalize hw : (c :: rest).takeWhile (fun d => !endsText d) = w at hspan
  generalize hQ : (c :: rest).dropWhile (fun d => !endsText d) = Q at hspan
  have hne : w ≠ [] := by
    rw [← hw, List.takeWhile_cons_of_pos (by simp [hc])]
    simp
  have hinside : ∀ d ∈ w, endsText d = false := by
    intro d hd
    rw [← hw] at hd
    simpa using List.mem_takeWhile_imp hd
  have hends : TextEnds Q := by
    intro d hd
    have hnot := List.head?_dropWhile_not (fun d => !endsText d) (c :: rest)
    rw [hQ, show Q.head? = some d from hd] at hnot
    simpa using hnot
  refine ⟨w, (inText frames []).tokensFrom markup Q, hne, ?_⟩
  have hall : tokens markup (before ++ c :: rest) =
      Control.start.tokensFrom markup (before ++ c :: rest) := rfl
  rw [hall, ← hspan, tokensFrom_append, hrun, tokensFrom_append,
    run_inText markup frames done w hinside, tokensFrom_inText markup frames _ Q hends, textToken]
  simp [hne]

/-- A token of code does not begin in the text of an element. -/
theorem not_endsInText {markup : Bool} {A B : List Token} {u : Token}
    (htokens : tokens markup text = A ++ u :: B) (hkind : u.kind ≠ .text) {c : Char}
    {rest : List Char} (hu : u.text = c :: rest) (hc : endsText c = false) :
    ¬EndsInText markup (charsOf A ++ u.gap) := by
  rintro ⟨X, frames, done, hrun⟩
  have htext : text = (charsOf A ++ u.gap) ++ c :: (rest ++ charsOf B) := by
    rw [← tokens_chars markup text, htokens]
    simp [hu]
  obtain ⟨hchars, w, Y, hw, hlexed⟩ := exists_textToken hrun hc (rest ++ charsOf B)
  rw [← htext, htokens] at hlexed
  have hlength := congrArg List.length hchars
  have hpos := List.length_pos_of_ne_nil hw
  -- the token of text would have to be the token of code
  rcases append_eq_append_cons hlexed.symm with ⟨Z, rfl, hZ⟩ | ⟨Z, rfl, -⟩
  · cases Z with
    | nil => exact hkind (congrArg Token.kind (List.cons.inj hZ).1).symm
    | cons v Z =>
        obtain ⟨rfl, -⟩ := List.cons.inj hZ
        simp only [charsOf_append, charsOf_cons, List.length_append] at hlength
        omega
  · simp [hu] at hlength

theorem endsText_of_isQuote {c : Char} (h : isQuote c = true) : endsText c = false := by
  rcases (by simpa [isQuote] using h : c = '"' ∨ c = '\'') with rfl | rfl <;> decide

theorem exists_of_isQuoted {own : List Char} (h : IsQuoted own) :
    ∃ c rest, own = c :: rest ∧ isQuote c = true := by
  obtain ⟨c, hquote, hhead, -⟩ := h
  obtain ⟨rest, rfl⟩ := List.head?_eq_some_iff.1 hhead
  exact ⟨c, rest, rfl, hquote⟩

/-- A literal that is no run begins with a quote, a template with a back quote, and the keyword with
its first letter. -/
def Node.Opens : Node → Char → Prop
  | .leaf (.string _) _ _, c => isQuote c = true
  | .leaf .stringKeyword _ _, c => c = 's'
  | .branch .template _ _, c => c = '\x60'
  | _, _ => False

theorem Node.Opens.quote_or_keyword {n : Node} {c : Char} (h : n.Opens c) :
    (isQuote c = true ∨ c = '\x60') ∨ ∃ start raw, n = .leaf .stringKeyword start raw := by
  unfold Node.Opens at h
  split at h
  · exact Or.inl (Or.inl h)
  · exact Or.inr ⟨_, _, rfl⟩
  · exact Or.inl (Or.inr h)
  · exact h.elim

/-- The first token of a literal that is no run. -/
theorem Shape.Sound.first_of_literal {s : Shape} (hs : s.Sound) {offset : Nat} {n : Node}
    (h : s.nodes offset = [n]) (hliteral : n.isLiteral = true)
    (hrun : ∀ start raw, n ≠ .run start raw) :
    ∃ u later c rest, s.tokens = u :: later ∧ u.kind ≠ .text ∧ u.text = c :: rest ∧
      endsText c = false ∧ n.Opens c := by
  cases hs with
  | @token kind t admitted solid =>
      cases kind with
      | none => simp [nodes] at h
      | some kind =>
          obtain rfl : n = .leaf kind (offset + byteLength t.gap) t.text := by
            simpa [nodes] using h.symm
          have hadmits := admitted kind rfl
          have hgrounded := grounded_leaf hadmits solid.looks (offset + byteLength t.gap)
          cases kind with
          | string place =>
              obtain ⟨c, rest, htext, hquote⟩ := exists_of_isQuoted hgrounded
              refine ⟨t, [], c, rest, tokens_token _ t, fun hk => ?_, htext,
                endsText_of_isQuote hquote, hquote⟩
              cases place <;> simp [Leaf.admits, hk] at hadmits
          | stringKeyword =>
              have htext : t.text = "string".toList := hgrounded
              refine ⟨t, [], 's', "tring".toList, tokens_token _ t, fun hk => ?_, htext, by decide,
                rfl⟩
              simp [Leaf.admits, Token.isWord, hk] at hadmits
          | _ => cases hliteral
  | @run t textual visible =>
      obtain rfl : n = .run (offset + byteLength t.gap) t.text := by simpa [nodes] using h.symm
      exact absurd rfl (hrun _ _)
  | @node kind parts made firm built inner =>
      have hlooks := (Sound.node made firm built inner).looks
      rw [tokens_node] at hlooks
      rw [nodes_node] at h
      obtain rfl := List.singleton_inj.1 h
      cases kind with
      | template =>
          obtain ⟨t, rest, ht, hk, hc⟩ := made.1
          obtain ⟨c, htext, -⟩ : ∃ c, t.text = [c] ∧ Lexeme.isBlank c = false := by
            have hlook := hlooks t (by simp [ht])
            simpa [Token.Looks, hk] using hlook
          obtain rfl : c = '\x60' := hc c (by simp [htext])
          exact ⟨t, rest, _, [], by rw [tokens_node, ht], by simp [hk], htext, by decide,
            rfl⟩
      | _ => cases hliteral

/-- A literal that is no run does not begin in the text of an element. -/
theorem quoted_begins (h : parse dialect text = .ok nodes) {n : Node} (hn : n ∈ preorderAll nodes)
    (hliteral : n.isLiteral = true) (hrun : ∀ start raw, n ≠ .run start raw) :
    ∃ before c after, text = before ++ c :: after ∧ n.start = byteLength before ∧
      ¬EndsInText (dialect == .markup) before ∧ n.Opens c := by
  obtain ⟨shapes, body, gap, rfl, hsound, -, htokens, hrecut⟩ := recut_of_parse h
  obtain ⟨s, front, back, hs, htokensAll, hnodes⟩ :=
    origin_nodesAll (fun s hs => (hsound s hs).1) 0 n hn
  obtain ⟨hstart, -⟩ := span_of_nodes hnodes
  -- the first token of the literal
  obtain ⟨u, later, c, rest, hu, hkind, htext, hends, hc⟩ : ∃ u later c rest,
      s.tokens = u :: later ∧ u.kind ≠ .text ∧ u.text = c :: rest ∧ endsText c = false ∧
      n.Opens c :=
    hs.first_of_literal hnodes hliteral hrun
  rw [htokensAll, hu, List.append_assoc, List.cons_append] at hrecut
  obtain ⟨A, B, rfl, hA⟩ := hrecut.exists_token hkind
  rw [List.append_assoc, List.cons_append] at htokens
  refine ⟨charsOf A ++ u.gap, c, rest ++ charsOf (B ++ [⟨.stop, gap, []⟩]), ?_, ?_,
    not_endsInText htokens hkind htext hends, hc⟩
  · rw [← tokens_chars (dialect == .markup) text, htokens]
    simp [htext]
  · rw [hstart, hu, hA, byteLength_append]
    simp [leadOf]

/-! ### The same place -/

theorem eq_of_byteLength_eq {a b a' b' : List Char} (h : a ++ b = a' ++ b')
    (hlength : byteLength a = byteLength a') : a = a' ∧ b = b' := by
  obtain ⟨x, rfl, rfl⟩ := Edit.eq_append_of_byteLength_le h (Nat.le_of_eq hlength)
  cases x with
  | nil => simp
  | cons c x =>
      have hc := c.utf8Size_pos
      rw [byteLength_append, byteLength_cons] at hlength
      omega

/-- Two places of a text with one position are the same place. -/
theorem Position.eq_of_ofOffset {a b a' b' : List Char} (h : a ++ b = a' ++ b')
    (hposition : ofOffset (a ++ b) (byteLength a) = ofOffset (a' ++ b') (byteLength a')) :
    a = a' ∧ b = b' := by
  refine eq_of_byteLength_eq h ?_
  rw [h] at hposition
  rcases Nat.lt_trichotomy (byteLength a) (byteLength a') with hlt | heq | hlt
  · exact absurd hposition (before_ofOffset h.symm rfl hlt).ne
  · exact heq
  · exact absurd hposition.symm (before_ofOffset rfl h.symm hlt).ne

theorem quoted_outside (h : parse dialect text = .ok nodes) {n : Node} (hn : n ∈ preorderAll nodes)
    (hliteral : n.isLiteral = true) {before after : List Char} (htext : text = before ++ after)
    (hstart : n.start = byteLength before) (hrun : ∀ start raw, n ≠ .run start raw) :
    ¬EndsInText (dialect == .markup) before := by
  obtain ⟨front, c, rest, hfront, hstart', hout, -⟩ := quoted_begins h hn hliteral hrun
  obtain ⟨rfl, -⟩ := eq_of_byteLength_eq (htext.symm.trans hfront) (hstart.symm.trans hstart')
  exact hout

/-! ### After the edit of a literal -/

namespace Document

variable {d : Document}

theorem position_of_fits {target : List Char} {line column : Int} {l l' : Literal}
    (h : fits target line column l = true) (h' : fits target line column l' = true) :
    l'.position = l.position := by
  simp only [fits, Bool.and_eq_true, decide_eq_true_eq] at h h'
  have hline : l'.position.line = l.position.line := Int.ofNat.inj (h'.1.1.trans h.1.1.symm)
  have hcolumn : l'.position.column = l.position.column :=
    Int.ofNat.inj (h'.1.2.trans h.1.2.symm)
  exact congrArg₂ Position.mk hline hcolumn

theorem line_of_fits {target : List Char} {line column : Int} {l : Literal}
    (h : fits target line column l = true) : (l.position.line : Int) = line := by
  simp only [fits, Bool.and_eq_true, decide_eq_true_eq] at h
  exact h.1.1

theorem value_of_fits {target : List Char} {line column : Int} {l : Literal}
    (h : fits target line column l = true) :
    Points.strip l.value = Points.ofChars (strip target) := by
  simp only [fits, Bool.and_eq_true] at h
  exact beq_iff_eq.1 h.2

/-- What stands where a literal began once a call is in its place: a brace, maybe after white space,
a bracket and the call, or the call itself. -/
inductive Taken (n : Node) (call : List Char) : List Char → Prop
  | braced (margin : List Char) (blank : ∀ c ∈ margin, isSpace c = true) (rest : List Char) :
      Taken n call (margin ++ '\x7b' :: rest)
  | bracketed (quoted : ∀ start raw, n ≠ .run start raw) (rest : List Char) :
      Taken n call ('[' :: (call ++ rest))
  | plain (quoted : ∀ start raw, n ≠ .run start raw) (rest : List Char) :
      Taken n call (call ++ rest)

/-- The replacement of a literal, after the white space before its content. -/
theorem taken_ofLiteral {n : Node} {l : Literal} (hl : d.literalAt n = some (.ok l))
    {left : List Char} (hblank : ∀ c ∈ left, isSpace c = true) (hleft : l.kind ≠ .text → left = [])
    (call rest : List Char) :
    Taken n call (left ++ (Edit.ofLiteral l call).replacement ++ rest) := by
  rcases (literalAt_cases hl).2 l rfl with
    ⟨start, raw, rfl, rfl⟩ | ⟨kind, inAttribute, isKey, value, hkind, rfl⟩
  · rw [List.append_assoc]
    exact .braced left hblank (call ++ ['\x7d'] ++ rest)
  · obtain rfl := hleft hkind
    have hquoted : ∀ start raw, n ≠ .run start raw := by
      rintro start raw rfl
      have hrun : d.runLiteral start raw = _ := Except.ok.inj (Option.some.inj hl)
      exact hkind (congrArg Literal.kind hrun).symm
    have hedit : Edit.ofLiteral (d.quotedLiteral kind n.span inAttribute isKey value) call = _ :=
      if_neg hkind
    rw [hedit]
    cases inAttribute with
    | true => exact .braced [] (by simp) (call ++ ['\x7d'] ++ rest)
    | false =>
        cases isKey with
        | true =>
            have hbracketed : Taken n call ('[' :: (call ++ ']' :: rest)) := .bracketed hquoted _
            simpa [quotedLiteral] using hbracketed
        | false => exact .plain hquoted rest

/-- A patch puts the call in the place of the literal. An edit of the imports that leaves the line
of the literal may change the text before it, but not the position of that place. -/
theorem Laid.taken_of_apply (hd : d.Laid) {n : Node} (hn : n ∈ d.all) {l : Literal}
    (hl : d.literalAt n = some (.ok l)) {found : Option Edit}
    (hfound : ∀ e ∈ found, d.Admits e ∧ e.LeavesLine d l.position.line) {call result : List Char}
    (happly : Edit.apply d.text (Edit.ofLiteral l call :: found.toList) = .ok result) :
    ∃ before old front new, d.text = before ++ old ∧ n.start = byteLength before ∧
      result = front ++ new ∧ Taken n call new ∧
      front.foldl Position.next ⟨1, 0⟩ = before.foldl Position.next ⟨1, 0⟩ ∧
      (found = none → front = before) := by
  obtain ⟨before, left, own, right, after, htext, hstart, hstop, hcontent, hestart, hestop, hblank,
    hleft⟩ := hd.cut_ofLiteral hn hl call
  rw [hcontent] at hestart hestop
  have htaken := taken_ofLiteral hl hblank hleft call
  have hold : d.text = before ++ (left ++ own ++ right ++ after) := by
    rw [htext, List.append_assoc]
  cases found with
  | none =>
      have hedit : Edit.ofLiteral l call = ⟨byteLength (before ++ left),
          (byteLength (before ++ left) + byteLength own : Nat),
          (Edit.ofLiteral l call).replacement⟩ := by rw [← hestart, ← hestop]
      have hsplit : d.text = (before ++ left) ++ own ++ (right ++ after) := by
        rw [htext]
        simp only [List.append_assoc]
      rw [hedit, hsplit, Option.toList_none, Edit.apply_single] at happly
      refine ⟨before, _, before, _, hold, hstart, ?_, htaken (right ++ after), rfl, fun _ => rfl⟩
      rw [← Except.ok.inj happly]
      simp only [List.append_assoc]
  | some e =>
      obtain ⟨hadmits, hleaves⟩ := hfound e rfl
      obtain ⟨hliteral, -, hposition⟩ := literalAt_ok hl
      rw [hposition] at hleaves
      obtain ⟨front, back, hboth, hsame⟩ :=
        hadmits.apply_inside hn hliteral htext hstart hstop hleaves hestart hestop
      have hresult := Except.ok.inj (hboth.symm.trans happly)
      exact ⟨before, _, front, _, hold, hstart, hresult.symm, htaken back, hsame, nofun⟩

/-- What begins with something else begins with the call. -/
theorem Taken.prefix_of_head {n : Node} {call rest : List Char} {c : Char}
    (h : Taken n call (c :: rest)) (hspace : isSpace c = false) (hbrace : c ≠ '\x7b')
    (hbracket : c ≠ '[') : call <+: c :: rest := by
  generalize hnew : c :: rest = new at h ⊢
  cases h with
  | braced margin blank rest' =>
      cases margin with
      | nil => exact absurd (List.cons.inj hnew).1 hbrace
      | cons b margin =>
          rw [(List.cons.inj hnew).1, blank b (by simp)] at hspace
          cases hspace
  | bracketed quoted rest' => exact absurd (List.cons.inj hnew).1 hbracket
  | plain quoted rest' => exact List.prefix_append call rest'

theorem Taken.not_quote {n : Node} {call rest : List Char} {c : Char}
    (h : Taken n call (c :: rest)) (hcall : ∃ d ∈ call.head?, Call.opensIdentifier d = true) :
    ¬(isQuote c = true ∨ c = '\x60') := by
  intro hquote
  have hfacts : isSpace c = false ∧ c ≠ '\x7b' ∧ c ≠ '[' ∧ Call.opensIdentifier c = false := by
    rcases (by simpa [isQuote] using hquote : (c = '"' ∨ c = '\'') ∨ c = '\x60') with
      (rfl | rfl) | rfl <;> decide
  obtain ⟨hspace, hbrace, hbracket, hname⟩ := hfacts
  obtain ⟨d, hd, hidentifier⟩ := hcall
  obtain ⟨after, rfl⟩ := List.head?_eq_some_iff.1 hd
  obtain ⟨rfl, -⟩ := List.cons_prefix_cons.1 (h.prefix_of_head hspace hbrace hbracket)
  rw [hidentifier] at hname
  cases hname

theorem decode_append {a : List Char} (h : '&' ∉ a) (b : List Char) :
    CharacterReference.decode (a ++ b) = a ++ CharacterReference.decode b := by
  induction a with
  | nil => rfl
  | cons c a ih =>
      have hc : (c == '&') = false := by
        rw [beq_eq_false_iff_ne]
        rintro rfl
        exact h (by simp)
      have hrest := ih fun hmem => h (by simp [hmem])
      rw [CharacterReference.decode] at hrest ⊢
      rw [List.cons_append, CharacterReference.decodeFrom, hc, hrest]
      rfl

/-- A run that begins within white space before a brace is blank. -/
theorem strip_of_run_margin {raw after margin rest : List Char}
    (h : raw ++ after = margin ++ '\x7b' :: rest) (hraw : ∀ c ∈ raw, endsText c = false)
    (hmargin : ∀ c ∈ margin, isSpace c = true) : strip (CharacterReference.decode raw) = [] := by
  have hblank : ∀ c ∈ raw, isSpace c = true := by
    rcases append_eq_append_cons h with ⟨Z, rfl, -⟩ | ⟨Z, rfl, -⟩
    · exact fun c hc => hmargin c (by simp [hc])
    · exact absurd (hraw '\x7b' (by simp)) (by decide)
  have hplain : '&' ∉ raw := fun hmem => absurd (hblank _ hmem) (by decide)
  have hdecode := decode_append hplain []
  rw [List.append_nil] at hdecode
  rw [hdecode, show CharacterReference.decode [] = [] from rfl, List.append_nil]
  exact trim_eq_nil isSpace hblank

/-- A character that stands for itself in the text of an element. -/
def IsPlain (c : Char) : Prop := isSpace c = false ∧ c ≠ '&' ∧ endsText c = false

/-- A run where something plain stands begins with it. -/
theorem prefix_of_run {opening raw right after rest : List Char} (h : ∀ c ∈ opening, IsPlain c)
    (htext : raw ++ (right ++ after) = opening ++ rest) (hright : ∀ c ∈ right, isSpace c = true)
    (hafter : TextEnds after) : opening <+: strip (CharacterReference.decode raw) := by
  have hprefix : opening <+: raw := by
    have hopening : opening <+: raw ++ (right ++ after) := by
      rw [htext]
      exact List.prefix_append opening rest
    rcases List.prefix_or_prefix_of_prefix hopening (List.prefix_append raw _) with hle | ⟨x, rfl⟩
    · exact hle
    · rw [List.append_assoc, List.append_cancel_left_eq] at htext
      cases x with
      | nil => simp
      | cons c x =>
          obtain ⟨hspace, -, hends⟩ := h c (by simp)
          cases right with
          | nil =>
              rw [List.nil_append] at htext
              rw [hafter c (by simp [htext])] at hends
              cases hends
          | cons d right =>
              rw [← (List.cons.inj htext).1, hright d (by simp)] at hspace
              cases hspace
  obtain ⟨more, rfl⟩ := hprefix
  rw [decode_append fun hmem => (h _ hmem).2.1 rfl]
  exact prefix_trim_append isSpace (fun c hc => (h c hc).1) _

theorem isBlankText_of_strip {target : List Char} (h : strip target = []) :
    isBlankText target = true :=
  List.all_eq_true.2 (blank_of_trim_eq_nil isSpace h)

/-- The keyword reads like a quoted text of its inner letters. -/
theorem Laid.value_of_keyword (hd : d.Laid) {start : Nat} {raw : List Char}
    (hn : .leaf .stringKeyword start raw ∈ d.all) {l : Literal}
    (hl : d.literalAt (.leaf .stringKeyword start raw) = some (.ok l)) :
    Points.strip l.value = Points.ofChars "trin".toList := by
  obtain rfl : raw = "string".toList := hd.grounded _ hn
  have hvalue : Node.stringValue .value "string".toList = .ok (Points.ofChars "trin".toList) := by
    decide +kernel
  have hstrip : Points.strip (Points.ofChars "trin".toList) = Points.ofChars "trin".toList := by
    decide +kernel
  have hl := Option.some.inj hl
  rw [hvalue] at hl
  rw [← Except.ok.inj hl]
  exact hstrip

/-- A run that is found where a call is now is blank, or begins with the call. -/
theorem Taken.run_cases {n : Node} {call new raw right after opening : List Char}
    (h : Taken n call new) (hnew : raw ++ (right ++ after) = new)
    (hraw : ∀ c ∈ raw, endsText c = false) (hright : ∀ c ∈ right, isSpace c = true)
    (hafter : TextEnds after) (hopening : opening <+: call) (hplain : ∀ c ∈ opening, IsPlain c) :
    strip (CharacterReference.decode raw) = [] ∨
      (∀ start raw, n ≠ .run start raw) ∧
        opening <:+: strip (CharacterReference.decode raw) := by
  obtain ⟨more, rfl⟩ := hopening
  cases h with
  | braced margin blank rest => exact Or.inl (strip_of_run_margin hnew hraw blank)
  | bracketed quoted rest =>
      have hbracket : ∀ c ∈ '[' :: opening, IsPlain c := by
        rintro c (_ | ⟨_, hc⟩)
        · exact ⟨by decide, by decide, by decide⟩
        · exact hplain c hc
      have hbegins : raw ++ (right ++ after) = '[' :: opening ++ (more ++ rest) := by
        simpa using hnew
      have hprefix := prefix_of_run hbracket hbegins hright hafter
      exact Or.inr ⟨quoted, (List.suffix_cons _ _).isInfix.trans hprefix.isInfix⟩
  | plain quoted rest =>
      have hbegins : raw ++ (right ++ after) = opening ++ (more ++ rest) := by simpa using hnew
      have hprefix := prefix_of_run hplain hbegins hright hafter
      exact Or.inr ⟨quoted, hprefix.isInfix⟩

/-- Where a call has taken the place of a literal, no literal with the same text begins. -/
theorem not_located_again {path : String} {text result target call opening : List Char}
    {d d' : Document} {line column : Int} {l : Literal} {found : Option Edit}
    (hparse : Document.parse (some path) text = .ok d)
    (hlocate : d.locate target line column = .ok (some l)) (hblank : isBlankText target = false)
    (hcall : ∃ c ∈ call.head?, Call.opensIdentifier c = true)
    (hkeyword : strip target = "trin".toList → ∀ rest, ¬call <+: "string".toList ++ rest)
    (hopening : opening <+: call) (hplain : ∀ c ∈ opening, IsPlain c)
    (hfound : ∀ e ∈ found, d.Admits e ∧ e.LeavesLine d line ∧ ¬opening <:+: target)
    (happly : Edit.apply text (Edit.ofLiteral l call :: found.toList) = .ok result)
    (hparse' : Document.parse (some path) result = .ok d') (l' : Literal) :
    d'.locate target line column ≠ .ok (some l') := by
  intro hlocate'
  have hd := laid_of_parse hparse
  have hd' := laid_of_parse hparse'
  obtain ⟨hnodes, rfl⟩ := parse_eq_ok.1 hparse
  obtain ⟨hnodes', rfl⟩ := parse_eq_ok.1 hparse'
  obtain ⟨n, hn, hl⟩ := mem_literals_of_locate hlocate
  obtain ⟨n', hn', hl'⟩ := mem_literals_of_locate hlocate'
  have hvalue := value_of_fits (fits_of_locate hlocate')
  have hposition := position_of_fits (fits_of_locate hlocate) (fits_of_locate hlocate')
  have hline := line_of_fits (fits_of_locate hlocate)
  obtain ⟨before, old, front, new, hold, hstart, hresult, hnew, hsame, hnone⟩ :=
    hd.taken_of_apply hn hl
      (fun e he => ⟨(hfound e he).1, by rw [hline]; exact (hfound e he).2.1⟩) happly
  -- the literal found again begins where the call is
  have hplace {front' rest : List Char} (hfront : d'.text = front' ++ rest)
      (hstart' : n'.start = byteLength front') : front' = front ∧ rest = new := by
    refine Position.eq_of_ofOffset (hfront.symm.trans hresult) ?_
    rw [(literalAt_ok hl').2.2, (literalAt_ok hl).2.2, Document.position, Document.position, hstart,
      hstart', hold, hfront, Position.ofOffset_append_eq, Position.ofOffset_append_eq] at hposition
    rw [Position.ofOffset_append_eq, Position.ofOffset_append_eq, hposition, hsame]
  by_cases hrun : ∃ start raw, n' = .run start raw
  · obtain ⟨start, raw, rfl⟩ := hrun
    obtain ⟨front', right, after, hfront, hstart', hin, hraw, hright, hafter⟩ :=
      run_begins hnodes' hn'
    obtain ⟨rfl, hrest⟩ := hplace hfront hstart'
    have htarget : strip (CharacterReference.decode raw) = strip target := by
      refine Points.ofChars_injective (Eq.trans ?_ hvalue)
      rw [← Except.ok.inj (Option.some.inj hl')]
      exact (Points.strip_ofChars _).symm
    rcases hnew.run_cases hrest hraw hright hafter hopening hplain with hempty | ⟨hquoted, hholds⟩
    · rw [isBlankText_of_strip (htarget.symm.trans hempty)] at hblank
      cases hblank
    · cases found with
      | none =>
          -- the lexer has read the same text up to here, and it was not in an element then
          obtain rfl := hnone rfl
          exact quoted_outside hnodes hn (literalAt_ok hl).1 hold hstart hquoted hin
      | some e =>
          rw [htarget] at hholds
          refine (hfound e rfl).2.2 (hholds.trans ⟨_, _, margins_trim isSpace target⟩)
  · have hquoted : ∀ start raw, n' ≠ .run start raw := fun start raw h => hrun ⟨start, raw, h⟩
    obtain ⟨front', c, after, hfront, hstart', -, hc⟩ :=
      quoted_begins hnodes' hn' (literalAt_ok hl').1 hquoted
    obtain ⟨rfl, rfl⟩ := hplace hfront hstart'
    rcases hc.quote_or_keyword with hquote | ⟨start, raw, rfl⟩
    · exact hnew.not_quote hcall hquote
    · rw [hd'.value_of_keyword hn' hl'] at hvalue
      obtain ⟨front'', own, after', hfront', hstart'', -, hspelled⟩ := hd'.spelled _ hn'
      obtain rfl : own = raw := hspelled
      obtain rfl : own = "string".toList := hd'.grounded _ hn'
      obtain ⟨-, hstring⟩ := hplace (hfront'.trans (List.append_assoc _ _ _)) hstart''
      rw [← hstring] at hnew
      exact hkeyword (Points.ofChars_injective hvalue).symm after'
        (hnew.prefix_of_head (by decide) (by decide) (by decide))

/-! ### At a place -/

/-- What characters can be read as: a run, the value of an attribute, or a string. -/
def readings (own : List Char) : List Points :=
  .ofChars (CharacterReference.decode own) ::
    .ofChars (CharacterReference.decode (unquoted own)) ::
      (Escape.decode (unquoted own)).toOption.toList

/-- No literal with a text begins here, wherever it might end: no template does, and no other
reading of what stands here is that text. -/
def Excludes (target rest : List Char) : Prop :=
  rest.head? ≠ some '\x60' ∧
    ∀ own ∈ rest.inits, ∀ value ∈ readings own, Points.strip value ≠ Points.ofChars (strip target)

instance (target rest : List Char) : Decidable (Excludes target rest) :=
  inferInstanceAs (Decidable (_ ∧ _))

theorem mem_readings_of_stringValue {place : Place} {own : List Char} {value : Points}
    (h : Node.stringValue place own = .ok value) : value ∈ readings own := by
  unfold Node.stringValue at h
  split at h
  · simp [readings, ← Except.ok.inj h]
  · simp [readings, h, Except.toOption]

/-- The value of a literal is a reading of its characters, unless it is a template. -/
theorem reading_of_literalAt {n : Node} {own : List Char} (hown : n.Spelled own) {l : Literal}
    (h : d.literalAt n = some (.ok l)) :
    l.value ∈ readings own ∨ ∃ span parts, n = .branch .template span parts := by
  have hquoted {place : Place} {kind : LiteralKind} {inAttribute isKey : Bool} {raw : List Char}
      (hl : (Node.stringValue place raw).map (d.quotedLiteral kind n.span inAttribute isKey) =
        .ok l) : l.value ∈ readings raw := by
    cases hvalue : Node.stringValue place raw with
    | error f =>
        rw [hvalue] at hl
        cases hl
    | ok value =>
        rw [hvalue] at hl
        rw [← Except.ok.inj hl]
        exact mem_readings_of_stringValue hvalue
  unfold literalAt at h
  split at h
  · next start raw =>
    obtain rfl : own = raw := hown
    obtain rfl : d.runLiteral start own = l := Except.ok.inj (Option.some.inj h)
    exact Or.inl (List.mem_cons_self ..)
  · next place start raw =>
    obtain rfl : own = raw := hown
    split at h
    · cases h
    · exact Or.inl (hquoted (Option.some.inj h))
  · next start raw =>
    obtain rfl : own = raw := hown
    exact Or.inl (hquoted (Option.some.inj h))
  · next span parts => exact Or.inr ⟨span, parts, rfl⟩
  · cases h

/-- Where a target is found, its text is not excluded. -/
theorem not_excludes_of_locate {path : String} {text target : List Char}
    (hparse : Document.parse (some path) text = .ok d) {line column : Int} {l : Literal}
    (hlocate : d.locate target line column = .ok (some l)) :
    ∃ front rest, text = front ++ rest ∧
      ((front.foldl Position.next ⟨1, 0⟩).line : Int) = line ∧
      ((front.foldl Position.next ⟨1, 0⟩).column : Int) = column ∧ ¬Excludes target rest := by
  have hd := laid_of_parse hparse
  obtain ⟨hnodes, rfl⟩ := parse_eq_ok.1 hparse
  obtain ⟨n, hn, hl⟩ := mem_literals_of_locate hlocate
  obtain ⟨hliteral, -, hposition⟩ := literalAt_ok hl
  have hfits := fits_of_locate hlocate
  obtain ⟨front, own, after, htext, hstart, -, hspelled⟩ := hd.spelled n hn
  rw [List.append_assoc] at htext
  rw [Document.position, hstart, htext, Position.ofOffset_append_eq] at hposition
  simp only [fits, Bool.and_eq_true, decide_eq_true_eq, hposition] at hfits
  refine ⟨front, own ++ after, htext, hfits.1.1, hfits.1.2, fun hexcludes => ?_⟩
  rcases reading_of_literalAt hspelled hl with hreading | ⟨span, parts, rfl⟩
  · exact hexcludes.2 own ((List.mem_inits own _).2 (List.prefix_append own after)) l.value hreading
      (beq_iff_eq.1 hfits.2)
  · obtain ⟨front', c, after', htext', hstart', -, hopens⟩ :=
      quoted_begins hnodes hn hliteral (by intro start raw h; cases h)
    obtain rfl : c = '\x60' := hopens
    obtain ⟨-, hrest⟩ := eq_of_byteLength_eq (htext.symm.trans htext') (hstart.symm.trans hstart')
    exact hexcludes.1 (by rw [hrest]; rfl)

end Document

end Source

/-! ### Patches -/

namespace Call

variable {name key call : List Char}

theorem render_eq_ok (h : render name key = .ok call) :
    ∃ f, callee name = .ok f ∧ call = f ++ '(' :: (Escape.quoted key ++ [')']) := by
  unfold render at h
  cases hf : callee name with
  | error e =>
      rw [hf] at h
      cases h
  | ok f =>
      rw [hf] at h
      exact ⟨f, rfl, by rw [← Except.ok.inj h]; simp⟩

theorem callee_eq_ok {f : List Char} (h : callee name = .ok f) :
    ∃ part parts, (∀ p ∈ part :: parts, isIdentifier p = true) ∧
      f = ['.'].intercalate (part :: parts) := by
  unfold callee at h
  simp only at h
  split at h
  · cases h
  · next hparts =>
    split at h
    · cases h
    · next hfind =>
      obtain rfl := Except.ok.inj h
      cases hsegments : segments name with
      | nil => simp [hsegments] at hparts
      | cons part parts =>
          rw [hsegments] at hfind
          exact ⟨part, parts, fun p hp => by simpa using List.find?_eq_none.1 hfind p hp, rfl⟩

/-- A call begins with the name of its function. -/
theorem head_of_render (h : render name key = .ok call) :
    ∃ c ∈ call.head?, opensIdentifier c = true := by
  obtain ⟨f, hf, rfl⟩ := render_eq_ok h
  obtain ⟨part, parts, hnames, rfl⟩ := callee_eq_ok hf
  have hidentifier := hnames part (by simp)
  cases part with
  | nil => cases hidentifier
  | cons c rest =>
      refine ⟨c, ?_, (Bool.and_eq_true_iff.1 hidentifier).1⟩
      cases parts <;> simp [List.intercalate]

theorem mem_of_isIdentifier {p : List Char} (h : isIdentifier p = true) {c : Char} (hc : c ∈ p) :
    c.isAlphanum = true ∨ c = '_' ∨ c = '$' := by
  cases p with
  | nil => cases hc
  | cons d p =>
      simp only [isIdentifier, opensIdentifier, Bool.and_eq_true, Bool.or_eq_true, beq_iff_eq,
        List.all_eq_true] at h
      simp only [Char.isAlphanum, Bool.or_eq_true]
      rcases List.mem_cons.1 hc with rfl | hc
      · rcases h.1 with (hletter | hline) | hdollar
        · exact Or.inl (Or.inl hletter)
        · exact Or.inr (Or.inl hline)
        · exact Or.inr (Or.inr hdollar)
      · rcases h.2 c hc with ((hletter | hline) | hdollar) | hdigit
        · exact Or.inl (Or.inl hletter)
        · exact Or.inr (Or.inl hline)
        · exact Or.inr (Or.inr hdollar)
        · exact Or.inl (Or.inr hdigit)

theorem isPlain_of_isAlphanum {c : Char} (h : c.isAlphanum = true) : Document.IsPlain c := by
  have hcode : 48 ≤ c.toNat ∧ c.toNat ≤ 122 := by
    have hranges : (decide (c.val ≥ 65 ∧ c.val ≤ 90) || c.val ≥ 97 && c.val ≤ 122 ||
        c.val ≥ 48 && c.val ≤ 57) = true := h
    simp only [Bool.or_eq_true, Bool.and_eq_true, decide_eq_true_eq, ge_iff_le,
      UInt32.le_iff_toNat_le, Char.toNat_val, UInt32.reduceToNat] at hranges
    omega
  refine ⟨?_, ?_, ?_⟩
  · simp only [isSpace, isSpaceCode, Bool.or_eq_false_iff, Bool.and_eq_false_iff,
      decide_eq_false_iff_not, beq_eq_false_iff_ne]
    omega
  · rintro rfl
    exact absurd h (by decide)
  · rw [Bool.eq_false_iff]
    intro hends
    simp only [Control.endsText, Lexeme.breaksText, Bool.or_eq_true, beq_iff_eq] at hends
    rcases hends with (rfl | rfl) | (rfl | rfl) | hzero
    · exact absurd h (by decide)
    · exact absurd h (by decide)
    · exact absurd h (by decide)
    · exact absurd h (by decide)
    · omega

theorem mem_intercalate {sep : List Char} {ps : List (List Char)} {c : Char}
    (h : c ∈ sep.intercalate ps) : c ∈ sep ∨ ∃ p ∈ ps, c ∈ p := by
  rw [List.intercalate] at h
  induction ps with
  | nil => cases h
  | cons p ps ih =>
      cases ps with
      | nil => exact Or.inr ⟨p, by simp, by simpa using h⟩
      | cons q ps =>
          simp only [List.intersperse, List.flatten_cons, List.mem_append] at h ih
          rcases h with h | h | h
          · exact Or.inr ⟨p, by simp, h⟩
          · exact Or.inl h
          · rcases ih h with hsep | ⟨p', hp', hc⟩
            · exact Or.inl hsep
            · exact Or.inr ⟨p', List.mem_cons_of_mem _ hp', hc⟩

/-- The beginning of a call stands for itself in the text of an element. -/
theorem isPlain_of_callee {f : List Char} (h : callee name = .ok f) {c : Char}
    (hc : c ∈ f ++ ['(']) : Document.IsPlain c := by
  obtain ⟨part, parts, hnames, rfl⟩ := callee_eq_ok h
  have hsign : ∀ {d : Char}, d ∈ ['_', '$', '.', '('] → Document.IsPlain d := by
    intro d hd
    simp only [List.mem_cons, List.not_mem_nil, or_false] at hd
    rcases hd with rfl | rfl | rfl | rfl <;> exact ⟨by decide, by decide, by decide⟩
  rcases List.mem_append.1 hc with hc | hc
  · rcases mem_intercalate hc with hc | ⟨p, hp, hc⟩
    · obtain rfl := List.mem_singleton.1 hc
      exact hsign (by simp)
    · rcases mem_of_isIdentifier (hnames p hp) hc with hc | rfl | rfl
      · exact isPlain_of_isAlphanum hc
      · exact hsign (by simp)
      · exact hsign (by simp)
  · obtain rfl := List.mem_singleton.1 hc
    exact hsign (by simp)

theorem not_prefix_of_render (h : render name key = .ok call) {word : List Char}
    (hword : '(' ∉ word) (hf : ∀ f, callee name = .ok f → ¬word <+: f) (rest : List Char) :
    ¬call <+: word ++ rest := by
  obtain ⟨f, hcallee, rfl⟩ := render_eq_ok h
  intro hprefix
  have hfirst : f <+: word ++ rest := (List.prefix_append f _).trans hprefix
  rcases List.prefix_or_prefix_of_prefix hfirst (List.prefix_append word rest) with hle | hle
  · obtain ⟨more, rfl⟩ := hle
    rw [List.append_assoc, List.prefix_append_right_inj] at hprefix
    cases more with
    | nil => exact hf f hcallee (by simp)
    | cons c more =>
        obtain ⟨rfl, -⟩ := List.cons_prefix_cons.1 hprefix
        exact hword (by simp)
  · exact hf f hcallee hle

end Call

/-- A target that lacks nothing has a key and a text. -/
theorem Target.not_blank {t : Target} (h : t.lacks? = none) :
    isBlankText t.key = false ∧ isBlankText t.text = false := by
  unfold lacks? at h
  repeat' split at h
  all_goals simp_all

namespace Patch

variable {w : Workspace} {root : Option Path} {t : Target} {r : Rendering} {call text : List Char}

theorem renderBy_eq (parse : Parser) {base : Option Path} {path : Path} (hmet : t.lacks? = none)
    (hnamed : Call.render t.functionName (strip t.key) = .ok call)
    (hbase : root.mapM w.expandHome = .ok base) (hpath : locateFile w base t.filePath = .ok path)
    (hreads : w.store.readText path = .ok text) :
    renderBy parse w root t = renderText parse path text t call := by
  unfold renderBy
  rw [hbase, hmet, hnamed]
  simp only [mapError_ok, bind, Except.bind, hpath, hreads]

/-- In a store that has the file of a patch, the patch is worked out from what is there now. -/
theorem Renders.render_again {parse : Parser} (h : Renders parse w root t call text r)
    {store : Store} {now : List Char} (hnow : store.readText r.path = .ok now) :
    renderBy parse { w with store } root t = renderText parse r.path now t call := by
  obtain ⟨base, hbase, hpath⟩ := h.placed
  exact renderBy_eq (w := { w with store }) parse h.met h.named hbase hpath hnow

theorem apply_of_render (h : render w root t = .ok r) :
    ∃ store, apply w root t = (.ok r, store) ∧ store.readText r.path = .ok r.after := by
  obtain ⟨store, happly, hreplaced⟩ := applyVia_of_render .longest h
  refine ⟨store, happly, ?_⟩
  rw [Store.readText, hreplaced.reads]
  simp only [Utf8.decode_encode, mapError_ok]

/-- A patch that was made was worked out before, and its file has the new text. -/
theorem render_of_apply {store : Store} (h : apply w root t = (.ok r, store)) :
    render w root t = .ok r ∧ store.readText r.path = .ok r.after := by
  cases hrender : render w root t with
  | error f => simp [apply, applyVia, hrender] at h
  | ok r₀ =>
      obtain ⟨store₀, happly, hnow⟩ := apply_of_render hrender
      obtain ⟨hr, rfl⟩ := Prod.mk.inj (h.symm.trans happly)
      obtain rfl := Except.ok.inj hr
      exact ⟨rfl, hnow⟩

/-- A patch makes the edit of its literal, and with it that of the imports if there is one. -/
theorem edited_of_renderText {parse : Parser} {path : Path}
    (h : renderText parse path text t call = .ok r) :
    r.before = text ∧ ∃ d l, ∃ found : Option Edit, parse (some path.toString) text = .ok d ∧
      d.locate t.text t.line t.column = .ok (some l) ∧ r.importChanged = found.isSome ∧
      (∀ e ∈ found, ∃ b, t.binding = .ok (some b) ∧ d.ensureImport b = .ok (some e)) ∧
      Edit.apply text (Edit.ofLiteral l call :: found.toList) = .ok r.after := by
  unfold renderText at h
  split at h
  · cases h
  · next d hparse =>
    obtain ⟨⟨edits, changed⟩, hedits, h⟩ := bind_eq_ok.1 h
    obtain ⟨after, hafter, h⟩ := bind_eq_ok.1 h
    obtain rfl := Except.ok.inj h
    refine ⟨rfl, ?_⟩
    unfold Patch.edits at hedits
    obtain ⟨located, hlocated, hedits⟩ := bind_eq_ok.1 hedits
    split at hedits
    · cases hedits
    · next l =>
      have hlocate := mapError_eq_ok.1 hlocated
      have hafter := mapError_eq_ok.1 hafter
      obtain ⟨b, hb, hedits⟩ := bind_eq_ok.1 hedits
      have hbinding := mapError_eq_ok.1 hb
      split at hedits
      · obtain ⟨rfl, rfl⟩ := Prod.mk.inj (Except.ok.inj hedits)
        exact ⟨d, l, none, hparse, hlocate, rfl, nofun, hafter⟩
      · next b =>
        obtain ⟨found, hfound, hedits⟩ := bind_eq_ok.1 hedits
        have himport := mapError_eq_ok.1 hfound
        split at hedits
        · obtain ⟨rfl, rfl⟩ := Prod.mk.inj (Except.ok.inj hedits)
          exact ⟨d, l, none, hparse, hlocate, rfl, nofun, hafter⟩
        · next e =>
          obtain ⟨rfl, rfl⟩ := Prod.mk.inj (Except.ok.inj hedits)
          refine ⟨d, l, some e, hparse, hlocate, rfl, ?_, hafter⟩
          intro e' he'
          obtain rfl := Option.mem_some.1 he'
          exact ⟨b, hbinding, himport⟩

/-- Why a target is not found: the file does not parse, a literal in it does not decode, or none is
the one that is meant. -/
def Fault.IsStale (f : Fault) (path : Path) (t : Target) : Prop :=
  (∃ e, f = .malformed e path) ∨ (∃ e, f = .escape e) ∨
    f = .stale (strip t.text) t.line t.column path

theorem renderText_of_not_located {parse : Parser} {path : Path}
    (h : ∀ d, parse (some path.toString) text = .ok d →
      ∀ l, d.locate t.text t.line t.column ≠ .ok (some l)) :
    ∃ f, (∀ call, renderText parse path text t call = .error f) ∧ f.IsStale path t := by
  unfold renderText
  cases hparse : parse (some path.toString) text with
  | error e => exact ⟨_, fun _ => rfl, Or.inl ⟨e, rfl⟩⟩
  | ok d =>
      simp only
      unfold Patch.edits
      cases hlocate : d.locate t.text t.line t.column with
      | error e => exact ⟨_, fun _ => rfl, Or.inr (Or.inl ⟨e, rfl⟩)⟩
      | ok found =>
          cases found with
          | none => exact ⟨_, fun _ => rfl, Or.inr (Or.inr rfl)⟩
          | some l => exact absurd hlocate (h d hparse l)

/-- The edit of the imports that comes with a patch leaves the line of its target. -/
def Rendering.LeavesTarget (r : Rendering) (t : Target) : Prop :=
  ∀ d b e, Document.parse (some r.path.toString) r.before = .ok d → t.binding = .ok (some b) →
    d.ensureImport b = .ok (some e) → e.LeavesLine d t.line

/-- Where the line of the target stays, the target is found no more in the patched file. -/
theorem Renders.not_located_again (h : Renders Document.parse w root t call text r)
    (hleaves : r.LeavesTarget t)
    (himport : r.importChanged = true →
      ∀ f, Call.callee t.functionName = .ok f → ¬f ++ ['('] <:+: t.text)
    (hkeyword : strip t.text = "trin".toList →
      ∀ f, Call.callee t.functionName = .ok f → ¬"string".toList <+: f) {d' : Document}
    (hparse' : Document.parse (some r.path.toString) r.after = .ok d') (l' : Literal) :
    d'.locate t.text t.line t.column ≠ .ok (some l') := by
  obtain ⟨hbefore, d, l, found, hparse, hlocate, hchanged, hfound, hedit⟩ :=
    edited_of_renderText h.renders
  obtain ⟨name, hname, hcall⟩ := Call.render_eq_ok h.named
  have hblank := (Target.not_blank h.met).2
  have hopening : name ++ ['('] <+: call := by
    rw [hcall]
    exact ⟨_, List.append_assoc _ _ _⟩
  have hedits : ∀ e ∈ found, d.Admits e ∧ e.LeavesLine d t.line ∧ ¬name ++ ['('] <:+: t.text := by
    rintro e rfl
    obtain ⟨b, hbinding, hensure⟩ := hfound e rfl
    exact ⟨(Document.laid_of_parse hparse).admits_ensureImport hensure,
      hleaves d b e (by rw [hbefore]; exact hparse) hbinding hensure, himport hchanged name hname⟩
  refine Document.not_located_again hparse hlocate hblank (Call.head_of_render h.named)
    (fun htrin rest => ?_) hopening (fun c hc => Call.isPlain_of_callee hname hc) hedits hedit
    hparse' l'
  exact Call.not_prefix_of_render h.named (by decide) (hkeyword htrin) rest

/-- After a patch nothing at the place of its target reads like the text of the target. -/
def Rendering.ClearsPlace (r : Rendering) (t : Target) : Prop :=
  ∀ front rest, r.after = front ++ rest → ((front.foldl Position.next ⟨1, 0⟩).line : Int) = t.line →
    ((front.foldl Position.next ⟨1, 0⟩).column : Int) = t.column →
      Document.Excludes t.text rest

/-- A patch is not made twice: made again at once it fails, and the store stays as the patch has
left it. Either no equal text has come to the place of the target, or the edit of the imports leaves
the line of the target. The rest is about targets whose text reads like code in the same place: that
of a call of the function itself, or `trin`, which is the value of the keyword `string` as if it
were quoted. -/
theorem apply_again {store : Store} (h : apply w root t = (.ok r, store))
    (hplace : r.ClearsPlace t ∨ r.LeavesTarget t ∧
      (r.importChanged = true →
        ∀ f, Call.callee t.functionName = .ok f → ¬f ++ ['('] <:+: t.text) ∧
      (strip t.text = "trin".toList →
        ∀ f, Call.callee t.functionName = .ok f → ¬"string".toList <+: f)) :
    ∃ f, apply { w with store } root t = (.error f, store) ∧ f.IsStale r.path t := by
  obtain ⟨hrender, hnow⟩ := render_of_apply h
  obtain ⟨call, text, hrenders⟩ := renders_of_renderBy hrender
  have hnowhere : ∀ d', Document.parse (some r.path.toString) r.after = .ok d' →
      ∀ l', d'.locate t.text t.line t.column ≠ .ok (some l') := by
    intro d' hparse' l' hlocate'
    rcases hplace with hclears | ⟨hleaves, himport, hkeyword⟩
    · obtain ⟨front, rest, hafter, hline, hcolumn, hnot⟩ :=
        Document.not_excludes_of_locate hparse' hlocate'
      exact hnot (hclears front rest hafter hline hcolumn)
    · exact hrenders.not_located_again hleaves himport hkeyword hparse' l' hlocate'
  obtain ⟨f, hf, hstale⟩ := renderText_of_not_located hnowhere
  refine ⟨f, ?_, hstale⟩
  rw [apply, applyVia, render, hrenders.render_again hnow, hf]

theorem renderText_of_facts {parse : Parser} {path : Path} {l : Literal} {b : ImportBinding}
    {e : Edit} {after : List Char}
    (hfacts : (parse (some path.toString) text).toOption.map
      (fun d => (d.locate t.text t.line t.column, d.ensureImport b)) =
        some (.ok (some l), .ok (some e)))
    (hbinding : t.binding = .ok (some b))
    (hedit : Edit.apply text [Edit.ofLiteral l call, e] = .ok after) :
    renderText parse path text t call = .ok ⟨path, text, after, true⟩ := by
  cases hparse : parse (some path.toString) text with
  | error f =>
      rw [hparse] at hfacts
      cases hfacts
  | ok d =>
      rw [hparse] at hfacts
      obtain ⟨hlocate, himport⟩ := Prod.mk.inj (Option.some.inj hfacts)
      simp only [renderText, Patch.edits, hparse, hlocate, hbinding, himport, mapError_ok, bind,
        Except.bind, pure, Except.pure, hedit]

/-- In one file the name goes into a declaration that is there, in the other a declaration is put
above the target. -/
theorem apply_again_argument :
    let file (text : List Char) : Workspace :=
      ⟨Store.empty.place ["w", "a.tsx"] (.leaf (.file (Utf8.encode text))), ⟨"/", ["w"]⟩,
        ⟨"/", ["h"]⟩, []⟩
    let t (line : Int) : Target := ⟨"a.tsx".toList, "Save".toList, line, 2, "k".toList, "t".toList,
      some "m".toList, "named".toList, false⟩
    let w := file "import \x7b a \x7d from \"m\";\nx(\"Save\");\n".toList
    let w' := file "x(\"Save\");\n".toList
    (∃ r store f, apply w none (t 2) = (.ok r, store) ∧ r.importChanged = true ∧
      r.after = "import \x7b a, t \x7d from \"m\";\nx(t(\"k\"));\n".toList ∧
      apply { w with store } none (t 2) = (.error f, store) ∧
      f.IsStale ⟨"/", ["w", "a.tsx"]⟩ (t 2)) ∧
    ∃ r store f, apply w' none (t 1) = (.ok r, store) ∧ r.importChanged = true ∧
      r.after = "import \x7b t \x7d from \"m\";\nx(t(\"k\"));\n".toList ∧
      apply { w' with store } none (t 1) = (.error f, store) ∧
      f.IsStale ⟨"/", ["w", "a.tsx"]⟩ (t 1) := by
  intro file t w w'
  let path : Path := ⟨"/", ["w", "a.tsx"]⟩
  let call := "t(\"k\")".toList
  let l (line start : Nat) : Literal :=
    { kind := .string, value := Points.ofString "Save", position := ⟨line, 2⟩,
      span := ⟨start, start + 6⟩, content := ⟨start, start + 6⟩, inAttribute := false,
      isKey := false }
  let b : ImportBinding := ⟨"m".toList, "t".toList, .named⟩
  have hnamed : Call.render "t".toList (strip "k".toList) = .ok call := by decide +kernel
  constructor
  · let text := "import \x7b a \x7d from \"m\";\nx(\"Save\");\n".toList
    let e : Edit := ⟨10, 10, ", t".toList⟩
    let r : Rendering :=
      ⟨path, text, "import \x7b a, t \x7d from \"m\";\nx(t(\"k\"));\n".toList, true⟩
    have hfacts : (Document.parse (some path.toString) text).toOption.map
        (fun d => (d.locate (t 2).text 2 2, d.ensureImport b)) =
          some (.ok (some (l 2 25)), .ok (some e)) := by
      decide +kernel
    have hlines : (Document.parse (some path.toString) text).toOption.all
        (fun d => decide (e.LeavesLine d 2)) = true := by
      decide +kernel
    have hbinding : (t 2).binding = .ok (some b) := by decide +kernel
    have hordered : Edit.ordered [Edit.ofLiteral (l 2 25) call, e] =
        [e, Edit.ofLiteral (l 2 25) call] := Edit.ordered_of_not_precedes (by decide +kernel)
    have hedit : Edit.apply text [Edit.ofLiteral (l 2 25) call, e] = .ok r.after := by
      have hpair : Edit.apply ("import \x7b a".toList ++ [] ++ " \x7d from \"m\";\nx(".toList ++
          "\"Save\"".toList ++ ");\n".toList) [Edit.ofLiteral (l 2 25) call, e] = _ :=
        Edit.apply_pair rfl rfl rfl rfl hordered
      exact hpair
    have hmet : (t 2).lacks? = none := by decide +kernel
    have hpath : locateFile w none (t 2).filePath = .ok path := by decide +kernel
    have hreads : w.store.readText path = .ok text := by decide +kernel
    have hrender : render w none (t 2) = .ok r :=
      (renderBy_eq _ hmet hnamed rfl hpath hreads).trans (renderText_of_facts hfacts hbinding hedit)
    obtain ⟨store, happly, -⟩ := apply_of_render hrender
    have hleaves : r.LeavesTarget (t 2) := by
      intro d b' e' hparse hbinding' himport
      obtain rfl : b' = b := Option.some.inj (Except.ok.inj (hbinding'.symm.trans hbinding))
      have hparse : Document.parse (some path.toString) text = .ok d := hparse
      rw [hparse] at hfacts hlines
      obtain ⟨-, himport'⟩ := Prod.mk.inj (Option.some.inj hfacts)
      obtain rfl : e' = e := Option.some.inj (Except.ok.inj (himport.symm.trans himport'))
      exact of_decide_eq_true hlines
    have hcallee : Call.callee "t".toList = .ok "t".toList := by decide +kernel
    have hcalls : ∀ f, Call.callee "t".toList = .ok f → ¬f ++ ['('] <:+: (t 2).text := by
      intro f hf
      obtain rfl := Except.ok.inj (hf.symm.trans hcallee)
      decide +kernel
    obtain ⟨f, hf, hstale⟩ := apply_again happly
      (.inr ⟨hleaves, fun _ => hcalls, fun htext => absurd htext (by decide +kernel)⟩)
    exact ⟨r, store, f, happly, rfl, rfl, hf, hstale⟩
  · let text := "x(\"Save\");\n".toList
    let e : Edit := ⟨0, 0, "import \x7b t \x7d from \"m\";\n".toList⟩
    let r : Rendering :=
      ⟨path, text, "import \x7b t \x7d from \"m\";\nx(t(\"k\"));\n".toList, true⟩
    have hfacts : (Document.parse (some path.toString) text).toOption.map
        (fun d => (d.locate (t 1).text 1 2, d.ensureImport b)) =
          some (.ok (some (l 1 2)), .ok (some e)) := by
      decide +kernel
    have hbinding : (t 1).binding = .ok (some b) := by decide +kernel
    have hordered : Edit.ordered [Edit.ofLiteral (l 1 2) call, e] =
        [e, Edit.ofLiteral (l 1 2) call] := Edit.ordered_of_not_precedes (by decide +kernel)
    have hedit : Edit.apply text [Edit.ofLiteral (l 1 2) call, e] = .ok r.after := by
      have hpair : Edit.apply ([] ++ [] ++ "x(".toList ++ "\"Save\"".toList ++ ");\n".toList)
          [Edit.ofLiteral (l 1 2) call, e] = _ := Edit.apply_pair rfl rfl rfl rfl hordered
      exact hpair
    have hmet : (t 1).lacks? = none := by decide +kernel
    have hpath : locateFile w' none (t 1).filePath = .ok path := by decide +kernel
    have hreads : w'.store.readText path = .ok text := by decide +kernel
    have hrender : render w' none (t 1) = .ok r :=
      (renderBy_eq _ hmet hnamed rfl hpath hreads).trans (renderText_of_facts hfacts hbinding hedit)
    obtain ⟨store, happly, -⟩ := apply_of_render hrender
    have hclears : r.ClearsPlace (t 1) := by
      intro front rest hafter hline hcolumn
      -- one place has the position, that after the first two characters
      have hsplit : r.after = "im".toList ++
          "port \x7b t \x7d from \"m\";\nx(t(\"k\"));\n".toList := by
        decide +kernel
      have hfront := Position.eq_of_ofOffset (hafter.symm.trans hsplit) (by
        rw [Position.ofOffset_append_eq, Position.ofOffset_append_eq]
        exact congrArg₂ Position.mk (Int.ofNat.inj hline) (Int.ofNat.inj hcolumn))
      rw [hfront.2]
      decide +kernel
    obtain ⟨f, hf, hstale⟩ := apply_again happly (.inl hclears)
    exact ⟨r, store, f, happly, rfl, rfl, hf, hstale⟩

/-- A new line makes the difference: it moves another text of the same words to the place of the
target, and the target, made again, wraps that one. -/
theorem apply_again_moved :
    let front := "const a = (\n  <ul>\n    <li>Save</li>\n    <li>".toList
    let back := "</li>\n  </ul>\n);\n".toList
    let file : Entry := .leaf (.file (Utf8.encode (front ++ "Save".toList ++ back)))
    let w : Workspace := ⟨Store.empty.place ["w", "a.tsx"] file, ⟨"/", ["w"]⟩, ⟨"/", ["h"]⟩, []⟩
    let t : Target := ⟨"a.tsx".toList, "Save".toList, 4, 8, "k".toList, "t".toList,
      some "m".toList, "named".toList, false⟩
    ∃ r store r' store', apply w none t = (.ok r, store) ∧
      apply { w with store } none t = (.ok r', store') ∧
      r.after = "import \x7b t \x7d from \"m\";\n".toList ++ front ++
        "\x7bt(\"k\")\x7d".toList ++ back ∧
      r'.after = ("import \x7b t \x7d from \"m\";\nconst a = (\n  <ul>\n" ++
        "    <li>\x7bt(\"k\")\x7d</li>\n    <li>\x7bt(\"k\")\x7d</li>\n  </ul>\n);\n").toList := by
  intro front back file w t
  let path : Path := ⟨"/", ["w", "a.tsx"]⟩
  let call := "t(\"k\")".toList
  let text := front ++ "Save".toList ++ back
  let l : Literal :=
    { kind := .text, value := Points.ofString "Save", position := ⟨4, 8⟩,
      span := ⟨byteLength front, byteLength front + 4⟩,
      content := ⟨byteLength front, byteLength front + 4⟩, inAttribute := false, isKey := false }
  let e : Edit := ⟨0, 0, "import \x7b t \x7d from \"m\";\n".toList⟩
  let r : Rendering := ⟨path, text,
    e.replacement ++ front ++ "\x7bt(\"k\")\x7d".toList ++ back, true⟩
  have hfacts : (Document.parse (some path.toString) text).toOption.map
      (fun d => (d.locate t.text t.line t.column,
        d.ensureImport ⟨"m".toList, "t".toList, .named⟩)) =
        some (.ok (some l), .ok (some e)) := by
    decide +kernel
  have hbinding : t.binding = .ok (some ⟨"m".toList, "t".toList, .named⟩) := by decide +kernel
  have hordered : Edit.ordered [Edit.ofLiteral l call, e] = [e, Edit.ofLiteral l call] :=
    Edit.ordered_of_not_precedes (by decide +kernel)
  have hedit : Edit.apply ([] ++ [] ++ front ++ "Save".toList ++ back) [Edit.ofLiteral l call, e] =
      .ok ([] ++ e.replacement ++ front ++ "\x7bt(\"k\")\x7d".toList ++ back) :=
    Edit.apply_pair rfl rfl rfl rfl hordered
  have hmet : t.lacks? = none := by decide +kernel
  have hnamed : Call.render t.functionName (strip t.key) = .ok call := by decide +kernel
  have hpath : locateFile w none t.filePath = .ok path := by decide +kernel
  have hreads : w.store.readText path = .ok text := by decide +kernel
  have hrender : render w none t = .ok r :=
    (renderBy_eq _ hmet hnamed rfl hpath hreads).trans (renderText_of_facts hfacts hbinding hedit)
  obtain ⟨store, happly, hnow⟩ := apply_of_render hrender
  have hsecond : (renderText Document.parse path r.after t call).toOption.map Rendering.after =
      some ("import \x7b t \x7d from \"m\";\nconst a = (\n  <ul>\n" ++
        "    <li>\x7bt(\"k\")\x7d</li>\n    <li>\x7bt(\"k\")\x7d</li>\n  </ul>\n);\n").toList := by
    decide +kernel
  have hagain : render { w with store } none t = renderText Document.parse path r.after t call :=
    renderBy_eq (w := { w with store }) _ hmet hnamed rfl hpath hnow
  cases hrendered : renderText Document.parse path r.after t call with
  | error f =>
      rw [hrendered] at hsecond
      cases hsecond
  | ok r' =>
      rw [hrendered] at hsecond
      obtain ⟨store', happly', -⟩ := apply_of_render (hagain.trans hrendered)
      exact ⟨r, store, r', store', happly, happly', rfl, Option.some.inj hsecond⟩

end Patch

end Phrasebook

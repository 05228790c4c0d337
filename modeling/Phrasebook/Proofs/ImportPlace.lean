import Phrasebook.Proofs.Locate
import Phrasebook.Proofs.Splice

/-!
Where imports are put. The edit that makes sure of a binding begins and ends between characters and
keeps clear of every literal, specifier and comment, whichever of its places it takes, but for the
comments in a list of imports that it replaces: so it can be made together with the edit that
replaces a literal, and what lies outside of the two stays as it is.
-/

namespace Phrasebook

open Text Source

/-! ### Bytes of a text -/

namespace Source

theorem byteLength_reverse (l : List Char) : byteLength l.reverse = byteLength l := by
  induction l with
  | nil => rfl
  | cons c l ih =>
      rw [List.reverse_cons, byteLength_append, ih, byteLength_cons, byteLength_cons,
        byteLength_nil]
      omega

theorem dropBytes_append (a b : List Char) : dropBytes (byteLength a) (a ++ b) = b := by
  induction a with
  | nil => cases b <;> simp [dropBytes]
  | cons c a ih =>
      have hpos := byteLength_pos (List.cons_ne_nil c a)
      rw [List.cons_append, dropBytes, if_neg (by simpa using Nat.ne_of_gt hpos), byteLength_cons,
        Nat.add_sub_cancel_left, ih]

theorem takeBytes_append (a b : List Char) : takeBytes (byteLength a) (a ++ b) = a := by
  induction a with
  | nil => cases b <;> simp [takeBytes]
  | cons c a ih =>
      have hpos := byteLength_pos (List.cons_ne_nil c a)
      rw [List.cons_append, takeBytes, if_neg (by simpa using Nat.ne_of_gt hpos), byteLength_cons,
        Nat.add_sub_cancel_left, ih]

theorem excerpt_append (a b c : List Char) :
    excerpt (a ++ b ++ c) ⟨byteLength a, byteLength a + byteLength b⟩ = b := by
  rw [excerpt, List.append_assoc, dropBytes_append, Nat.add_sub_cancel_left, takeBytes_append]

namespace Node

/-- An induction over nodes by their children. -/
@[elab_as_elim]
theorem induction_children {P : Node → Prop} (hleaf : ∀ kind start text, P (leaf kind start text))
    (hrun : ∀ start text, P (run start text))
    (hbranch : ∀ kind span children, (∀ c ∈ children, P c) → P (branch kind span children))
    (n : Node) : P n :=
  match n with
  | leaf kind start text => hleaf kind start text
  | run start text => hrun start text
  | branch kind span children =>
      hbranch kind span children fun c _ => induction_children hleaf hrun hbranch c

theorem child_mem_preorder {n m c : Node} (hm : m ∈ n.preorder) (hc : c ∈ m.children) :
    c ∈ n.preorder := by
  induction n using induction_children with
  | hleaf kind start text =>
      rw [preorder_leaf, List.mem_singleton] at hm
      simp [hm, children] at hc
  | hrun start text =>
      rw [preorder_run, List.mem_singleton] at hm
      simp [hm, children] at hc
  | hbranch kind span inner ih =>
      refine mem_preorder.2 (Or.inr (mem_preorderAll.2 ?_))
      rcases mem_preorder.1 hm with rfl | hm
      · exact ⟨c, hc, c.mem_preorder_self⟩
      · obtain ⟨p, hp, hm⟩ := mem_preorderAll.1 hm
        exact ⟨p, hp, ih p hp hm⟩

theorem child_mem_preorderAll {ns : List Node} {m c : Node} (hm : m ∈ preorderAll ns)
    (hc : c ∈ m.children) : c ∈ preorderAll ns := by
  obtain ⟨n, hn, hm⟩ := mem_preorderAll.1 hm
  exact mem_preorderAll.2 ⟨n, hn, child_mem_preorder hm hc⟩

theorem eq_of_isComment {n : Node} (h : n.isComment = true) :
    ∃ start text, n = leaf .comment start text := by
  cases n with
  | leaf kind start text =>
      obtain rfl : kind = .comment := by simpa [isComment, isLeaf] using h
      exact ⟨start, text, rfl⟩
  | _ => cases h

theorem eq_of_isSpecifier {n : Node} (h : n.isSpecifier = true) :
    ∃ typeOnly span children, n = branch (.importSpecifier typeOnly) span children := by
  cases n with
  | branch kind span children =>
      cases kind with
      | importSpecifier typeOnly => exact ⟨typeOnly, span, children, rfl⟩
      | _ => cases h
  | _ => cases h

/-- One node is before another, after it, or the other is in it. -/
def Around (m n : Node) : Prop :=
  n.stop ≤ m.start ∨ m.stop ≤ n.start ∨ n ∈ m.preorder

end Node

namespace Document

variable {d : Document}

theorem mem_all {m : Node} (hm : m ∈ d.nodes) : m ∈ d.all :=
  Node.mem_preorderAll.2 ⟨m, hm, m.mem_preorder_self⟩

theorem child_mem_all {m c : Node} (hm : m ∈ d.all) (hc : c ∈ m.children) : c ∈ d.all :=
  Node.child_mem_preorderAll hm hc

theorem Laid.start_le_stop (hd : d.Laid) {n : Node} (hn : n ∈ d.all) : n.start ≤ n.stop := by
  obtain ⟨before, own, after, -, hstart, hstop, -⟩ := hd.spelled n hn
  omega

/-- Literals, comments and specifiers are not empty. -/
theorem Laid.start_lt_stop (hd : d.Laid) {n : Node} (hn : n ∈ d.all) (hkept : n.isKept = true) :
    n.start < n.stop := by
  obtain ⟨before, own, after, -, hstart, hstop, hspelled⟩ := hd.spelled n hn
  have hgrounded := hd.grounded n hn
  simp only [Node.isKept, Bool.or_eq_true] at hkept
  rcases hkept with (hliteral | hcomment) | hspecifier
  · exact hgrounded.start_lt_stop hliteral
  · obtain ⟨start, text, rfl⟩ := Node.eq_of_isComment hcomment
    have hpos := byteLength_pos (IsRemark.ne_nil hgrounded)
    exact Nat.lt_add_of_pos_right hpos
  · obtain ⟨typeOnly, span, children, rfl⟩ := Node.eq_of_isSpecifier hspecifier
    obtain ⟨-, -, c, hc, -⟩ := hspelled
    have hpos := byteLength_pos (List.ne_nil_of_mem (List.mem_of_getLast? hc))
    omega

theorem Laid.inside (hd : d.Laid) {m n : Node} (hm : m ∈ d.all) (hn : n ∈ m.preorder)
    (hpos : n.start < n.stop) : m.start ≤ n.start ∧ n.stop ≤ m.stop := by
  rcases Node.mem_preorder.1 hn with rfl | hn
  · exact ⟨Nat.le_refl _, Nat.le_refl _⟩
  · exact hd.nested m hm n hn hpos

/-! ### What is around a node -/

/-- A node comes before a statement, is in it, or comes after it. -/
theorem Laid.split (hd : d.Laid) {pre post : List Node} {m n : Node}
    (hnodes : d.nodes = pre ++ m :: post) (hn : n ∈ d.all) :
    (n ∈ Node.preorderAll pre ∧ n.stop ≤ m.start) ∨ n ∈ m.preorder ∨ m.stop ≤ n.start := by
  have hm := m.mem_preorder_self
  have hseparate := hd.separate
  rw [hnodes, List.pairwise_append, List.pairwise_cons] at hseparate
  obtain ⟨-, ⟨hpost, -⟩, hpre⟩ := hseparate
  rw [all, hnodes, Node.preorderAll_append, Node.preorderAll_cons, List.mem_append,
    List.mem_append] at hn
  rcases hn with hn | hn | hn
  · obtain ⟨p, hp, hnp⟩ := Node.mem_preorderAll.1 hn
    exact Or.inl ⟨hn, hpre p hp m (by simp) n hnp m hm⟩
  · exact Or.inr (Or.inl hn)
  · obtain ⟨p, hp, hnp⟩ := Node.mem_preorderAll.1 hn
    exact Or.inr (Or.inr (hpost p hp m hm n hnp))

theorem Laid.around_statement (hd : d.Laid) {m n : Node} (hm : m ∈ d.nodes) (hn : n ∈ d.all) :
    m.Around n := by
  obtain ⟨pre, post, hnodes⟩ := List.append_of_mem hm
  rcases hd.split hnodes hn with ⟨-, hstop⟩ | hinside | hstart
  · exact Or.inl hstop
  · exact Or.inr (Or.inr hinside)
  · exact Or.inr (Or.inl hstart)

/-- Of two nodes one leads the other. -/
theorem Laid.leads_or (hd : d.Laid) {m n : Node} (hm : m ∈ d.all) (hn : n ∈ d.all) :
    m.Leads n ∨ n.Leads m ∨ n = m := by
  refine List.Pairwise.forall_of_forall_of_flip (R := fun m n => m.Leads n ∨ n.Leads m ∨ n = m)
    (fun _ _ => Or.inr (Or.inr rfl)) (hd.leads.imp fun h => Or.inl h)
    (hd.leads.imp fun h => Or.inr (Or.inl h)) hm hn

/-- No construct is in a literal, in a comment or in a specifier. -/
theorem Laid.around (hd : d.Laid) {m n : Node} (hm : m ∈ d.all) (hconstruct : m.isConstruct = true)
    (hn : n ∈ d.all) (hkept : n.isKept = true) : m.Around n := by
  have hout : m ∉ Node.preorderAll n.children := by
    intro hmem
    have hgrounded := hd.grounded n hn
    simp only [Node.isKept, Bool.or_eq_true] at hkept
    rcases hkept with (hliteral | hcomment) | hspecifier
    · have hpart := hgrounded.isPart_of_mem hliteral hmem
      cases m with
      | branch kind span children => simp [Node.isPart] at hpart
      | _ => cases hconstruct
    · obtain ⟨start, text, rfl⟩ := Node.eq_of_isComment hcomment
      simp [Node.children] at hmem
    · obtain ⟨typeOnly, span, children, rfl⟩ := Node.eq_of_isSpecifier hspecifier
      rw [Node.isConstruct_of_mem_preorderAll hgrounded hmem] at hconstruct
      cases hconstruct
  rcases hd.leads_or hm hn with (hstop | hmem) | (hstop | hmem) | rfl
  · exact Or.inr (Or.inl hstop)
  · exact Or.inr (Or.inr (Node.mem_preorder.2 (Or.inr hmem)))
  · exact Or.inl hstop
  · exact absurd hmem hout
  · exact Or.inr (Or.inr n.mem_preorder_self)

/-- What is around a node and is not the node itself is around each of its children. -/
theorem Laid.around_child (hd : d.Laid) {m c n : Node} (hm : m ∈ d.all) (hc : c ∈ m.children)
    (hpos : c.start < c.stop) (hne : n ≠ m) (haround : m.Around n) : c.Around n := by
  have hinside := hd.inside hm (Node.mem_preorder.2 (Or.inr (Node.mem_preorderAll.2
    ⟨c, hc, c.mem_preorder_self⟩))) hpos
  rcases haround with hbefore | hafter | hmem
  · exact Or.inl (Nat.le_trans hbefore hinside.1)
  · exact Or.inr (Or.inl (Nat.le_trans hinside.2 hafter))
  · obtain ⟨p, hp, hnp⟩ := Node.mem_preorderAll.1 ((Node.mem_preorder.1 hmem).resolve_left hne)
    obtain ⟨left, right, hchildren⟩ := List.append_of_mem hc
    have hsiblings := hd.siblings m hm
    rw [hchildren, List.pairwise_append, List.pairwise_cons] at hsiblings
    obtain ⟨-, ⟨hright, -⟩, hleft⟩ := hsiblings
    rw [hchildren, List.mem_append, List.mem_cons] at hp
    rcases hp with hp | rfl | hp
    · exact Or.inl (hleft p hp c (by simp) n hnp c c.mem_preorder_self)
    · exact Or.inr (Or.inr hnp)
    · exact Or.inr (Or.inl (hright p hp c c.mem_preorder_self n hnp))

/-! ### Edits that keep clear -/

structure Empties (d : Document) (e : Edit) (m : Node) : Prop where
  mem : m ∈ d.all
  braces : m.isBranch .namedImports = true
  empty : ∀ c ∈ m.children, c.isSpecifier = false
  start : e.start = m.start
  stop : e.stop = m.stop

/-- An edit begins and ends between characters, and comes before or after every literal, comment and
specifier, but for the comments in a list of imports that it replaces. -/
structure Admits (d : Document) (e : Edit) : Prop where
  fits : e.Fits d.text
  removes : e.start = e.stop ∨ ∃ m, d.Empties e m
  spares : ∀ n ∈ d.all, n.isKept = true → (e.stop ≤ n.start ∨ (n.stop : Int) ≤ e.start) ∨
    n.isComment = true ∧ ∃ m, d.Empties e m ∧ n ∈ m.children

theorem Admits.clear {e : Edit} (h : d.Admits e) (n : Node) (hn : n ∈ d.all)
    (hliteral : n.isLiteral = true) : e.stop ≤ n.start ∨ (n.stop : Int) ≤ e.start := by
  refine (h.spares n hn (Node.isKept_of_isLiteral hliteral)).resolve_right ?_
  rintro ⟨hcomment, -⟩
  obtain ⟨start, text, rfl⟩ := Node.eq_of_isComment hcomment
  cases hliteral

theorem fits_insertion (before after : List Char) (h : d.text = before ++ after)
    (text : List Char) :
    (insertion (byteLength before) text).Fits d.text :=
  ⟨before, [], after, by simpa using h, rfl, rfl⟩

/-- An insertion between characters need only keep clear. -/
theorem admits_insertion {before after : List Char} (h : d.text = before ++ after)
    (text : List Char)
    (hclear : ∀ n ∈ d.all, n.isKept = true →
      byteLength before ≤ n.start ∨ n.stop ≤ byteLength before) :
    d.Admits (insertion (byteLength before) text) := by
  refine ⟨fits_insertion before after h text, Or.inl rfl, fun n hn hkept => Or.inl ?_⟩
  simp only [insertion]
  have hn := hclear n hn hkept
  omega

theorem Laid.admits_start (hd : d.Laid) {m : Node} (hm : m ∈ d.all)
    (haround : ∀ n ∈ d.all, n.isKept = true → m.Around n) (text : List Char) :
    d.Admits (insertion m.start text) := by
  obtain ⟨before, own, after, htext, hstart, -, -⟩ := hd.spelled m hm
  rw [hstart]
  refine admits_insertion (htext.trans (List.append_assoc _ _ _)) text fun n hn hkept => ?_
  have hle := hd.start_le_stop hm
  rcases haround n hn hkept with h | h | h
  · omega
  · omega
  · have hinside := hd.inside hm h (hd.start_lt_stop hn hkept)
    omega

theorem Laid.admits_stop (hd : d.Laid) {m : Node} (hm : m ∈ d.all)
    (haround : ∀ n ∈ d.all, n.isKept = true → m.Around n) (text : List Char) :
    d.Admits (insertion m.stop text) := by
  obtain ⟨before, own, after, htext, hstart, hstop, -⟩ := hd.spelled m hm
  rw [hstop, ← byteLength_append]
  refine admits_insertion htext text fun n hn hkept => ?_
  rw [byteLength_append]
  have hle := hd.start_le_stop hm
  rcases haround n hn hkept with h | h | h
  · omega
  · omega
  · have hinside := hd.inside hm h (hd.start_lt_stop hn hkept)
    omega

/-- The first word of a declaration of imports, and what follows it. -/
theorem Laid.spelled_import (hd : d.Laid) {m : Node} (hm : m ∈ d.all)
    (himport : m.isImport = true) :
    ∃ before rest, d.text = before ++ "import".toList ++ rest ∧ m.start = byteLength before ∧
      m.start + "import".length = byteLength (before ++ "import".toList) ∧
      m.start + "import".length ≤ m.stop := by
  obtain ⟨before, own, after, htext, hstart, hstop, hspelled⟩ := hd.spelled m hm
  have hown : "import".toList <+: own := by
    cases m with
    | branch kind span children =>
        cases kind with
        | importDeclaration typeOnly => exact hspelled.2.2
        | _ => cases himport
    | _ => cases himport
  obtain ⟨rest, rfl⟩ := hown
  have hword : byteLength "import".toList = "import".length := by decide
  rw [byteLength_append, hword] at hstop
  refine ⟨before, rest ++ after, by simp [htext], hstart, ?_, by omega⟩
  rw [hstart, byteLength_append, hword]

/-- Right after the first word of a declaration there is room. -/
theorem Laid.admits_import (hd : d.Laid) {m : Node} (hm : m ∈ d.nodes) (himport : m.isImport = true)
    (text : List Char) : d.Admits (insertion (m.start + "import".length) text) := by
  have hall := mem_all hm
  obtain ⟨before, rest, htext, hstart, hplace, hle⟩ := hd.spelled_import hall himport
  rw [hplace]
  refine admits_insertion htext text fun n hn hkept => ?_
  rw [← hplace]
  rcases hd.around_statement hm hn with h | h | h
  · omega
  · omega
  · rcases Node.mem_preorder.1 h with rfl | h
    · cases n with
      | branch kind span children =>
          cases kind with
          | importDeclaration typeOnly => cases hkept
          | _ => cases himport
      | _ => cases himport
    · exact Or.inl (hd.imports m hall himport n h hkept)

/-- Braces with no specifier in them hold comments only. -/
theorem Laid.admits_braces (hd : d.Laid) {m : Node} (hm : m ∈ d.all)
    (hbraces : m.isBranch .namedImports = true)
    (hempty : (m.children.filter Node.isSpecifier).getLast? = none) (text : List Char) :
    d.Admits ⟨m.start, m.stop, text⟩ := by
  obtain ⟨before, own, after, htext, hstart, hstop, hspelled⟩ := hd.spelled m hm
  have hnone : ∀ c ∈ m.children, c.isSpecifier = false := by
    intro c hc
    rw [List.getLast?_eq_none_iff, List.filter_eq_nil_iff] at hempty
    simpa using hempty c hc
  have hempties : d.Empties ⟨m.start, m.stop, text⟩ m := ⟨hm, hbraces, hnone, rfl, rfl⟩
  cases m with
  | branch kind span children =>
      obtain rfl : kind = .namedImports := by simpa [Node.isBranch] using hbraces
      obtain ⟨-, -, inner, -, hfills⟩ := hspelled
      have hcomments := (hfills hnone).comments
      refine ⟨⟨before, own, after, htext, by rw [hstart], by rw [hstop]⟩,
        Or.inr ⟨_, hempties⟩, fun n hn hkept => ?_⟩
      rcases hd.around hm rfl hn hkept with h | h | h
      · exact Or.inl (Or.inr (Int.ofNat_le.2 h))
      · exact Or.inl (Or.inl (Int.ofNat_le.2 h))
      · right
        rcases Node.mem_preorder.1 h with rfl | h
        · cases hkept
        · obtain ⟨c, hc, hnc⟩ := Node.mem_preorderAll.1 h
          obtain ⟨start, text, rfl⟩ := Node.eq_of_isComment (hcomments c hc)
          rw [Node.preorder_leaf, List.mem_singleton] at hnc
          rw [hnc]
          exact ⟨rfl, _, hempties, hc⟩
  | _ => cases hbraces

/-! ### Declarations of their own -/

theorem isComment_of_mem_header (before : Option Node) (ns : List Node) :
    ∀ m ∈ ns.take (d.headerLength before ns), m.isComment = true := by
  induction ns generalizing before with
  | nil => simp
  | cons n ns ih =>
      rw [headerLength]
      split
      · simp
      · next hn =>
        simp only
        split
        · rw [List.take_succ_cons]
          refine List.forall_mem_cons.2 ⟨by simpa using hn, ih (some n)⟩
        · simp

/-- Above a new declaration there are comments, a hash-bang line and directives only. -/
theorem mem_above {m : Node} (hm : m ∈ d.nodes.take d.aboveLength) :
    isPrologue m = true ∨ m.isComment = true := by
  rw [aboveLength, List.take_add, List.mem_append] at hm
  rcases hm with hm | hm
  · rw [← List.prefix_iff_eq_take.1 (List.takeWhile_prefix isPrologue)] at hm
    exact Or.inl (List.mem_takeWhile_imp hm)
  · exact Or.inr (isComment_of_mem_header _ _ m hm)

/-- Above a new declaration there are no literals but those of directives, and no specifiers. -/
theorem eq_of_mem_above {n : Node} (hn : n ∈ Node.preorderAll (d.nodes.take d.aboveLength))
    (hkept : n.isKept = true) :
    (∃ place start text, n = .leaf (.string place) start text) ∨
      ∃ start text, n = .leaf .comment start text := by
  obtain ⟨m, hm, hn⟩ := Node.mem_preorderAll.1 hn
  rcases mem_above hm with hprologue | hcomment
  · left
    unfold isPrologue at hprologue
    cases m with
    | leaf kind start text =>
        rw [Node.preorder_leaf, List.mem_singleton] at hn
        have hbang : kind = .hashBang := by simpa [Node.isLeaf, Node.isDirective] using hprologue
        rw [hn, hbang] at hkept
        cases hkept
    | run start text => simp [Node.isLeaf, Node.isDirective] at hprologue
    | branch kind span children =>
        simp only [Node.isLeaf, Bool.false_or] at hprologue
        unfold Node.isDirective at hprologue
        split at hprologue
        · next heq =>
          obtain ⟨rfl, -, rfl⟩ := Node.branch.inj heq
          rcases Node.mem_preorder.1 hn with rfl | hn
          · cases hkept
          · exact ⟨_, _, _, by simpa [Node.children] using hn⟩
        · cases hprologue
  · right
    obtain ⟨start, text, rfl⟩ := Node.eq_of_isComment hcomment
    rw [Node.preorder_leaf, List.mem_singleton] at hn
    exact ⟨start, text, hn⟩

/-- The line of an offset: what comes before it, and its beginning up to the offset. -/
theorem lineStart_eq {before after : List Char} (h : d.text = before ++ after) :
    ∃ above line, before = above ++ line ∧ d.lineStart (byteLength before) = byteLength above ∧
      d.excerpt ⟨d.lineStart (byteLength before), byteLength before⟩ = line ∧
      ∀ c ∈ above.getLast?, c = '\n' := by
  let tail := before.reverse.takeWhile (· != '\n')
  have hsplit : before = (before.reverse.dropWhile (· != '\n')).reverse ++ tail.reverse := by
    rw [← List.reverse_append, List.takeWhile_append_dropWhile, List.reverse_reverse]
  have hlength : byteLength before =
      byteLength (before.reverse.dropWhile (· != '\n')).reverse + byteLength tail := by
    conv_lhs => rw [hsplit]
    rw [byteLength_append, byteLength_reverse tail]
  have hstart : d.lineStart (byteLength before) =
      byteLength (before.reverse.dropWhile (· != '\n')).reverse := by
    rw [lineStart, h, takeBytes_append]
    exact Nat.sub_eq_of_eq_add hlength
  refine ⟨_, tail.reverse, hsplit, hstart, ?_, ?_⟩
  · have hexcerpt :=
      excerpt_append (before.reverse.dropWhile (· != '\n')).reverse tail.reverse after
    rw [← hsplit, ← h, byteLength_reverse tail, ← hlength, ← hstart] at hexcerpt
    exact hexcerpt
  · intro c hc
    rw [List.getLast?_reverse] at hc
    have hnot := List.head?_dropWhile_not (· != '\n') before.reverse
    rw [hc] at hnot
    simpa using hnot

/-- A character that is no white space is not on the blank beginning of a line. -/
theorem le_lineStart {before after : List Char} (h : d.text = before ++ after)
    (hblank : isBlankText (d.excerpt ⟨d.lineStart (byteLength before), byteLength before⟩) = true)
    {offset : Nat} {c : Char} (hc : EndsAt d.text offset c) (hspace : isSpace c = false)
    (hle : offset ≤ byteLength before) : offset ≤ d.lineStart (byteLength before) := by
  obtain ⟨above, line, rfl, hstart, hexcerpt, -⟩ := lineStart_eq h
  rw [hexcerpt] at hblank
  rw [hstart]
  obtain ⟨front, back, hfront, rfl⟩ := hc
  by_contra hlt
  -- the character ends within the line, so it is one of the blanks there
  obtain ⟨blank, hblanks, -⟩ := Edit.eq_append_of_byteLength_le (hfront.symm.trans h) hle
  have hsplit : above ++ line = (front ++ [c]) ++ blank := hblanks
  obtain ⟨rest, hrest, rfl⟩ := Edit.eq_append_of_byteLength_le hsplit (Nat.le_of_not_le hlt)
  have hne : rest ≠ [] := by
    rintro rfl
    rw [hrest, List.append_nil] at hlt
    exact hlt (Nat.le_refl _)
  have hmem : c ∈ rest := by
    have hlast : (front ++ [c]).getLast? = some c := by simp
    rw [hrest, List.getLast?_append_of_ne_nil _ hne] at hlast
    exact List.mem_of_getLast? hlast
  rw [isBlankText, List.all_eq_true] at hblank
  have hisSpace := hblank c (List.mem_append_left _ hmem)
  rw [hspace] at hisSpace
  cases hisSpace

/-- Nor is any of a comment on it: a comment on one line begins with a slash, and has the end of no
line in it. -/
theorem remark_le_lineStart {before after : List Char} (h : d.text = before ++ after)
    (hblank : isBlankText (d.excerpt ⟨d.lineStart (byteLength before), byteLength before⟩) = true)
    {front own back : List Char} (hown : d.text = front ++ own ++ back) (hremark : IsRemark own)
    (hle : byteLength (front ++ own) ≤ byteLength before) :
    byteLength (front ++ own) ≤ d.lineStart (byteLength before) := by
  rcases hremark.2 with hlast | hall
  · have hends : EndsAt d.text (byteLength (front ++ own)) '/' := by
      rw [hown, byteLength_append]
      exact .of_getLast? front back hlast
    exact le_lineStart h hblank hends (by decide) hle
  · obtain ⟨rest, rfl⟩ : ∃ rest, own = '/' :: rest := List.head?_eq_some_iff.1 hremark.1
    have hfirst : byteLength (front ++ ['/']) ≤ d.lineStart (byteLength before) := by
      refine le_lineStart h hblank ⟨front, rest ++ back, by simp [hown], rfl⟩ (by decide) ?_
      simp only [byteLength_append, byteLength_cons, byteLength_nil] at hle ⊢
      omega
    obtain ⟨above, line, rfl, hstart, -, hend⟩ := lineStart_eq h
    rw [hstart] at hfirst ⊢
    by_contra hlt
    -- the line would begin within the comment, right behind the end of another line
    obtain ⟨x, rfl, hx⟩ : ∃ x, above = front ++ ['/'] ++ x ∧
        rest ++ back = x ++ (line ++ after) := by
      refine Edit.eq_append_of_byteLength_le ?_ hfirst
      rw [← List.append_assoc above, ← h, hown]
      simp
    obtain ⟨y, rfl, -⟩ := Edit.eq_append_of_byteLength_le hx.symm <| by
      simp only [byteLength_append, byteLength_cons, byteLength_nil] at hlt
      omega
    have hlast : (front ++ ['/'] ++ x).getLast? = ('/' :: x).getLast? := by
      rw [List.append_assoc, List.singleton_append,
        List.getLast?_append_of_ne_nil _ (List.cons_ne_nil '/' x)]
    have hc := List.getLast?_eq_some_getLast (List.cons_ne_nil '/' x)
    have hmem := List.getLast_mem (List.cons_ne_nil '/' x)
    rw [hend _ (hlast.trans hc)] at hmem
    cases hall '\n' (List.mem_append_left y hmem)

theorem isSpace_of_isQuote {c : Char} (h : isQuote c = true) : isSpace c = false := by
  rcases (by simpa [isQuote] using h : c = '"' ∨ c = '\'') with rfl | rfl <;> decide

/-- The beginning of a blank line above a statement is no place inside a directive. -/
theorem Laid.admits_line (hd : d.Laid) {target : Node} {below : List Node}
    (hdrop : d.nodes.drop d.aboveLength = target :: below)
    (hblank : isBlankText (d.excerpt ⟨d.lineStart target.start, target.start⟩) = true)
    (text : List Char) : d.Admits (insertion (d.lineStart target.start) text) := by
  have hnodes : d.nodes = d.nodes.take d.aboveLength ++ target :: below := by
    rw [← hdrop, List.take_append_drop]
  have htarget : target ∈ d.nodes := by
    rw [hnodes]
    simp
  have hall := mem_all htarget
  obtain ⟨before, own, after, htext, hstart, -, -⟩ := hd.spelled target hall
  rw [List.append_assoc] at htext
  rw [hstart] at hblank ⊢
  obtain ⟨above, line, hbefore, hline, -, -⟩ := lineStart_eq htext
  have hle : byteLength above ≤ byteLength before := by
    rw [hbefore, byteLength_append]
    omega
  have habove : d.text = above ++ (line ++ (own ++ after)) := by
    rw [htext, hbefore, List.append_assoc]
  rw [hline]
  refine admits_insertion habove text fun n hn hkept => ?_
  rw [← hline]
  rcases hd.split hnodes hn with ⟨hmem, hstop⟩ | hinside | hafter
  · right
    obtain ⟨front, raw, back, hraw, -, hrawStop, hspelled⟩ := hd.spelled n hn
    have hgrounded := hd.grounded n hn
    rw [hstart, hrawStop] at hstop
    rw [hrawStop]
    rcases eq_of_mem_above hmem hkept with ⟨place, start, raw', rfl⟩ | ⟨start, raw', rfl⟩
    · -- the quote that ends the directive is not among the blanks of the line
      obtain ⟨c, hquote, -, hlast⟩ := hgrounded
      obtain rfl : raw = raw' := hspelled
      have hends : EndsAt d.text (byteLength front + byteLength raw) c := by
        rw [hraw]
        exact .of_getLast? front back hlast
      exact le_lineStart htext hblank hends (isSpace_of_isQuote hquote) hstop
    · obtain rfl : raw = raw' := hspelled
      rw [← byteLength_append] at hstop ⊢
      exact remark_le_lineStart htext hblank hraw hgrounded hstop
  · left
    have hinside := hd.inside hall hinside (hd.start_lt_stop hn hkept)
    omega
  · left
    have hle := hd.start_le_stop hall
    omega

/-- The places of a new declaration: on a line of its own above the first statement that it does
not leave above, right before that statement, below all statements, or in an empty file. -/
theorem insertDeclaration_cases (d : Document) (style : ImportStyle) (text : List Char) :
    (∃ target below, d.nodes.drop d.aboveLength = target :: below ∧
      (isBlankText (d.excerpt ⟨d.lineStart target.start, target.start⟩) = true ∧
          d.insertDeclaration style text =
            insertion (d.lineStart target.start) (text ++ style.newline) ∨
        d.insertDeclaration style text = insertion target.start (text ++ style.newline))) ∨
    (∃ anchor, d.nodes.drop d.aboveLength = [] ∧ d.nodes.getLast? = some anchor ∧
      d.insertDeclaration style text = insertion anchor.stop (style.newline ++ text)) ∨
    d.nodes = [] ∧ d.insertDeclaration style text = insertion 0 (text ++ style.newline) := by
  unfold insertDeclaration
  cases hdrop : d.nodes.drop d.aboveLength with
  | cons target below =>
      refine Or.inl ⟨target, below, rfl, ?_⟩
      simp only
      split
      · next hblank => exact Or.inl ⟨hblank, rfl⟩
      · exact Or.inr rfl
  | nil =>
      have htake : d.nodes.take d.aboveLength = d.nodes := by
        conv_rhs => rw [← List.take_append_drop d.aboveLength d.nodes, hdrop, List.append_nil]
      rw [htake]
      cases hlast : d.nodes.getLast? with
      | some anchor => exact Or.inr (Or.inl ⟨anchor, rfl, rfl, rfl⟩)
      | none => exact Or.inr (Or.inr ⟨List.getLast?_eq_none_iff.1 hlast, rfl⟩)

theorem Laid.admits_insertDeclaration (hd : d.Laid) (style : ImportStyle) (text : List Char) :
    d.Admits (d.insertDeclaration style text) := by
  rcases d.insertDeclaration_cases style text with
    ⟨target, below, hdrop, hplace⟩ | ⟨anchor, -, hlast, hplace⟩ | ⟨hnodes, hplace⟩
  · have htarget : target ∈ d.nodes := by
      have hmem : target ∈ d.nodes.drop d.aboveLength := by simp [hdrop]
      exact List.mem_of_mem_drop hmem
    rcases hplace with ⟨hblank, hplace⟩ | hplace
    · rw [hplace]
      exact hd.admits_line hdrop hblank _
    · rw [hplace]
      exact hd.admits_start (mem_all htarget) (fun n hn _ => hd.around_statement htarget hn) _
  · have hanchor : anchor ∈ d.nodes := List.mem_of_getLast? hlast
    rw [hplace]
    exact hd.admits_stop (mem_all hanchor) (fun n hn _ => hd.around_statement hanchor hn) _
  · rw [hplace]
    refine admits_insertion (List.nil_append d.text).symm _ fun n hn _ => ?_
    simp [all, hnodes] at hn

/-! ### Declarations that are there -/

/-- The places of a binding in a declaration: behind its first word, before its clause, in place of
a list without specifiers, behind the last specifier or behind the name of the module itself. -/
theorem augment_cases {b : ImportBinding} {style : ImportStyle} {declaration : Node} {e : Edit}
    (h : augment b style declaration = some e) :
    e = insertion (declaration.start + "import".length)
        (' ' :: b.clause style ++ " from".toList) ∨
    ∃ clause, declaration.importClause? = some clause ∧
      (e = insertion clause.start (b.symbol ++ ", ".toList) ∨
        (∃ named, clause.namedImports? = some named ∧
          ((named.children.filter Node.isSpecifier).getLast? = none ∧
              e = ⟨named.start, named.stop, b.clause style⟩ ∨
            ∃ last, (named.children.filter Node.isSpecifier).getLast? = some last ∧
              e = insertion last.stop (", ".toList ++ b.symbol))) ∨
        ∃ name, clause.defaultName? = some name ∧
          e = insertion name.stop (", ".toList ++ b.clause style)) := by
  unfold augment at h
  cases hclause : declaration.importClause? with
  | none =>
      rw [hclause] at h
      exact Or.inl (Option.some.inj h).symm
  | some clause =>
      rw [hclause] at h
      simp only at h
      refine Or.inr ⟨clause, rfl, ?_⟩
      split at h
      · split at h
        · cases h
        · exact Or.inl (Option.some.inj h).symm
      · right
        split at h
        · next _ _ named hnamed =>
          refine Or.inl ⟨named, hnamed, ?_⟩
          split at h
          · next hempty => exact Or.inl ⟨hempty, (Option.some.inj h).symm⟩
          · next last hlast => exact Or.inr ⟨last, hlast, (Option.some.inj h).symm⟩
        · cases h
        · next name _ _ hname => exact Or.inr ⟨name, hname, (Option.some.inj h).symm⟩
        · cases h

theorem isConstruct_of_isBranch {m : Node} {kind : Construct} (h : m.isBranch kind = true) :
    m.isConstruct = true := by
  cases m <;> first | rfl | cases h

/-- Right behind the name of the module itself there is room. -/
theorem Laid.admits_name (hd : d.Laid) {clause name : Node} (hclause : clause ∈ d.all)
    (hbranch : clause.isBranch .importClause = true) (hname : clause.defaultName? = some name)
    (text : List Char) : d.Admits (insertion name.stop text) := by
  have hchild := List.mem_of_find?_eq_some hname
  have hall := child_mem_all hclause hchild
  obtain ⟨start, own, rfl⟩ : ∃ start own, name = .leaf .name start own := by
    have hleaf := List.find?_some hname
    cases name with
    | leaf kind start own =>
        obtain rfl : kind = .name := by simpa [Node.isLeaf] using hleaf
        exact ⟨start, own, rfl⟩
    | _ => cases hleaf
  have hshown : Shown own := hd.grounded _ hall
  have hpos := Nat.lt_add_of_pos_right (n := start) (byteLength_pos hshown.1)
  refine hd.admits_stop hall (fun n hn hkept => ?_) text
  refine hd.around_child hclause hchild hpos ?_
    (hd.around hclause (isConstruct_of_isBranch hbranch) hn hkept)
  rintro rfl
  cases n with
  | branch kind span children =>
      obtain rfl : kind = .importClause := by simpa [Node.isBranch] using hbranch
      cases hkept
  | _ => cases hbranch

theorem Laid.admits_augment (hd : d.Laid) {b : ImportBinding} {style : ImportStyle}
    {declaration : Node} (hdeclaration : declaration ∈ d.nodes)
    (himport : declaration.isImport = true) {e : Edit}
    (he : augment b style declaration = some e) : d.Admits e := by
  rcases augment_cases he with rfl | ⟨clause, hclause, hplace⟩
  · exact hd.admits_import hdeclaration himport _
  · have hbranch := List.find?_some hclause
    have hclauseAll : clause ∈ d.all :=
      child_mem_all (mem_all hdeclaration) (List.mem_of_find?_eq_some hclause)
    rcases hplace with rfl | ⟨named, hnamed, hplace⟩ | ⟨name, hname, rfl⟩
    · exact hd.admits_start hclauseAll
        (fun n hn hk => hd.around hclauseAll (isConstruct_of_isBranch hbranch) hn hk) _
    · have hnamedAll := child_mem_all hclauseAll (List.mem_of_find?_eq_some hnamed)
      have hbraces := List.find?_some hnamed
      rcases hplace with ⟨hempty, rfl⟩ | ⟨last, hlast, rfl⟩
      · exact hd.admits_braces hnamedAll hbraces hempty _
      · obtain ⟨hchild, hspecifier⟩ := List.mem_filter.1 (List.mem_of_getLast? hlast)
        have hlastAll := child_mem_all hnamedAll hchild
        obtain ⟨typeOnly, span, children, rfl⟩ := Node.eq_of_isSpecifier hspecifier
        exact hd.admits_stop hlastAll (fun n hn hk => hd.around hlastAll rfl hn hk) _
    · exact hd.admits_name hclauseAll hbranch hname _

theorem mem_of_filterM {α ε : Type} {p : α → Except ε Bool} {l r : List α}
    (h : l.filterM p = .ok r) : ∀ x ∈ r, x ∈ l ∧ p x = .ok true := by
  have haux : ∀ (l acc r : List α), l.filterAuxM p acc = .ok r →
      ∀ x ∈ r, x ∈ acc ∨ x ∈ l ∧ p x = .ok true := by
    intro l
    induction l with
    | nil =>
        intro acc r h x hx
        obtain rfl := Except.ok.inj h
        exact Or.inl hx
    | cons y l ih =>
        intro acc r h x hx
        obtain ⟨keep, hkeep, h⟩ := bind_eq_ok.1 h
        rcases ih _ r h x hx with hx | ⟨hx, hp⟩
        · cases keep with
          | false => exact Or.inl hx
          | true =>
              rcases List.mem_cons.1 hx with rfl | hx
              · exact Or.inr ⟨by simp, hkeep⟩
              · exact Or.inl hx
        · exact Or.inr ⟨by simp [hx], hp⟩
  obtain ⟨found, hfound, h⟩ := bind_eq_ok.1 h
  obtain rfl := Except.ok.inj h
  intro x hx
  rcases haux l [] found hfound x (by simpa using hx) with hx | hx
  · cases hx
  · exact hx

theorem importsFrom_ok {source : List Char} {matching : List Node}
    (h : d.importsFrom source = .ok matching) :
    ∀ m ∈ matching, m ∈ d.nodes ∧ m.isImport = true := by
  intro m hm
  obtain ⟨hmem, htrue⟩ := mem_of_filterM h m hm
  refine ⟨hmem, ?_⟩
  cases hbranch : m.isBranch (.importDeclaration false) with
  | false => simp [hbranch] at htrue
  | true =>
      cases m with
      | branch kind span children =>
          obtain rfl : kind = .importDeclaration false := by simpa [Node.isBranch] using hbranch
          rfl
      | _ => cases hbranch

/-- The places of a binding: in a declaration that imports from its module, in one of its own behind
such a declaration, or in one of its own where new ones are put. -/
theorem ensureImport_cases {b : ImportBinding} {e : Edit} (h : d.ensureImport b = .ok (some e)) :
    (∃ m ∈ d.nodes, m.isImport = true ∧ (augment b d.importStyle m = some e ∨
      e = insertion m.stop (d.importStyle.newline ++ b.render d.importStyle))) ∨
    e = d.insertDeclaration d.importStyle (b.render d.importStyle) := by
  unfold ensureImport at h
  obtain ⟨matching, hmatching, h⟩ := bind_eq_ok.1 h
  have himports := importsFrom_ok hmatching
  split at h
  · cases h
  · simp only at h
    split at h
    · next edit _ hfound =>
      obtain rfl := Option.some.inj (Except.ok.inj h)
      obtain ⟨m, hm, hedit⟩ := List.exists_of_findSome?_eq_some hfound
      exact Or.inl ⟨m, (himports m hm).1, (himports m hm).2, Or.inl hedit⟩
    · next anchor _ _ _ =>
      obtain ⟨hanchor, himport⟩ := himports anchor (by simp)
      exact Or.inl ⟨anchor, hanchor, himport, Or.inr (Option.some.inj (Except.ok.inj h)).symm⟩
    · exact Or.inr (Option.some.inj (Except.ok.inj h)).symm

/-- The edit that makes sure of a binding keeps clear. -/
theorem Laid.admits_ensureImport (hd : d.Laid) {b : ImportBinding} {e : Edit}
    (h : d.ensureImport b = .ok (some e)) : d.Admits e := by
  rcases ensureImport_cases h with ⟨m, hm, himport, hedit | rfl⟩ | rfl
  · exact hd.admits_augment hm himport hedit
  · exact hd.admits_stop (mem_all hm) (fun n hn _ => hd.around_statement hm hn) _
  · exact hd.admits_insertDeclaration _ _

/-! ### The edit of a literal -/

/-- The edit of a literal replaces its content, which is all of it but the white space at the ends
of a run. -/
theorem Laid.cut_ofLiteral (hd : d.Laid) {n : Node} (hn : n ∈ d.all) {l : Literal}
    (hl : d.literalAt n = some (.ok l)) (call : List Char) :
    ∃ before left own right after, d.text = before ++ (left ++ own ++ right) ++ after ∧
      n.start = byteLength before ∧ n.stop = byteLength before + byteLength (left ++ own ++ right) ∧
      l.content = ⟨byteLength (before ++ left), byteLength (before ++ left) + byteLength own⟩ ∧
      (Edit.ofLiteral l call).start = l.content.start ∧
      (Edit.ofLiteral l call).stop = l.content.stop ∧
      (∀ c ∈ left, isSpace c = true) ∧ (l.kind ≠ .text → left = []) := by
  obtain ⟨before, own, after, htext, hstart, hstop, hspelled⟩ := hd.spelled n hn
  rcases (literalAt_cases hl).2 l rfl with
    ⟨start, raw, rfl, rfl⟩ | ⟨kind, inAttribute, isKey, value, hkind, rfl⟩
  · obtain rfl : own = raw := hspelled
    obtain rfl : start = byteLength before := hstart
    have hmargins := margins_trim isSpace own
    refine ⟨before, leftMargin isSpace own, strip own, rightMargin isSpace own, after, ?_, rfl, ?_,
      ?_, rfl, rfl, fun c hc => blank_of_mem_leftMargin isSpace hc, fun hkind => absurd rfl hkind⟩
    · rw [htext, strip, hmargins]
    · rw [hstop, strip, hmargins]
    · rw [byteLength_append]
      rfl
  · obtain ⟨text, hedit⟩ : ∃ text,
        Edit.ofLiteral (d.quotedLiteral kind n.span inAttribute isKey value) call =
          ⟨n.span.start, n.span.stop, text⟩ := by
      cases inAttribute <;> cases isKey <;> exact ⟨_, if_neg hkind⟩
    have hspan : n.span = ⟨byteLength before, byteLength before + byteLength own⟩ := by
      rw [← hstop, ← hstart]
      rfl
    rw [hedit]
    refine ⟨before, [], own, [], after, by simpa using htext, hstart, by simpa using hstop, ?_, rfl,
      rfl, by simp, fun _ => rfl⟩
    rw [List.append_nil]
    exact hspan

theorem Laid.fits_ofLiteral (hd : d.Laid) {n : Node} (hn : n ∈ d.all) {l : Literal}
    (hl : d.literalAt n = some (.ok l)) (call : List Char) :
    (Edit.ofLiteral l call).start = l.content.start ∧
      (Edit.ofLiteral l call).stop = l.content.stop ∧
      n.start ≤ l.content.start ∧ l.content.stop ≤ n.stop ∧
      (Edit.ofLiteral l call).Fits d.text := by
  obtain ⟨before, left, own, right, after, htext, hstart, hstop, hcontent, hestart, hestop, -⟩ :=
    hd.cut_ofLiteral hn hl call
  refine ⟨hestart, hestop, ?_, ?_, before ++ left, own, right ++ after, ?_, ?_, ?_⟩
  · rw [hcontent, hstart]
    simp only [byteLength_append]
    omega
  · rw [hcontent, hstop]
    simp only [byteLength_append]
    omega
  · rw [htext]
    simp only [List.append_assoc]
  · rw [hestart, hcontent]
  · rw [hestop, hcontent]

theorem mem_literals_of_locate {text : List Char} {line column : Int} {l : Literal}
    (h : d.locate text line column = .ok (some l)) :
    ∃ n ∈ d.all, d.literalAt n = some (.ok l) :=
  List.mem_filterMap.1 (mem_of_search h).1

end Document

end Source

/-- A patch changes what it must and nothing else: the edit that makes sure of an import comes
before or after every literal, so it and the edit of a literal are both made, and the text outside
of them stays. All that is asked of the reading of the file is that its tree fits the text. -/
theorem patch_spliced {d : Document} (hd : d.Laid) {target : List Char} {line column : Int}
    {l : Literal} {b : ImportBinding} {found : Option Edit}
    (hlocate : d.locate target line column = .ok (some l))
    (himport : d.ensureImport b = .ok found) (call : List Char) :
    let edit := Edit.ofLiteral l call
    edit.start = l.content.start ∧ edit.stop = l.content.stop ∧
      (∀ e ∈ found, Edit.Disjoint edit e ∧
        ∀ n ∈ d.all, ∀ r, d.literalAt n = some r → e.stop ≤ n.start ∨ (n.stop : Int) ≤ e.start) ∧
      ∃ result, Edit.apply d.text (edit :: found.toList) = .ok result ∧
        Edit.Spliced 0 (Edit.ordered (edit :: found.toList)) d.text result := by
  obtain ⟨n, hn, hl⟩ := Document.mem_literals_of_locate hlocate
  obtain ⟨hstart, hstop, hle, hge, hfits⟩ := hd.fits_ofLiteral hn hl call
  have hadmits : ∀ e ∈ found, d.Admits e := by
    rintro e rfl
    exact hd.admits_ensureImport himport
  have hdisjoint : ∀ e ∈ found, Edit.Disjoint (Edit.ofLiteral l call) e := by
    intro e he
    have hclear := (hadmits e he).clear n hn (Document.literalAt_ok hl).1
    unfold Edit.Disjoint
    omega
  refine ⟨hstart, hstop, fun e he => ⟨hdisjoint e he, fun m hm r hr => ?_⟩, ?_⟩
  · exact (hadmits e he).clear m hm (Document.literalAt_cases hr).1
  · refine Edit.apply_of_disjoint ?_ ?_
    · intro e he
      rcases List.mem_cons.1 he with rfl | he
      · exact hfits
      · exact (hadmits e (Option.mem_toList.1 he)).fits
    · rw [List.pairwise_cons]
      refine ⟨fun e he => hdisjoint e (Option.mem_toList.1 he), ?_⟩
      cases found <;> simp

theorem patch_spliced_paragraph :
    ∃ d l e result, Document.parse (some "a.tsx") "<p>Hi</p>".toList = .ok d ∧
      d.locate "Hi".toList 1 3 = .ok (some l) ∧
      d.ensureImport ⟨"i18n".toList, "t".toList, .named⟩ = .ok (some e) ∧
      Edit.apply "<p>Hi</p>".toList [Edit.ofLiteral l "t(\"hi\")".toList, e] = .ok result := by
  let l : Literal :=
    { kind := .text, value := Points.ofString "Hi", position := ⟨1, 3⟩, span := ⟨3, 5⟩,
      content := ⟨3, 5⟩, inAttribute := false, isKey := false }
  let e : Edit := ⟨0, 0, "import \x7b t \x7d from \"i18n\";\n".toList⟩
  have hfacts : (Document.parse (some "a.tsx") "<p>Hi</p>".toList).toOption.map (fun d =>
      (d.locate "Hi".toList 1 3, d.ensureImport ⟨"i18n".toList, "t".toList, .named⟩)) =
        some (.ok (some l), .ok (some e)) := by
    decide +kernel
  cases hparse : Document.parse (some "a.tsx") "<p>Hi</p>".toList with
  | error f =>
      rw [hparse] at hfacts
      cases hfacts
  | ok d =>
      rw [hparse] at hfacts
      obtain ⟨hlocate, himport⟩ := Prod.mk.inj (Option.some.inj hfacts)
      obtain ⟨-, -, -, result, hresult, -⟩ :=
        patch_spliced (Document.laid_of_parse hparse) hlocate himport "t(\"hi\")".toList
      rw [Document.text_of_parse hparse] at hresult
      exact ⟨d, l, e, result, rfl, hlocate, himport, hresult⟩

end Phrasebook

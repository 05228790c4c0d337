import Phrasebook.Proofs.Finding
import Phrasebook.Proofs.ImportPlace

/-!
The order of candidates. A scan goes through a file in reading order, in which what contains comes
before what it contains. Calls may begin at one character, as in `f(a)(b)`, but only the innermost
of them calls something that has a name: below a chain of member accesses, whatever begins where the
chain does is part of the chain. So candidates stand strictly one after another.
-/

namespace Phrasebook

open Text Source

theorem Source.Node.eq_of_isBranch {n : Node} {kind : Construct} (h : n.isBranch kind = true) :
    ∃ span children, n = .branch kind span children := by
  cases n with
  | branch other span children =>
      obtain rfl : other = kind := by simpa [isBranch] using h
      exact ⟨span, children, rfl⟩
  | _ => cases h

namespace Source.Document

variable {d : Document} {file : List Char} {functions : List (List Char)}

/-! ### Chains -/

/-- A chain of member accesses is not empty. -/
theorem Laid.start_lt_stop_of_chain (hd : d.Laid) {n : Node} (hn : n ∈ d.all)
    (h : n.chain.isSome = true) : n.start < n.stop := by
  fun_induction Node.chain n with
  | case1 start text =>
      have hshown : Shown text := hd.grounded _ hn
      exact Nat.lt_add_of_pos_right (byteLength_pos hshown.1)
  | case2 span object following start text hlast ih =>
      have hobject := ih (child_mem_all hn (List.mem_cons_self ..)) (by simpa using h)
      have hinside := hd.nested _ hn object
          (by simp [Node.children, Node.mem_preorder_self]) hobject
      omega
  | case3 => cases h
  | case4 => cases h

/-- What is in a row after a node that is not empty begins after the node does. -/
theorem Laid.start_lt_of_sibling (hd : d.Laid) {m first n : Node} {following : List Node}
    (hm : m ∈ d.all) (hchildren : m.children = first :: following) (hpos : first.start < first.stop)
    (hn : n ∈ Node.preorderAll following) : m.start < n.start := by
  have hsiblings := hd.siblings m hm
  rw [hchildren, List.pairwise_cons] at hsiblings
  obtain ⟨c, hc, hnc⟩ := Node.mem_preorderAll.1 hn
  have hstop := hsiblings.1 c hc first first.mem_preorder_self n hnc
  have hinside := hd.nested m hm first (by simp [hchildren, Node.mem_preorder_self]) hpos
  omega

/-- Whatever begins where a chain does is part of the chain, and so a chain itself. -/
theorem Laid.chain_or_start_lt (hd : d.Laid) {m n : Node} (hm : m ∈ d.all)
    (h : m.chain.isSome = true) (hn : n ∈ m.preorder) :
    n.chain.isSome = true ∨ m.start < n.start := by
  fun_induction Node.chain m with
  | case1 start text =>
      obtain rfl : n = _ := by simpa using hn
      exact Or.inl rfl
  | case2 span object following start text hlast ih =>
      have hobject := child_mem_all hm (List.mem_cons_self ..)
      have hchain : object.chain.isSome = true := by simpa using h
      have hpos := hd.start_lt_stop_of_chain hobject hchain
      rw [Node.preorder_branch, Node.preorderAll_cons, List.mem_cons, List.mem_append] at hn
      rcases hn with rfl | hn | hn
      · simp only [Node.chain, hlast]
        exact Or.inl h
      · refine (ih hobject hchain hn).imp id fun hlt => ?_
        have hinside := hd.nested _ hm object (by simp [Node.children, Node.mem_preorder_self]) hpos
        omega
      · exact Or.inr (hd.start_lt_of_sibling hm rfl hpos hn)
  | case3 => cases h
  | case4 => cases h

/-! ### Candidates -/

/-- A candidate stands where its node does, which is a run or a call that has a key. -/
theorem candidateAt_cases {n : Node} {c : Candidate}
    (h : d.candidateAt file functions n = .ok (some c)) :
    (c.position = d.position n.start ∧ c.context = strip (lineText d.text c.position.line)) ∧
      ((∃ start raw, n = .run start raw) ∨
        n.isBranch .call = true ∧ (n.localizedKey functions).isSome = true) := by
  unfold candidateAt at h
  split at h
  · next start raw =>
    simp only at h
    split at h
    · obtain ⟨-, hposition, -, hcontext⟩ := candidate_eq_some h
      exact ⟨⟨hposition, hcontext⟩, Or.inl ⟨start, raw, rfl⟩⟩
    · cases h
  · split at h
    · next key hkey =>
      obtain ⟨-, hposition, -, hcontext⟩ := candidate_eq_some h
      exact ⟨⟨hposition, hcontext⟩, Or.inr ⟨rfl, by rw [hkey]; rfl⟩⟩
    · cases h
    · cases h
  · cases h

/-- A call that has a key calls something that has a name. -/
theorem chain_of_localizedKey {n : Node} (h : (n.localizedKey functions).isSome = true) :
    ∃ callee following, n.children = callee :: following ∧ callee.chain.isSome = true := by
  have hcallee : n.callee.isSome = true := by
    unfold Node.localizedKey at h
    split at h
    · next name first hname _ => rw [hname]; rfl
    · cases h
  unfold Node.callee at hcallee
  cases hchildren : n.children with
  | nil => simp [hchildren] at hcallee
  | cons callee following =>
      refine ⟨callee, following, rfl, ?_⟩
      simpa [hchildren, Node.dottedName] using hcallee

/-- A call begins strictly before all that is in it, but for the chain that it calls. -/
theorem Laid.chain_or_start_lt_of_call (hd : d.Laid) {m n : Node} (hm : m ∈ d.all)
    (h : (m.localizedKey functions).isSome = true) (hn : n ∈ Node.preorderAll m.children) :
    n.chain.isSome = true ∨ m.start < n.start := by
  obtain ⟨callee, following, hchildren, hchain⟩ := chain_of_localizedKey h
  have hcallee : callee ∈ d.all := child_mem_all hm (by simp [hchildren])
  have hpos := hd.start_lt_stop_of_chain hcallee hchain
  rw [hchildren, Node.preorderAll_cons, List.mem_append] at hn
  rcases hn with hn | hn
  · refine (hd.chain_or_start_lt hcallee hchain hn).imp id fun hlt => ?_
    have hinside := hd.nested m hm callee (by simp [hchildren, Node.mem_preorder_self]) hpos
    omega
  · exact Or.inr (hd.start_lt_of_sibling hm hchildren hpos hn)

theorem Laid.start_lt_of_candidateAt (hd : d.Laid) {m n : Node} (hm : m ∈ d.all) (hn : n ∈ d.all)
    (hleads : m.Leads n) {a b : Candidate} (ha : d.candidateAt file functions m = .ok (some a))
    (hb : d.candidateAt file functions n = .ok (some b)) : m.start < n.start := by
  obtain ⟨-, hm'⟩ := candidateAt_cases ha
  obtain ⟨-, hn'⟩ := candidateAt_cases hb
  -- neither a run nor a call is a chain
  have hchain : n.chain.isSome = false := by
    rcases hn' with ⟨start, raw, rfl⟩ | ⟨hcall, -⟩
    · rfl
    · obtain ⟨span, children, rfl⟩ := Node.eq_of_isBranch hcall
      rfl
  rcases hm' with ⟨start, raw, rfl⟩ | ⟨-, hkey⟩
  · have hpos := (hd.grounded _ hm).start_lt_stop rfl
    rcases hleads with hstop | hmem
    · omega
    · simp [Node.children] at hmem
  · rcases hleads with hstop | hmem
    · obtain ⟨callee, following, hchildren, hcallee⟩ := chain_of_localizedKey hkey
      have hpos := hd.start_lt_stop_of_chain (child_mem_all hm (by simp [hchildren])) hcallee
      have hinside := hd.nested m hm callee (by simp [hchildren, Node.mem_preorder_self]) hpos
      omega
    · refine (hd.chain_or_start_lt_of_call hm hkey hmem).resolve_left ?_
      rw [hchain]
      exact Bool.false_ne_true

theorem candidates_eq_filterMap {cs : List Candidate} (h : d.candidates file functions = .ok cs) :
    cs = d.all.filterMap fun n => (d.candidateAt file functions n).toOption.join := by
  obtain ⟨found, hfound, rfl⟩ := candidates_eq_ok.1 h
  clear h
  generalize d.all = ns at hfound ⊢
  induction hfound with
  | nil => rfl
  | @cons n c ns found hn _ ih =>
      rw [List.filterMap_cons, List.filterMap_cons, hn, ih]
      rfl

theorem Laid.candidates_before (hd : d.Laid) {cs : List Candidate}
    (h : d.candidates file functions = .ok cs) :
    cs.Pairwise fun a b => a.position.Before b.position := by
  have hsome : ∀ {n c}, (d.candidateAt file functions n).toOption.join = some c →
      d.candidateAt file functions n = .ok (some c) := by
    intro n c hc
    cases hat : d.candidateAt file functions n with
    | error f =>
        rw [hat] at hc
        cases hc
    | ok found =>
        rw [hat] at hc
        exact congrArg Except.ok hc
  rw [candidates_eq_filterMap h, List.pairwise_filterMap]
  refine (List.Pairwise.and_mem.1 hd.leads).imp ?_
  rintro m n ⟨hm, hn, hleads⟩ a ha b hb
  have hlt := hd.start_lt_of_candidateAt hm hn hleads (hsome ha) (hsome hb)
  rw [(candidateAt_cases (hsome ha)).1.1, (candidateAt_cases (hsome hb)).1.1]
  exact hd.before_of_start_lt hm hn hlt

end Source.Document

/-- The candidates of a file, plain and localized together, are in the order of their lines and
columns, and no two are at the same place. All that is asked of the reading of the file is that its
tree fits the text. -/
theorem candidates_in_order {d : Document} (hd : d.Laid) {file : List Char}
    {functions : List (List Char)} {cs : List Candidate}
    (hcandidates : d.candidates file functions = .ok cs) :
    (cs.map Candidate.position).Pairwise Position.Before ∧ (cs.map Candidate.position).Nodup := by
  have hordered : (cs.map Candidate.position).Pairwise Position.Before :=
    List.pairwise_map.2 (hd.candidates_before hcandidates)
  exact ⟨hordered, hordered.imp Position.Before.ne⟩

/-- Two calls begin at the first character, of which the inner one is a candidate; so is the text
in the other. -/
theorem candidates_in_order_curried :
    ∃ cs, scanText "t(\"a\")(<p>B</p>)".toList "a.tsx".toList defaultFunctions = .ok cs ∧
      cs.map Candidate.position = [⟨1, 0⟩, ⟨1, 10⟩] ∧
      (cs.map Candidate.position).Pairwise Position.Before := by
  have hpositions : (scanText "t(\"a\")(<p>B</p>)".toList "a.tsx".toList
      defaultFunctions).toOption.map (·.map Candidate.position) = some [⟨1, 0⟩, ⟨1, 10⟩] := by
    decide +kernel
  cases hscan : scanText "t(\"a\")(<p>B</p>)".toList "a.tsx".toList defaultFunctions with
  | error f =>
      rw [hscan] at hpositions
      cases hpositions
  | ok cs =>
      rw [hscan] at hpositions
      obtain ⟨d, -, hd, hcandidates⟩ := Document.exists_laid_of_scanText hscan
      exact ⟨cs, rfl, Option.some.inj hpositions, (candidates_in_order hd hcandidates).1⟩

end Phrasebook

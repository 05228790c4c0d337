import Phrasebook.Proofs.CodePoint
import Phrasebook.Proofs.Locate
import Phrasebook.Proofs.Sketch

/-!
What a scan finds does not depend on where it stands. The text of a candidate, whether it is
localized and its key follow from the sketch of its node, and so does whether the node can be
scanned at all.
-/

namespace Phrasebook

open Text Source

/-- What a candidate says, without where it stands. -/
structure Finding where
  text : Points
  localized : Bool
  keyPath : Option Points
  deriving DecidableEq, Repr

def Candidate.finding (c : Candidate) : Finding := ⟨c.text, c.localized, c.keyPath⟩

namespace Source.Node

/-! ### Keys -/

theorem sketch_eq_leaf {n : Node} {kind : Leaf} {start : Nat} {text : List Char}
    (h : n.sketch = leaf kind start text) : ∃ s, n = leaf kind s text := by
  cases n with
  | leaf kind' s text' =>
    rw [sketch_leaf] at h
    cases h
    exact ⟨s, rfl⟩
  | run s text' => simp at h
  | branch kind' span children => simp [sketch_branch] at h

theorem chain_sketch (n : Node) : n.sketch.chain = n.chain := by
  fun_induction chain n with
  | case1 => simp [chain]
  | case2 span object following start text hlast ih =>
    simp [chain, sketch_branch, hlast, ih]
  | case3 span object following hlast =>
    simp only [sketch_branch, reduceCtorEq, or_self, if_false, List.map_cons, chain,
      List.getLast?_map]
    split
    · next start text hsketch =>
      obtain ⟨m, hm, hleaf⟩ := Option.map_eq_some_iff.1 hsketch
      obtain ⟨s, rfl⟩ := sketch_eq_leaf hleaf
      exact absurd hm (hlast s text)
    · rfl
  | case4 n hname hmember =>
    cases n with
    | leaf kind start text => cases kind <;> simp_all [chain]
    | run start text => simp [chain]
    | branch kind span children =>
      cases children with
      | nil => cases kind <;> simp [sketch_branch, chain]
      | cons object following => cases kind <;> simp_all [sketch_branch, chain]

theorem callee_sketch (span : Span) (children : List Node) :
    (branch .call span children).sketch.callee = (branch .call span children).callee := by
  simp only [sketch_branch, reduceCtorEq, or_self, if_false, callee, Node.children, List.head?_map,
    Option.bind_map]
  congr 1
  funext n
  simp [dottedName, chain_sketch]

theorem firstArgument_sketch (span : Span) (children : List Node) :
    (branch .call span children).sketch.firstArgument =
      (branch .call span children).firstArgument.map sketch := by
  simp only [sketch_branch, reduceCtorEq, or_self, if_false, firstArgument, Node.children,
    List.getLast?_map]
  cases children.getLast? with
  | none => rfl
  | some last =>
    cases last with
    | leaf kind start text => rfl
    | run start text => rfl
    | branch kind span parts => cases kind <;> simp [sketch_branch]

theorem isSubstitution_sketch (n : Node) : n.sketch.isSubstitution = n.isSubstitution := by
  cases n <;> simp [isSubstitution, isBranch, sketch_branch]

theorem text_sketch (n : Node) : n.sketch.text = n.text := by
  cases n <;> simp [text, sketch_branch]

theorem templateValue_sketch (parts : List Node) :
    templateValue (parts.map sketch) = templateValue parts := by
  simp [templateValue, List.flatMap_map, text_sketch]

theorem entryKey_sketch (n : Node) : n.sketch.entryKey = n.entryKey := by
  fun_cases entryKey n with
  | case1 span start key following place s raw hlast hid =>
    simp_all [entryKey, sketch_branch]
  | case2 span start key following place s raw hlast hid =>
    simp_all [entryKey, sketch_branch]
  | case3 span start key following hlast =>
    simp only [sketch_branch, reduceCtorEq, or_self, if_false, List.map_cons, sketch_leaf, entryKey,
      List.getLast?_map]
    split
    · next place s raw hsketch =>
      obtain ⟨m, hm, hleaf⟩ := Option.map_eq_some_iff.1 hsketch
      obtain ⟨s', rfl⟩ := sketch_eq_leaf hleaf
      exact absurd hm (hlast place s' raw)
    · rfl
  | case4 _ hpair =>
    cases n with
    | leaf kind start text => simp [entryKey]
    | run start text => simp [entryKey]
    | branch kind span children =>
      unfold entryKey
      split
      · next span' start key following hsketch =>
        rw [sketch_branch] at hsketch
        obtain ⟨rfl, -, hchildren⟩ := Node.branch.inj hsketch
        obtain ⟨first, rest, rfl, hfirst, -⟩ := List.map_eq_cons_iff.1 hchildren
        obtain ⟨s, rfl⟩ := sketch_eq_leaf hfirst
        exact absurd rfl (hpair span s key rest)
      · rfl

theorem descriptorKey_sketch (entries : List Node) :
    descriptorKey (entries.map sketch) = descriptorKey entries := by
  have hentry : entryKey ∘ sketch = entryKey := funext entryKey_sketch
  rw [descriptorKey, descriptorKey, List.findSome?_map, hentry]

theorem localizedKey_sketch (functions : List (List Char)) (span : Span) (children : List Node) :
    (branch .call span children).sketch.localizedKey functions =
      (branch .call span children).localizedKey functions := by
  rw [localizedKey, localizedKey, callee_sketch, firstArgument_sketch]
  cases (branch .call span children).callee with
  | none => rfl
  | some name =>
    cases (branch .call span children).firstArgument with
    | none => rfl
    | some first =>
      cases first with
      | leaf kind start text => cases kind <;> simp
      | run start text => simp
      | branch kind span parts =>
        cases kind <;> simp [sketch_branch, templateValue_sketch, descriptorKey_sketch,
          isSubstitution_sketch]

/-! ### What a node gives -/

def finding (text : Points) (localized : Bool) (keyPath : Option Points) : Option Finding :=
  if (Points.strip text).isEmpty then none else some ⟨Points.strip text, localized, keyPath⟩

def finding? (functions : List (List Char)) : Node → Except Escape.Fault (Option Finding)
  | run _ raw =>
      let value := Points.strip (Points.ofChars (CharacterReference.decode raw))
      .ok (if Document.isOneLine value then finding value false none else none)
  | branch .call span children =>
      match (branch .call span children).localizedKey functions with
      | some key => key.map fun key => finding key true (some key)
      | none => .ok none
  | _ => .ok none

theorem finding?_sketch (functions : List (List Char)) (n : Node) :
    n.sketch.finding? functions = n.finding? functions := by
  cases n with
  | leaf kind start text => simp [finding?]
  | run start text => simp [finding?]
  | branch kind span children =>
    by_cases hcall : kind = .call
    · subst hcall
      have hkey := localizedKey_sketch functions span children
      rw [sketch_branch] at hkey ⊢
      simp only [finding?, hkey]
    · rw [sketch_branch]
      cases kind <;> simp_all [finding?]

/-- A node gives something that can be hashed, or nothing. -/
structure Yields (functions : List (List Char)) (n : Node) (f : Option Finding) : Prop where
  finding_eq : n.finding? functions = .ok f
  clean : ∀ x ∈ f, ∀ p ∈ x.text, p.toChar?.isSome = true

theorem yields_none {functions : List (List Char)} {n : Node}
    (h : n.finding? functions = .ok none) : n.Yields functions none :=
  ⟨h, fun x hx => by cases hx⟩

theorem yields_sketch {functions : List (List Char)} {n : Node} {f : Option Finding} :
    n.sketch.Yields functions f ↔ n.Yields functions f :=
  ⟨fun h => ⟨finding?_sketch functions n ▸ h.finding_eq, h.clean⟩,
    fun h => ⟨(finding?_sketch functions n).trans h.finding_eq, h.clean⟩⟩

end Source.Node

namespace Source.Document

variable (d : Document) (file : List Char) {functions : List (List Char)}

theorem identity_isOk (text : Points) (file : List Char) (line column : Int) (localized : Bool) :
    (∃ id, Candidate.identity text file line column localized = .ok id) ↔
      ∀ p ∈ text, p.toChar?.isSome = true := by
  have hpayload : (Candidate.payload text file line column localized).toChars?.isSome = true ↔
      ∀ p ∈ text, p.toChar?.isSome = true := by
    rw [Points.toChars?_isSome]
    simp only [Candidate.payload, Points.ofString, List.mem_append]
    exact ⟨fun h p hp => h p (by simp [hp]), fun h p hp => by
      rcases hp with ((hp | hp) | hp) | hp
      · exact h p hp
      all_goals exact Points.isSome_of_mem_ofChars hp⟩
  rw [← hpayload, Candidate.identity]
  cases (Candidate.payload text file line column localized).toChars? with
  | none => simp
  | some cs => simp

theorem candidate_finding {offset : Nat} {text : Points} {localized : Bool}
    {keyPath : Option Points} {f : Option Finding} :
    (∃ c, d.candidate file offset text localized keyPath = .ok c ∧
        c.map Candidate.finding = f) ↔
      Node.finding text localized keyPath = f ∧
        ∀ x ∈ f, ∀ p ∈ x.text, p.toChar?.isSome = true := by
  simp only [candidate, Node.finding]
  by_cases hblank : (Points.strip text).isEmpty = true
  · simp only [hblank, if_true]
    constructor
    · rintro ⟨c, hc, rfl⟩
      cases hc
      simp
    · rintro ⟨rfl, -⟩
      exact ⟨none, rfl, rfl⟩
  · simp only [hblank]
    have hid := identity_isOk (Points.strip text) file (d.position offset).line
      (d.position offset).column localized
    cases hidentity : Candidate.identity (Points.strip text) file (d.position offset).line
      (d.position offset).column localized with
    | error e =>
      simp only [hidentity] at hid ⊢
      constructor
      · rintro ⟨c, hc, -⟩
        cases hc
      · rintro ⟨rfl, hclean⟩
        obtain ⟨id, hok⟩ := hid.2 (hclean _ rfl)
        cases hok
    | ok id =>
      simp only [hidentity] at hid ⊢
      constructor
      · rintro ⟨c, hc, rfl⟩
        cases hc
        refine ⟨rfl, ?_⟩
        rintro x hx
        cases hx
        exact hid.1 ⟨id, rfl⟩
      · rintro ⟨rfl, -⟩
        exact ⟨_, rfl, rfl⟩

/-- A node can be scanned if what it gives can be hashed. -/
theorem candidateAt_finding {n : Node} {f : Option Finding} :
    (∃ c, d.candidateAt file functions n = .ok c ∧ c.map Candidate.finding = f) ↔
      n.Yields functions f := by
  have hnone : (∃ c : Option Candidate, (Except.ok none : Except Candidate.Fault _) = .ok c ∧
      c.map Candidate.finding = f) ↔ none = f := by
    constructor
    · rintro ⟨c, hc, rfl⟩
      cases hc
      rfl
    · rintro rfl
      exact ⟨none, rfl, rfl⟩
  have hclean : none = f → ∀ x ∈ f, ∀ p ∈ x.text, p.toChar?.isSome = true := by
    rintro rfl x hx
    cases hx
  have hsilent {n : Node} (hat : d.candidateAt file functions n = .ok none)
      (hfinding : n.finding? functions = .ok none) :
      (∃ c, d.candidateAt file functions n = .ok c ∧ c.map Candidate.finding = f) ↔
        n.Yields functions f := by
    rw [hat, hnone]
    exact ⟨fun h => ⟨hfinding.trans (by rw [h]), hclean h⟩,
      fun h => Except.ok.inj (hfinding.symm.trans h.finding_eq)⟩
  cases n with
  | leaf kind start text => exact hsilent rfl rfl
  | run start raw =>
    have hvalue : Points.strip (d.runLiteral start raw).value =
        Points.strip (Points.ofChars (CharacterReference.decode raw)) := rfl
    by_cases hline :
        isOneLine (Points.strip (Points.ofChars (CharacterReference.decode raw))) = true
    · simp only [candidateAt, hvalue, hline, if_true]
      rw [candidate_finding]
      exact ⟨fun h => ⟨by simp [Node.finding?, hline, h.1], h.2⟩,
        fun h => ⟨by simpa [Node.finding?, hline] using h.finding_eq, h.clean⟩⟩
    · exact hsilent (by simp [candidateAt, hvalue, hline]) (by simp [Node.finding?, hline])
  | branch kind span children =>
    by_cases hcall : kind = .call
    · subst hcall
      cases hkey : (Node.branch .call span children).localizedKey functions with
      | none => exact hsilent (by simp [candidateAt, hkey]) (by simp [Node.finding?, hkey])
      | some key =>
        cases key with
        | error e =>
          have hat : d.candidateAt file functions (.branch .call span children) =
              .error (.escape e) := by
            simp [candidateAt, hkey]
          have hfinding : (Node.branch .call span children).finding? functions = .error e := by
            simp [Node.finding?, hkey, Except.map]
          constructor
          · rintro ⟨c, hc, -⟩
            rw [hat] at hc
            cases hc
          · intro h
            have hok := h.finding_eq
            rw [hfinding] at hok
            cases hok
        | ok key =>
          have hat : d.candidateAt file functions (.branch .call span children) =
              d.candidate file span.start key true (some key) := by
            simp [candidateAt, hkey]
          have hfinding : (Node.branch .call span children).finding? functions =
              .ok (Node.finding key true (some key)) := by
            simp [Node.finding?, hkey, Except.map]
          rw [hat, candidate_finding]
          exact ⟨fun h => ⟨by rw [hfinding, h.1], h.2⟩,
            fun h => ⟨Except.ok.inj (hfinding.symm.trans h.finding_eq), h.clean⟩⟩
    · exact hsilent (by cases kind <;> simp_all [candidateAt])
        (by cases kind <;> simp_all [Node.finding?])

theorem forall₂_finding {ns : List Node} {found : List (Option Finding)} :
    (∃ cs, List.Forall₂ (fun n c => d.candidateAt file functions n = .ok c) ns cs ∧
        cs.map (Option.map Candidate.finding) = found) ↔
      List.Forall₂ (Node.Yields functions) ns found := by
  constructor
  · rintro ⟨cs, hcs, rfl⟩
    rw [List.forall₂_map_right_iff]
    exact hcs.imp fun n c h => (candidateAt_finding d file).1 ⟨c, h, rfl⟩
  · intro h
    induction h with
    | nil => exact ⟨[], .nil, rfl⟩
    | cons hn _ ih =>
      obtain ⟨c, hc, rfl⟩ := (candidateAt_finding d file).2 hn
      obtain ⟨cs, hcs, rfl⟩ := ih
      exact ⟨c :: cs, .cons hc hcs, rfl⟩

theorem filterMap_finding (cs : List (Option Candidate)) :
    (cs.map (Option.map Candidate.finding)).filterMap id =
      (cs.filterMap id).map Candidate.finding := by
  simp [List.map_filterMap, List.filterMap_map]

/-- A scan finds what the nodes of the file give. -/
theorem candidates_of_yields {found : List (Option Finding)}
    (h : List.Forall₂ (Node.Yields functions) d.all found) :
    ∃ cs, d.candidates file functions = .ok cs ∧
      cs.map Candidate.finding = found.filterMap id := by
  obtain ⟨cs, hcs, rfl⟩ := (forall₂_finding d file).2 h
  exact ⟨cs.filterMap id, candidates_eq_ok.2 ⟨cs, hcs, rfl⟩, (filterMap_finding cs).symm⟩

end Source.Document

end Phrasebook

import Phrasebook.Proofs.Decoding
import Phrasebook.Proofs.Finding

/-!
Which files can be scanned. A file that parses gives its candidates unless the key of a translation
call has an escape that stands for no character. Neither markup text nor any other literal can stop
the scan.
-/

namespace Phrasebook

open Text Source

namespace Source.Node

/-! ### The literal that is the key of a call -/

def entryLiteral? : Node → Option Node
  | branch .pair _ (leaf .property _ key :: following) =>
      match following.getLast? with
      | some (leaf (.string place) start raw) =>
          if key == "id".toList then some (leaf (.string place) start raw) else none
      | _ => none
  | _ => none

def keyLiteral? (functions : List (List Char)) (call : Node) : Option Node :=
  match call.callee, call.firstArgument with
  | some name, some first =>
      if name.isEmpty || !functions.contains name then none
      else match first with
        | leaf (.string place) start raw => some (leaf (.string place) start raw)
        | branch .template span parts =>
            if parts.any isSubstitution then none else some (branch .template span parts)
        | branch .object _ entries => entries.findSome? entryLiteral?
        | _ => none
  | _, _ => none

theorem entryKey_eq (n : Node) : n.entryKey = n.entryLiteral?.map literalValue := by
  fun_cases entryLiteral? n <;> simp_all [entryKey, literalValue]

theorem descriptorKey_eq (entries : List Node) :
    descriptorKey entries = (entries.findSome? entryLiteral?).map literalValue := by
  rw [descriptorKey, List.map_findSome?]
  congr 1
  funext n
  exact entryKey_eq n

theorem localizedKey_eq (functions : List (List Char)) (call : Node) :
    call.localizedKey functions = (call.keyLiteral? functions).map literalValue := by
  fun_cases keyLiteral? functions call <;>
    simp_all [localizedKey, literalValue, descriptorKey_eq]

/-! ### Nodes that can be scanned -/

open Escape

/-- Trimming takes away no surrogate. -/
theorem strip_clean (key : Points) :
    (∀ p ∈ Points.strip key, p.toChar?.isSome = true) ↔ ∀ p ∈ key, p.toChar?.isSome = true := by
  refine forall_mem_trim _ (fun p hspace => ?_) key
  rw [CodePoint.isSome_toChar?]
  simp only [isSpaceCode, Nat.isValidChar, Bool.or_eq_true, Bool.and_eq_true, decide_eq_true_eq,
    beq_iff_eq] at hspace ⊢
  omega

theorem names_char (n : Nat) :
    Names (fun p => p.toChar?.isSome = true) n ↔ n.isValidChar := by
  constructor
  · rintro ⟨h, hchar⟩
    exact CodePoint.isSome_toChar?.1 hchar
  · intro h
    have hlt : n < 0x110000 := by
      simp only [Nat.isValidChar] at h
      omega
    exact ⟨hlt, CodePoint.isSome_toChar?.2 h⟩

theorem finding_clean (text : Points) (localized : Bool) (keyPath : Option Points) :
    (∀ x ∈ finding text localized keyPath, ∀ p ∈ x.text, p.toChar?.isSome = true) ↔
      ∀ p ∈ text, p.toChar?.isSome = true := by
  rw [← strip_clean text, finding]
  cases Points.strip text with
  | nil => simp
  | cons p text => simp

/-- The key of a call has no escape but for characters. -/
def KeyClean (functions : List (List Char)) (n : Node) : Prop :=
  n.isBranch .call = true →
    ∀ key ∈ n.keyLiteral? functions, ∀ number ∈ key.escapes, number.isValidChar

theorem exists_yields_call {functions : List (List Char)} {n key : Node} {span : Span}
    {children : List Node} (hn : n = branch .call span children)
    (hkey : n.keyLiteral? functions = some key) :
    (∃ f, n.Yields functions f) ↔ ∀ number ∈ key.escapes, number.isValidChar := by
  have hfinding : n.finding? functions =
      key.literalValue.map fun value => finding value true (some value) := by
    have hlocalized := localizedKey_eq functions n
    rw [hkey, hn] at hlocalized
    rw [hn, finding?, hlocalized]
    rfl
  have hdecodes : DecodesTo (fun p => p.toChar?.isSome = true) key.literalValue ↔
      ∀ number ∈ key.escapes, number.isValidChar := by
    simp only [← names_char]
    exact decodesTo_literalValue (fun c => by rw [CodePoint.toChar?_ofChar]; rfl) key
  rw [← hdecodes]
  constructor
  · rintro ⟨f, hf, hclean⟩
    rw [hfinding] at hf
    cases hvalue : key.literalValue with
    | error e => rw [hvalue] at hf; cases hf
    | ok value =>
      rw [hvalue] at hf
      obtain rfl := Except.ok.inj hf
      exact ⟨value, rfl, (finding_clean _ _ _).1 hclean⟩
  · rintro ⟨value, hvalue, hclean⟩
    exact ⟨_, by rw [hfinding, hvalue]; rfl, (finding_clean _ _ _).2 hclean⟩

/-- A node can be scanned unless it is a call whose key has an escape for no character. -/
theorem exists_yields {functions : List (List Char)} (n : Node) :
    (∃ f, n.Yields functions f) ↔ n.KeyClean functions := by
  have hsilent (hfinding : n.finding? functions = .ok none)
      (hclean : n.KeyClean functions) : (∃ f, n.Yields functions f) ↔ n.KeyClean functions :=
    iff_of_true ⟨none, yields_none hfinding⟩ hclean
  cases n with
  | leaf kind start text => exact hsilent rfl (fun h => by cases h)
  | run start raw =>
    refine iff_of_true ?_ (fun h => by cases h)
    -- Character references stand for characters, and so does all other text of a run.
    have hchars : ∀ p ∈ Points.strip (Points.ofChars (CharacterReference.decode raw)),
        p.toChar?.isSome = true :=
      (strip_clean _).2 fun p hp => Points.isSome_of_mem_ofChars hp
    refine ⟨_, rfl, ?_⟩
    split
    · exact (finding_clean _ _ _).2 hchars
    · simp
  | branch kind span children =>
    by_cases hcall : kind = .call
    · subst hcall
      cases hkey : (branch .call span children).keyLiteral? functions with
      | none =>
        refine hsilent ?_ (fun _ key h => by rw [hkey] at h; cases h)
        rw [finding?, localizedKey_eq, hkey]
        rfl
      | some key =>
        rw [exists_yields_call rfl hkey, KeyClean, hkey]
        simp [isBranch]
    · refine hsilent ?_ (fun h => by simp [isBranch, hcall] at h)
      cases kind <;> simp_all [finding?]

end Source.Node

/-! ### Files that can be scanned -/

namespace Source.Document

/-- A document gives candidates exactly if each of its calls has a key that can be hashed, or
none. -/
theorem exists_candidates (d : Document) (file : List Char) (functions : List (List Char)) :
    (∃ cs, d.candidates file functions = .ok cs) ↔ ∀ n ∈ d.all, n.KeyClean functions := by
  have hnode (n : Node) : (∃ c, d.candidateAt file functions n = .ok c) ↔
      n.KeyClean functions := by
    rw [← Node.exists_yields]
    constructor
    · rintro ⟨c, hc⟩
      exact ⟨_, (candidateAt_finding d file).1 ⟨c, hc, rfl⟩⟩
    · rintro ⟨f, hf⟩
      obtain ⟨c, hc, -⟩ := (candidateAt_finding d file).2 hf
      exact ⟨c, hc⟩
  simp only [← hnode, ← exists_mapM_eq_ok, candidates]
  cases d.all.mapM (d.candidateAt file functions) with
  | error f => simp [Except.map]
  | ok found => simp [Except.map]

end Source.Document

/-- A scan is refused for its syntax exactly if the text does not parse. A text that parses gives
its candidates exactly if no key of a call to one of the functions has an escape for a surrogate
or for a number above the last code point; what stands in markup or in any other literal never
matters. -/
theorem scanText_keeps_parsed (text file : List Char) (functions : List (List Char)) :
    (∀ e, scanText text file functions = .error (.malformed e) ↔
      Document.parse (some (String.ofList file)) text = .error e) ∧
    ((∃ cs, scanText text file functions = .ok cs) ↔
      ∃ d, Document.parse (some (String.ofList file)) text = .ok d ∧
        ∀ call ∈ d.all, call.isBranch .call = true →
          ∀ key ∈ call.keyLiteral? functions, ∀ n ∈ key.escapes, n.isValidChar) := by
  unfold scanText
  cases Document.parse (some (String.ofList file)) text with
  | error e => simp
  | ok d =>
    have hcandidates := d.exists_candidates file functions
    constructor
    · intro e
      have hsyntax : (d.candidates file functions).mapError .candidate ≠
          .error (ScanFault.malformed e) := by
        cases d.candidates file functions with
        | error f => simp
        | ok cs => simp
      exact iff_of_false hsyntax (by simp)
    · simp only [mapError_eq_ok]
      constructor
      · intro h
        exact ⟨d, rfl, hcandidates.1 h⟩
      · rintro ⟨d', hd, hclean⟩
        obtain rfl := Except.ok.inj hd
        exact hcandidates.2 hclean

/-- The two halves of a surrogate pair make a character only together, but they are decoded one by
one: a call whose key is written with them parses and cannot be scanned. -/
theorem scanText_surrogate_pair :
    (Document.parse (some "a.tsx") "t(\"\\uD83D\\uDE00\")".toList).isOk = true ∧
      scanText "t(\"\\uD83D\\uDE00\")".toList "a.tsx".toList defaultFunctions =
        .error (.candidate (.surrogate
          ([0xd83d, 0xde00] ++ Points.ofString "-a.tsx-1-0-localized") 0 2)) :=
  ⟨by decide +kernel, by decide +kernel⟩

end Phrasebook

import Phrasebook.Edit
import Phrasebook.Proofs.Utf8

/-!
Making edits. Edits that begin and end between characters, no two of which overlap, can be made
together: the text stays as it is outside of them, and each replaces what it covers.
-/

namespace Phrasebook

open Text Source

namespace Edit

/-- A text, from an offset on, before and after edits in order: what lies between the edits stays,
and what an edit covers is replaced. -/
inductive Spliced : Nat → List Edit → List Char → List Char → Prop
  | nil {offset : Nat} {text : List Char} : Spliced offset [] text text
  | cons {offset : Nat} {e : Edit} {edits : List Edit} {kept old rest result : List Char}
      (start : e.start = (offset + byteLength kept : Nat))
      (stop : e.stop = (offset + byteLength kept + byteLength old : Nat))
      (later : Spliced (offset + byteLength kept + byteLength old) edits rest result) :
      Spliced offset (e :: edits) (kept ++ old ++ rest) (kept ++ e.replacement ++ result)

def Fits (text : List Char) (e : Edit) : Prop :=
  ∃ before old after, text = before ++ old ++ after ∧ e.start = byteLength before ∧
    e.stop = (byteLength before + byteLength old : Nat)

def Disjoint (a b : Edit) : Prop := a.stop ≤ b.start ∨ b.stop ≤ a.start

theorem Disjoint.symm {a b : Edit} (h : Disjoint a b) : Disjoint b a := Or.symm h

theorem Fits.start_le_stop {text : List Char} {e : Edit} (h : Fits text e) : e.start ≤ e.stop := by
  obtain ⟨before, old, after, -, hstart, hstop⟩ := h
  omega

/-! ### Splicing bytes -/

theorem place_of_le {length n : Nat} (h : n ≤ length) : place length n = n := by
  rw [place, if_neg (by omega), Int.toNat_natCast, Nat.min_eq_left h]

theorem between_encode (a b c : List Char) :
    between (Utf8.encode (a ++ b ++ c)) (byteLength a) (byteLength a + byteLength b : Nat) =
      Utf8.encode b := by
  have hlength : byteLength a + byteLength b ≤ (Utf8.encode (a ++ b ++ c)).length := by
    rw [Utf8.length_encode, byteLength_append, byteLength_append]
    omega
  have hfirst : byteLength a ≤ (Utf8.encode (a ++ b ++ c)).length := by omega
  rw [between, place_of_le hfirst, place_of_le hlength, Utf8.encode_append, Utf8.encode_append,
    List.append_assoc, List.drop_left' (Utf8.length_encode a), Nat.add_sub_cancel_left,
    List.take_left' (Utf8.length_encode b)]

theorem spliceFrom_of_spliced {offset : Nat} {edits : List Edit} {text result : List Char}
    (h : Spliced offset edits text result) (before : List Char)
    (hbefore : byteLength before = offset) :
    spliceFrom (Utf8.encode (before ++ text)) offset edits = Utf8.encode result := by
  induction h generalizing before with
  | @nil offset text =>
      have hwhole := between_encode before text []
      rw [List.append_nil] at hwhole
      rw [spliceFrom, ← hwhole, Utf8.length_encode, byteLength_append, hbefore]
  | @cons offset e edits kept old rest result start stop later ih =>
      have hkept := between_encode before kept (old ++ rest)
      have hlater := ih (before ++ kept ++ old) (by
        rw [byteLength_append, byteLength_append, hbefore])
      simp only [List.append_assoc] at hkept hlater ⊢
      rw [hbefore] at hkept
      rw [spliceFrom, start, stop, hkept, hlater, Utf8.encode_append, Utf8.encode_append]
      exact List.append_assoc _ _ _

theorem overlapping_of_spliced {offset : Nat} {edits : List Edit} {text result : List Char}
    (h : Spliced offset edits text result) : overlapping edits = false := by
  induction h with
  | nil => rfl
  | cons start stop later ih =>
      cases later with
      | nil => rfl
      | cons start' stop' later' =>
          rw [overlapping, ih, start', stop, Bool.or_false, decide_eq_false_iff_not]
          omega

theorem apply_of_spliced {edits : List Edit} {text result : List Char}
    (h : Spliced 0 (ordered edits) text result) : apply text edits = .ok result := by
  have hbytes := spliceFrom_of_spliced h [] rfl
  rw [List.nil_append] at hbytes
  rw [apply, overlapping_of_spliced h]
  simp only [Bool.false_eq_true, if_false]
  rw [show (0 : Int) = (0 : Nat) from rfl, hbytes, Utf8.decode_encode]

/-! ### Edits in order -/

theorem eq_append_of_byteLength_le {a b a' b' : List Char} (h : a ++ b = a' ++ b')
    (hle : byteLength a ≤ byteLength a') : ∃ x, a' = a ++ x ∧ b = x ++ b' := by
  rcases List.append_eq_append_iff.1 h with ⟨x, hx, hb⟩ | ⟨x, hx, hb⟩
  · exact ⟨x, hx, hb⟩
  · cases x with
    | nil => exact ⟨[], by simpa using hx.symm, by simpa using hb.symm⟩
    | cons c x =>
        have hc := c.utf8Size_pos
        rw [hx, byteLength_append, byteLength_cons] at hle
        omega

/-- Edits one after another can be spliced in. -/
theorem exists_spliced {text : List Char} {edits : List Edit}
    (hfits : ∀ e ∈ edits, Fits text e) (hchain : edits.Pairwise fun a b => a.stop ≤ b.start)
    (before rest : List Char) (htext : text = before ++ rest)
    (hfirst : ∀ e ∈ edits, (byteLength before : Int) ≤ e.start) :
    ∃ result, Spliced (byteLength before) edits rest result := by
  induction edits generalizing before rest with
  | nil => exact ⟨rest, .nil⟩
  | cons e edits ih =>
      obtain ⟨front, old, after, htext', hstart, hstop⟩ := hfits e (by simp)
      have hle := hfirst e (by simp)
      obtain ⟨kept, rfl, hrest⟩ := eq_append_of_byteLength_le (htext.symm.trans
        (htext'.trans (List.append_assoc front old after))) (by omega)
      rw [List.pairwise_cons] at hchain
      obtain ⟨result, hresult⟩ := ih (fun f hf => hfits f (by simp [hf])) hchain.2 _ _ htext'
        (fun f hf => by
          have hstart' := hchain.1 f hf
          rw [byteLength_append]
          omega)
      rw [byteLength_append] at hresult hstart hstop
      rw [byteLength_append] at hresult
      rw [hrest, ← List.append_assoc]
      exact ⟨_, .cons hstart hstop hresult⟩

theorem precedes_trans (a b c : Edit) (h : precedes a b = true) (k : precedes b c = true) :
    precedes a c = true := by
  simp only [precedes, Bool.or_eq_true, Bool.and_eq_true, decide_eq_true_eq, beq_iff_eq] at *
  omega

theorem precedes_total (a b : Edit) : (precedes a b || precedes b a) = true := by
  simp only [precedes, Bool.or_eq_true, Bool.and_eq_true, decide_eq_true_eq, beq_iff_eq]
  omega

/-- Of disjoint edits in order, the first ends before the second begins. -/
theorem Disjoint.stop_le {text : List Char} {a b : Edit} (h : Disjoint a b) (ha : Fits text a)
    (hb : Fits text b) (hprecedes : precedes a b = true) : a.stop ≤ b.start := by
  have hale := ha.start_le_stop
  have hble := hb.start_le_stop
  simp only [precedes, Bool.or_eq_true, Bool.and_eq_true, decide_eq_true_eq, beq_iff_eq]
    at hprecedes
  rcases h with h | h <;> omega

/-- Disjoint edits between characters are made, and nothing else is. -/
theorem apply_of_disjoint {text : List Char} {edits : List Edit}
    (hfits : ∀ e ∈ edits, Fits text e) (hdisjoint : edits.Pairwise Disjoint) :
    ∃ result, apply text edits = .ok result ∧ Spliced 0 (ordered edits) text result := by
  have hperm : (ordered edits).Perm edits := List.mergeSort_perm edits precedes
  have hfits' : ∀ e ∈ ordered edits, Fits text e := fun e he => hfits e (hperm.mem_iff.1 he)
  have hsorted : (ordered edits).Pairwise fun a b => precedes a b = true :=
    List.pairwise_mergeSort precedes_trans precedes_total edits
  have hapart : (ordered edits).Pairwise Disjoint :=
    hdisjoint.perm hperm.symm fun h => h.symm
  have hchain : (ordered edits).Pairwise fun a b => a.stop ≤ b.start := by
    refine (List.Pairwise.and_mem.1 (hsorted.and hapart)).imp ?_
    rintro a b ⟨ha, hb, hprecedes, hdisjoint⟩
    exact hdisjoint.stop_le (hfits' a ha) (hfits' b hb) hprecedes
  obtain ⟨result, hresult⟩ := exists_spliced hfits' hchain [] text rfl
    fun e he => by
      obtain ⟨before, old, after, -, hstart, -⟩ := hfits' e he
      rw [hstart]
      exact Int.natCast_nonneg _
  exact ⟨result, apply_of_spliced hresult, hresult⟩

/-! ### One edit and two -/

theorem apply_one {front old back : List Char} {e : Edit} (hstart : e.start = byteLength front)
    (hstop : e.stop = (byteLength front + byteLength old : Nat)) :
    apply (front ++ old ++ back) [e] = .ok (front ++ e.replacement ++ back) := by
  have hsorted : ordered [e] = [e] := List.mergeSort_singleton e
  refine apply_of_spliced ?_
  rw [hsorted]
  exact .cons (by simpa using hstart) (by simpa using hstop) .nil

theorem ordered_of_precedes {a b : Edit} (h : precedes a b = true) : ordered [a, b] = [a, b] := by
  simp [ordered, List.mergeSort, List.MergeSort.Internal.splitInTwo, h]

theorem ordered_of_not_precedes {a b : Edit} (h : precedes a b = false) :
    ordered [a, b] = [b, a] := by
  simp [ordered, List.mergeSort, List.MergeSort.Internal.splitInTwo, h]

/-- Two edits, the first of them further back. -/
theorem apply_pair {front old mid old' back : List Char} {a e : Edit}
    (hestart : e.start = byteLength front)
    (hestop : e.stop = (byteLength front + byteLength old : Nat))
    (hastart : a.start = byteLength (front ++ old ++ mid))
    (hastop : a.stop = (byteLength (front ++ old ++ mid) + byteLength old' : Nat))
    {edits : List Edit} (hordered : ordered edits = [e, a]) :
    apply (front ++ old ++ mid ++ old' ++ back) edits =
      .ok (front ++ e.replacement ++ mid ++ a.replacement ++ back) := by
  refine apply_of_spliced ?_
  rw [hordered]
  simp only [byteLength_append] at hastart hastop
  have hsecond : Spliced (byteLength front + byteLength old) [a] (mid ++ old' ++ back)
      (mid ++ a.replacement ++ back) := .cons hastart hastop .nil
  have hboth : Spliced 0 [e, a] (front ++ old ++ (mid ++ old' ++ back))
      (front ++ e.replacement ++ (mid ++ a.replacement ++ back)) :=
    .cons (by simpa using hestart) (by simpa using hestop) (by simpa using hsecond)
  simpa only [List.append_assoc] using hboth

end Edit

end Phrasebook

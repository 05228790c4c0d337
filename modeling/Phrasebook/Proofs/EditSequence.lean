import Mathlib.Data.List.Nodup
import Phrasebook.Proofs.ImportPlace

/-!
Edits made together and one at a time. Whether any two edits overlap shows in neighbours once they
are in order; without overlaps, edits between characters may as well be made one by one, the last
first, and on characters instead of bytes.
-/

namespace Phrasebook

open Text Source

namespace Edit

def InBounds (text : List Char) (e : Edit) : Prop :=
  0 ≤ e.start ∧ e.start ≤ e.stop ∧ e.stop ≤ byteLength text

instance (text : List Char) (e : Edit) : Decidable (InBounds text e) :=
  inferInstanceAs (Decidable (0 ≤ e.start ∧ e.start ≤ e.stop ∧ e.stop ≤ byteLength text))

def AtBoundary (text : List Char) (offset : Int) : Prop :=
  ∃ before after, text = before ++ after ∧ offset = byteLength before

theorem takeBytes_append_dropBytes (bytes : Nat) (text : List Char) :
    takeBytes bytes text ++ dropBytes bytes text = text := by
  induction text generalizing bytes with
  | nil => rfl
  | cons c r ih =>
      rw [takeBytes, dropBytes]
      split
      · rfl
      · rw [List.cons_append, ih]

theorem atBoundary_iff {text : List Char} {offset : Int} :
    AtBoundary text offset ↔ offset = byteLength (takeBytes offset.toNat text) := by
  constructor
  · rintro ⟨before, after, rfl, rfl⟩
    rw [Int.toNat_natCast, takeBytes_append]
  · intro h
    exact ⟨_, _, (takeBytes_append_dropBytes offset.toNat text).symm, h⟩

instance (text : List Char) (offset : Int) : Decidable (AtBoundary text offset) :=
  decidable_of_iff _ atBoundary_iff.symm

/-- Of two edits in order, the later one begins before the earlier one ends. -/
def Overlaps (a b : Edit) : Prop :=
  (precedes a b = true ∧ b.start < a.stop) ∨ (precedes b a = true ∧ a.start < b.stop)

instance (a b : Edit) : Decidable (Overlaps a b) :=
  inferInstanceAs (Decidable ((precedes a b = true ∧ b.start < a.stop) ∨
    (precedes b a = true ∧ a.start < b.stop)))

def AnyOverlap (edits : List Edit) : Prop := ∃ a b, [a, b].Sublist edits ∧ Overlaps a b

/-! ### Neighbours -/

theorem Overlaps.symm {a b : Edit} (h : Overlaps a b) : Overlaps b a := Or.symm h

theorem not_overlaps_iff {a b : Edit} (hb : b.start ≤ b.stop) (h : precedes a b = true) :
    ¬ Overlaps a b ↔ a.stop ≤ b.start := by
  simp only [Overlaps, precedes, Bool.or_eq_true, Bool.and_eq_true, decide_eq_true_eq,
    beq_iff_eq] at h ⊢
  omega

theorem not_anyOverlap_iff {edits : List Edit} :
    ¬ AnyOverlap edits ↔ edits.Pairwise fun a b => ¬ Overlaps a b := by
  rw [List.pairwise_iff_forall_sublist]
  simp only [AnyOverlap, not_exists, not_and]

instance (edits : List Edit) : Decidable (AnyOverlap edits) :=
  decidable_of_iff (¬ edits.Pairwise fun a b => ¬ Overlaps a b) (by
    rw [← not_anyOverlap_iff, Classical.not_not])

/-- If no edit begins before its neighbour in front has ended, none begins before any edit in front
has: the ends go up with the starts. -/
theorem overlapping_eq_false {edits : List Edit} (h : ∀ e ∈ edits, e.start ≤ e.stop) :
    overlapping edits = false ↔ edits.Pairwise fun a b => a.stop ≤ b.start := by
  fun_induction overlapping edits with
  | case1 a b rest ih =>
      have hb := h b (by simp)
      have ih := ih fun e he => h e (List.mem_cons_of_mem a he)
      rw [Bool.or_eq_false_iff, decide_eq_false_iff_not, ih, List.pairwise_cons (a := a)]
      refine and_congr_left fun hrest => ?_
      constructor
      · intro hab e he
        rcases List.mem_cons.1 he with rfl | he
        · omega
        · have hbe := (List.pairwise_cons.1 hrest).1 e he
          omega
      · intro hab
        have := hab b (by simp)
        omega
  | case2 edits hshort =>
      match edits, hshort with
      | [], _ => simp
      | [a], _ => simp
      | a :: b :: rest, hshort => exact absurd rfl (hshort a b rest)

theorem pairwise_ordered (edits : List Edit) :
    (ordered edits).Pairwise fun a b => precedes a b = true :=
  List.pairwise_mergeSort precedes_trans precedes_total edits

theorem ordered_perm (edits : List Edit) : (ordered edits).Perm edits :=
  List.mergeSort_perm edits precedes

/-- The neighbours of edits in order overlap exactly if any two of the edits do. -/
theorem overlapping_ordered_iff {edits : List Edit} (h : ∀ e ∈ edits, e.start ≤ e.stop) :
    overlapping (ordered edits) = true ↔ AnyOverlap edits := by
  have hordered : ∀ e ∈ ordered edits, e.start ≤ e.stop := fun e he =>
    h e ((ordered_perm edits).mem_iff.1 he)
  have hapart : (ordered edits).Pairwise (fun a b => ¬ Overlaps a b) ↔
      (ordered edits).Pairwise fun a b => a.stop ≤ b.start := by
    have hsorted := List.Pairwise.and_mem.1 (pairwise_ordered edits)
    constructor
    · intro hapart
      refine (hsorted.and hapart).imp ?_
      rintro a b ⟨⟨-, hb, hab⟩, hno⟩
      exact (not_overlaps_iff (hordered b hb) hab).1 hno
    · intro hchain
      refine (hsorted.and hchain).imp ?_
      rintro a b ⟨⟨-, hb, hab⟩, hle⟩
      exact (not_overlaps_iff (hordered b hb) hab).2 hle
  have hsymm : ∀ {a b : Edit}, ¬ Overlaps a b → ¬ Overlaps b a := fun hno hba => hno hba.symm
  have hfalse : overlapping (ordered edits) = false ↔ ¬ AnyOverlap edits := by
    rw [overlapping_eq_false hordered, ← hapart, (ordered_perm edits).pairwise_iff hsymm,
      not_anyOverlap_iff]
  rw [← Bool.not_eq_false, hfalse, Decidable.not_not]

theorem apply_eq_overlap_iff {text : List Char} {edits : List Edit}
    (h : ∀ e ∈ edits, e.start ≤ e.stop) :
    apply text edits = .error .overlap ↔ AnyOverlap edits := by
  rw [← overlapping_ordered_iff h, apply]
  cases overlapping (ordered edits) with
  | true => simp
  | false =>
      simp only [Bool.false_eq_true, if_false, iff_false]
      cases Utf8.decode (spliceFrom (Utf8.encode text) 0 (ordered edits)) <;> simp

/-! ### Characters -/

def charIndex (text : List Char) (offset : Int) : Nat := (takeBytes offset.toNat text).length

/-- The text from a character on, with edits in order made at the characters that their offsets
fall on. -/
def spliceChars (text : List Char) (cursor : Nat) : List Edit → List Char
  | [] => text.drop cursor
  | e :: rest =>
      (text.take (charIndex text e.start)).drop cursor ++ e.replacement ++
        spliceChars text (charIndex text e.stop) rest

theorem charIndex_append (before after : List Char) :
    charIndex (before ++ after) (byteLength before : Nat) = before.length := by
  rw [charIndex, Int.toNat_natCast, takeBytes_append]

theorem spliceChars_of_spliced {offset : Nat} {edits : List Edit} {rest result : List Char}
    (h : Spliced offset edits rest result) (before : List Char)
    (hbefore : byteLength before = offset) :
    spliceChars (before ++ rest) before.length edits = result := by
  induction h generalizing before with
  | nil => rw [spliceChars, List.drop_left]
  | @cons offset e edits kept old rest result start stop later ih =>
      have hstart := charIndex_append (before ++ kept) (old ++ rest)
      have hstop := charIndex_append (before ++ kept ++ old) rest
      have hlater := ih (before ++ kept ++ old) (by
        rw [byteLength_append, byteLength_append, hbefore])
      have hkept : ((before ++ kept ++ (old ++ rest)).take (before ++ kept).length).drop
          before.length = kept := by
        rw [List.take_left, List.drop_left]
      simp only [byteLength_append, hbefore] at hstart hstop
      simp only [← List.append_assoc] at hstart hkept hstop hlater ⊢
      rw [spliceChars, start, stop, hstart, hstop, hkept, hlater]

/-! ### One at a time -/

def applyBackwards (text : List Char) (edits : List Edit) : Except Fault (List Char) :=
  edits.foldrM (fun e text => apply text [e]) text

/-- What comes behind an edit may be edited first: the offsets of the edit stay right. -/
theorem applyBackwards_of_spliced {offset : Nat} {edits : List Edit} {rest result : List Char}
    (h : Spliced offset edits rest result) (before : List Char)
    (hbefore : byteLength before = offset) :
    applyBackwards (before ++ rest) edits = .ok (before ++ result) := by
  induction h generalizing before with
  | nil => rfl
  | @cons offset e edits kept old rest result start stop later ih =>
      have hlater := ih (before ++ kept ++ old) (by
        rw [byteLength_append, byteLength_append, hbefore])
      have hlast : apply (before ++ kept ++ old ++ result) [e] =
          .ok (before ++ kept ++ e.replacement ++ result) :=
        apply_one (by rw [start, byteLength_append, hbefore])
          (by rw [stop, byteLength_append, hbefore])
      rw [applyBackwards] at hlater ⊢
      simp only [← List.append_assoc] at hlater hlast ⊢
      rw [List.foldrM_cons, hlater]
      exact hlast

/-! ### Any order -/

/-- Edits that replace different bytes are in one order only. -/
theorem ordered_eq_of_perm {edits edits' : List Edit} (hperm : edits'.Perm edits)
    (hnodup : (edits.map fun e => (e.start, e.stop)).Nodup) : ordered edits' = ordered edits := by
  have hp : (ordered edits').Perm (ordered edits) :=
    (ordered_perm edits').trans (hperm.trans (ordered_perm edits).symm)
  refine hp.eq_of_pairwise ?_ (pairwise_ordered edits') (pairwise_ordered edits)
  intro a b ha hb hab hba
  have ha : a ∈ edits := hperm.mem_iff.1 ((ordered_perm edits').mem_iff.1 ha)
  have hb : b ∈ edits := (ordered_perm edits).mem_iff.1 hb
  refine List.inj_on_of_nodup_map hnodup ha hb ?_
  simp only [precedes, Bool.or_eq_true, Bool.and_eq_true, decide_eq_true_eq, beq_iff_eq] at hab hba
  exact Prod.ext (by dsimp only; omega) (by dsimp only; omega)

theorem fits_of_boundaries {text : List Char} {e : Edit} (hle : e.start ≤ e.stop)
    (hstart : AtBoundary text e.start) (hstop : AtBoundary text e.stop) : Fits text e := by
  obtain ⟨before, rest, rfl, hstart⟩ := hstart
  obtain ⟨front, after, htext, hstop⟩ := hstop
  obtain ⟨old, rfl, rfl⟩ := eq_append_of_byteLength_le htext (by omega)
  exact ⟨before, old, after, (List.append_assoc _ _ _).symm, hstart, by
    rw [hstop, byteLength_append]⟩

/-- Edits of bytes that a text has are refused exactly if some two of them overlap. Those that are
not, and begin and end between characters, give the text with the characters spliced, which is also
that of making them one at a time from the last to the first. In which order they are given does not
matter where no two replace the same bytes. -/
theorem apply_together {text : List Char} {edits : List Edit}
    (hbounds : ∀ e ∈ edits, InBounds text e) :
    (apply text edits = .error .overlap ↔ AnyOverlap edits) ∧
    (¬ AnyOverlap edits → (∀ e ∈ edits, AtBoundary text e.start ∧ AtBoundary text e.stop) →
      apply text edits = .ok (spliceChars text 0 (ordered edits)) ∧
        applyBackwards text (ordered edits) = .ok (spliceChars text 0 (ordered edits))) ∧
    ∀ edits', edits'.Perm edits → (edits.map fun e => (e.start, e.stop)).Nodup →
      apply text edits' = apply text edits := by
  have hle : ∀ e ∈ edits, e.start ≤ e.stop := fun e he => (hbounds e he).2.1
  refine ⟨apply_eq_overlap_iff hle, fun hno hboundary => ?_, fun edits' hperm hnodup => ?_⟩
  · have hfits : ∀ e ∈ ordered edits, Fits text e := fun e he => by
      have he := (ordered_perm edits).mem_iff.1 he
      exact fits_of_boundaries (hle e he) (hboundary e he).1 (hboundary e he).2
    have hapart : overlapping (ordered edits) = false := by
      rw [← Bool.not_eq_true, overlapping_ordered_iff hle]
      exact hno
    have hchain := (overlapping_eq_false fun e he => (hfits e he).start_le_stop).1 hapart
    obtain ⟨result, hresult⟩ := exists_spliced hfits hchain [] text rfl fun e he =>
      (hbounds e ((ordered_perm edits).mem_iff.1 he)).1
    have hchars : spliceChars text 0 (ordered edits) = result :=
      spliceChars_of_spliced hresult [] rfl
    rw [hchars]
    exact ⟨apply_of_spliced hresult, applyBackwards_of_spliced hresult [] rfl⟩
  · rw [apply, apply, ordered_eq_of_perm hperm hnodup]

/-- Characters of one to four bytes. One edit is given before another that goes in front of it, and
one is an insertion where another begins. -/
theorem apply_together_mixed :
    let text := "aé漢😀b".toList
    let edits : List Edit :=
      [⟨3, 6, "x".toList⟩, ⟨10, 10, "!".toList⟩, ⟨3, 3, "y".toList⟩, ⟨0, 1, []⟩]
    (∀ e ∈ edits, InBounds text e) ∧ ¬ AnyOverlap edits ∧
      (∀ e ∈ edits, AtBoundary text e.start ∧ AtBoundary text e.stop) ∧
      applyBackwards text (ordered edits) = .ok "éyx😀!b".toList ∧
      ∀ edits', edits'.Perm edits → apply text edits' = .ok "éyx😀!b".toList := by
  intro text edits
  have hbounds : ∀ e ∈ edits, InBounds text e := by decide +kernel
  have hno : ¬ AnyOverlap edits := by decide +kernel
  have hboundary : ∀ e ∈ edits, AtBoundary text e.start ∧ AtBoundary text e.stop := by
    decide +kernel
  have hnodup : (edits.map fun e => (e.start, e.stop)).Nodup := by decide +kernel
  have hordered : ordered edits =
      [⟨0, 1, []⟩, ⟨3, 3, "y".toList⟩, ⟨3, 6, "x".toList⟩, ⟨10, 10, "!".toList⟩] := by
    rw [← ordered_eq_of_perm _ hnodup]
    · exact List.mergeSort_of_pairwise (by decide +kernel)
    · decide +kernel
  have hchars : spliceChars text 0 (ordered edits) = "éyx😀!b".toList := by
    rw [hordered]
    decide +kernel
  obtain ⟨-, htogether, hperm⟩ := apply_together hbounds
  obtain ⟨happly, hbackwards⟩ := htogether hno hboundary
  rw [hchars] at happly hbackwards
  refine ⟨hbounds, hno, hboundary, hbackwards, fun edits' h => ?_⟩
  rw [hperm edits' h hnodup, happly]

end Edit

end Phrasebook

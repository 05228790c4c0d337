import Phrasebook.Proofs.ImportPlace

/-!
Lines and edits. An edit that is on other lines than a literal, and adds no line above it and takes
none away, leaves the literal at its line and column.
-/

namespace Phrasebook

open Source

namespace Source.Position

theorem line_foldl (p : Position) (a : List Char) :
    (a.foldl next p).line = p.line + a.count '\n' := by
  induction a generalizing p with
  | nil => rfl
  | cons c a ih =>
      rw [List.foldl_cons, ih, List.count_cons, next]
      split
      · simp only
        omega
      · rfl

/-- After a line feed, a position depends no more on the column at which the text began. -/
theorem foldl_of_line_eq {p q : Position} (h : p.line = q.line) {a : List Char} (ha : '\n' ∈ a) :
    a.foldl next p = a.foldl next q := by
  induction a generalizing p q with
  | nil => cases ha
  | cons c a ih =>
      rw [List.foldl_cons, List.foldl_cons]
      by_cases hc : c = '\n'
      · subst hc
        have hnext : p.next '\n' = q.next '\n' := by simp [next, h]
        rw [hnext]
      · have hline (r : Position) : (r.next c).line = r.line := by simp [next, hc]
        refine ih (by rw [hline, hline, h]) ?_
        simpa [Ne.symm hc] using ha

theorem ofOffset_append_eq (a b : List Char) :
    ofOffset (a ++ b) (byteLength a) = a.foldl next ⟨1, 0⟩ := after_append _ a b

end Source.Position

/-- An edit leaves a line of a document where it is: it is below the line, or above it and has as
many line feeds as what it replaces. -/
def Edit.LeavesLine (d : Document) (line : Int) (e : Edit) : Prop :=
  line < d.lineOf e.start.toNat ∨
    d.lineOf e.stop.toNat < line ∧
      d.lineOf e.start.toNat + e.replacement.count '\n' = d.lineOf e.stop.toNat

instance (d : Document) (line : Int) (e : Edit) : Decidable (e.LeavesLine d line) :=
  inferInstanceAs (Decidable (_ ∨ _ ∧ _))

namespace Source.Document

variable {d : Document}

theorem lineOf_eq {before after : List Char} (h : d.text = before ++ after) :
    d.lineOf (byteLength before) = 1 + before.count '\n' := by
  rw [lineOf, position, h, Position.ofOffset_append_eq, Position.line_foldl]

theorem lineOf_le {a b a' b' : List Char} (h : d.text = a ++ b) (h' : d.text = a' ++ b')
    (hle : byteLength a ≤ byteLength a') :
    d.lineOf (byteLength a) ≤ d.lineOf (byteLength a') := by
  rw [lineOf_eq h, lineOf_eq h']
  obtain ⟨x, rfl, -⟩ := Edit.eq_append_of_byteLength_le (h.symm.trans h') hle
  rw [List.count_append]
  omega

/-- An edit that leaves the line of a literal comes after it, or before it with a line feed between
and as many line feeds as what it replaces. -/
theorem Admits.leavesLine_cases {e : Edit} (h : d.Admits e) {n : Node} (hn : n ∈ d.all)
    (hliteral : n.isLiteral = true) {before own after : List Char}
    (htext : d.text = before ++ own ++ after) (hstart : n.start = byteLength before)
    (hstop : n.stop = byteLength before + byteLength own)
    (hleaves : e.LeavesLine d (d.lineOf n.start)) :
    ∃ front old back, d.text = front ++ old ++ back ∧ e.start = byteLength front ∧
      e.stop = (byteLength front + byteLength old : Nat) ∧
      ((∃ mid, front = before ++ own ++ mid) ∨
        ∃ mid, before = front ++ old ++ mid ∧ '\n' ∈ mid ∧
          old.count '\n' = e.replacement.count '\n') := by
  obtain ⟨front, old, back, hfits, hestart, hestop⟩ := h.fits
  refine ⟨front, old, back, hfits, hestart, hestop, ?_⟩
  have hclear := h.clear n hn hliteral
  rw [hestart, hestop, hstart, hstop] at hclear
  have hfront : d.text = front ++ (old ++ back) := by rw [hfits, List.append_assoc]
  have hbefore : d.text = before ++ (own ++ after) := by rw [htext, List.append_assoc]
  have hlines := lineOf_eq hfront
  have hlines' := lineOf_eq hfits
  rw [byteLength_append] at hlines'
  unfold Edit.LeavesLine at hleaves
  rw [hestart, hestop, hstart, Int.toNat_natCast, Int.toNat_natCast] at hleaves
  -- the lines tell on which side of the literal the edit is
  rcases hleaves with hbelow | ⟨habove, hcount⟩
  · left
    have hle : byteLength (before ++ own) ≤ byteLength front := by
      rcases hclear with hclear | hclear
      · have hline := lineOf_le hfront hbefore (by omega)
        omega
      · rw [byteLength_append]
        omega
    obtain ⟨mid, hmid, -⟩ := Edit.eq_append_of_byteLength_le (htext.symm.trans hfront) hle
    exact ⟨mid, hmid⟩
  · right
    have hle : byteLength (front ++ old) ≤ byteLength before := by
      rcases hclear with hclear | hclear
      · rw [byteLength_append]
        omega
      · have hline := lineOf_le hbefore hfits (by rw [byteLength_append]; omega)
        rw [byteLength_append] at hline
        omega
    obtain ⟨mid, rfl, -⟩ := Edit.eq_append_of_byteLength_le (hfits.symm.trans hbefore) hle
    have hline := lineOf_eq hbefore
    rw [hlines', hline] at habove
    rw [hlines, hlines'] at hcount
    simp only [List.count_append] at habove hcount
    refine ⟨mid, rfl, List.count_pos_iff.1 ?_, ?_⟩ <;> omega

/-- An edit that leaves the line of a literal, made together with an edit inside the literal, may
change the text before the literal but not the position at its end. -/
theorem Admits.apply_inside {e : Edit} (h : d.Admits e) {n : Node} (hn : n ∈ d.all)
    (hliteral : n.isLiteral = true) {before left own right after : List Char}
    (htext : d.text = before ++ (left ++ own ++ right) ++ after)
    (hstart : n.start = byteLength before)
    (hstop : n.stop = byteLength before + byteLength (left ++ own ++ right))
    (hleaves : e.LeavesLine d (d.lineOf n.start)) {a : Edit}
    (hastart : a.start = byteLength (before ++ left))
    (hastop : a.stop = (byteLength (before ++ left) + byteLength own : Nat)) :
    ∃ front back, Edit.apply d.text [a, e] = .ok (front ++ (left ++ a.replacement ++ back)) ∧
      front.foldl Position.next ⟨1, 0⟩ = before.foldl Position.next ⟨1, 0⟩ := by
  obtain ⟨front, old, back, hfits, hestart, hestop, hcases⟩ :=
    h.leavesLine_cases hn hliteral htext hstart hstop hleaves
  rcases hcases with ⟨mid, rfl⟩ | ⟨mid, rfl, hmid, hcount⟩
  -- an edit below comes after the literal, which stays at its very offset
  · refine ⟨before, right ++ mid ++ e.replacement ++ back, ?_, rfl⟩
    have hsplit : d.text = (before ++ left) ++ own ++ (right ++ mid) ++ old ++ back := by
      rw [hfits]
      simp only [List.append_assoc]
    have hplace : before ++ left ++ own ++ (right ++ mid) =
        before ++ (left ++ own ++ right) ++ mid := by simp only [List.append_assoc]
    have hordered : Edit.ordered [a, e] = [a, e] := by
      refine Edit.ordered_of_precedes ?_
      simp only [byteLength_append] at hastart hastop hestart hestop
      simp only [Edit.precedes, Bool.or_eq_true, Bool.and_eq_true, decide_eq_true_eq, beq_iff_eq]
      omega
    rw [← hplace] at hestart hestop
    rw [hsplit, Edit.apply_pair hastart hastop hestart hestop hordered]
    simp only [List.append_assoc]
  · refine ⟨front ++ e.replacement ++ mid, right ++ after, ?_, ?_⟩
    · have hsplit : d.text = front ++ old ++ (mid ++ left) ++ own ++ (right ++ after) := by
        rw [htext]
        simp only [List.append_assoc]
      have hordered : Edit.ordered [a, e] = [e, a] := by
        have hpos := byteLength_pos (List.ne_nil_of_mem hmid)
        refine Edit.ordered_of_not_precedes ?_
        simp only [byteLength_append] at hastart hastop
        simp only [Edit.precedes, Bool.or_eq_false_iff, Bool.and_eq_false_iff,
          decide_eq_false_iff_not, beq_eq_false_iff_ne]
        omega
      rw [List.append_assoc] at hastart hastop
      rw [hsplit, Edit.apply_pair hestart hestop hastart hastop hordered]
      simp only [List.append_assoc]
    · -- columns count from the last line feed, and there is one between the edit and the literal
      simp only [List.foldl_append]
      refine Position.foldl_of_line_eq ?_ hmid
      rw [Position.line_foldl, Position.line_foldl _ old, hcount]

end Source.Document

end Phrasebook

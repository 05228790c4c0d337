import Mathlib.Data.List.DropRight
import Mathlib.Data.List.TakeWhile
import Phrasebook.Source.Lexeme
import Phrasebook.Text.Space

/-!
The run of an element text and the layout around it. Together they are the text, and the layout
is white space. The run itself may begin and end with white space of another kind, which is
trimmed when the text is shown.
-/

namespace Phrasebook

namespace Text

section Trim

variable {α : Type} (blank : α → Bool)

def rightMargin (l : List α) : List α := ((trimLeft blank l).reverse.takeWhile blank).reverse

theorem margins_trim (l : List α) :
    leftMargin blank l ++ trim blank l ++ rightMargin blank l = l := by
  have hright : trim blank l ++ rightMargin blank l = trimLeft blank l := by
    rw [trim, trimRight, rightMargin, ← List.reverse_append, List.takeWhile_append_dropWhile,
      List.reverse_reverse]
  rw [List.append_assoc, hright]
  exact List.takeWhile_append_dropWhile

theorem blank_of_mem_leftMargin {l : List α} {x : α} (h : x ∈ leftMargin blank l) :
    blank x = true :=
  List.mem_takeWhile_imp h

theorem blank_of_mem_rightMargin {l : List α} {x : α} (h : x ∈ rightMargin blank l) :
    blank x = true :=
  List.mem_takeWhile_imp (List.mem_reverse.1 h)

/-- What holds of blanks holds of a whole text once it holds of the trimmed one. -/
theorem forall_mem_trim {P : α → Prop} (hblank : ∀ x, blank x = true → P x) (l : List α) :
    (∀ x ∈ trim blank l, P x) ↔ ∀ x ∈ l, P x := by
  constructor
  · intro h x hx
    rw [← margins_trim blank l, List.mem_append, List.mem_append] at hx
    rcases hx with (hx | hx) | hx
    · exact hblank x (blank_of_mem_leftMargin blank hx)
    · exact h x hx
    · exact hblank x (blank_of_mem_rightMargin blank hx)
  · intro h x hx
    refine h x ?_
    rw [← margins_trim blank l]
    exact List.mem_append_left _ (List.mem_append_right _ hx)

/-- Nothing but blanks is trimmed to nothing. -/
theorem trim_eq_nil {l : List α} (h : ∀ x ∈ l, blank x = true) : trim blank l = [] := by
  rw [trim, trimLeft, List.dropWhile_eq_nil_iff.2 h]
  rfl

/-- What is trimmed to nothing is all blanks. -/
theorem blank_of_trim_eq_nil {l : List α} (h : trim blank l = []) : ∀ x ∈ l, blank x = true := by
  intro x hx
  rw [← margins_trim blank l, h, List.append_nil, List.mem_append] at hx
  rcases hx with hx | hx
  · exact blank_of_mem_leftMargin blank hx
  · exact blank_of_mem_rightMargin blank hx

/-- A text that was trimmed begins with no blank. -/
theorem trimLeft_trim (l : List α) : trimLeft blank (trim blank l) = trim blank l := by
  have hprefix : trim blank l <+: trimLeft blank l := List.rdropWhile_prefix blank _
  obtain ⟨rest, hrest⟩ := hprefix
  cases h : trim blank l with
  | nil => rfl
  | cons x t =>
      have hfix : trimLeft blank (trimLeft blank l) = trimLeft blank l :=
        List.dropWhile_idempotent blank l
      rw [← hrest, h, List.cons_append] at hfix
      have hx : ¬ blank x = true := by
        intro hx
        have hlength := congrArg List.length hfix
        rw [trimLeft, List.dropWhile_cons, if_pos hx] at hlength
        have hle := (List.dropWhile_suffix (p := blank) (l := t ++ rest)).length_le
        simp only [List.length_cons] at hlength
        omega
      rw [trimLeft, List.dropWhile_cons, if_neg hx]

/-- What begins a text and has no blanks is not trimmed. -/
theorem prefix_trim_append {a : List α} (h : ∀ x ∈ a, blank x = false) (b : List α) :
    a <+: trim blank (a ++ b) := by
  cases a with
  | nil => simp
  | cons x a =>
      have hleft : trimLeft blank (x :: a ++ b) = x :: a ++ b := by
        rw [trimLeft, List.cons_append, List.dropWhile_cons_of_neg (by simp [h x])]
      have hkept : (x :: a).reverse.dropWhile blank = (x :: a).reverse := by
        rw [List.dropWhile_eq_self_iff]
        intro hlength
        rw [h _ (List.mem_reverse.1 (List.getElem_mem hlength))]
        exact Bool.false_ne_true
      rw [trim, hleft, trimRight, List.reverse_append, List.dropWhile_append]
      split
      · simp only [hkept, List.reverse_reverse, List.prefix_rfl]
      · rw [List.reverse_append, List.reverse_reverse]
        exact List.prefix_append _ _

theorem trim_trim (l : List α) : trim blank (trim blank l) = trim blank l := by
  conv => lhs; rw [trim, trimLeft_trim]
  exact List.rdropWhile_idempotent blank (trimLeft blank l)

theorem trimLeft_append {a : List α} (ha : ∀ x ∈ a, blank x = true) (l : List α) :
    trimLeft blank (a ++ l) = trimLeft blank l := by
  rw [trimLeft, trimLeft, List.dropWhile_append_of_pos ha]

theorem trimRight_append {b : List α} (hb : ∀ x ∈ b, blank x = true) (l : List α) :
    trimRight blank (l ++ b) = trimRight blank l := by
  rw [trimRight, trimRight, List.reverse_append,
    List.dropWhile_append_of_pos fun x hx => hb x (List.mem_reverse.1 hx)]

/-- Blanks that are put around a list are trimmed with those that it has. -/
theorem trim_append {a b : List α} (ha : ∀ x ∈ a, blank x = true) (hb : ∀ x ∈ b, blank x = true)
    (l : List α) : trim blank (a ++ l ++ b) = trim blank l := by
  rw [trim, trim, List.append_assoc, trimLeft_append blank ha, trimLeft, trimLeft,
    List.dropWhile_append]
  split
  · next hnil =>
    rw [List.isEmpty_iff] at hnil
    rw [hnil, List.dropWhile_eq_nil_iff.2 hb]
  · exact trimRight_append blank hb _

theorem trim_eq_self_iff {l : List α} :
    trim blank l = l ↔
      (∀ x ∈ l.head?, blank x = false) ∧ ∀ x ∈ l.getLast?, blank x = false := by
  have hfirst : ∀ m : List α, m.dropWhile blank = m ↔ ∀ x ∈ m.head?, blank x = false := by
    intro m
    cases m with
    | nil => simp
    | cons x m =>
        rw [List.dropWhile_eq_self_iff]
        simp
  have hlast : trimRight blank l = l ↔ ∀ x ∈ l.getLast?, blank x = false := by
    rw [trimRight, List.reverse_eq_iff, hfirst, List.head?_reverse]
  constructor
  · intro h
    have hmargins := congrArg List.length (margins_trim blank l)
    rw [h, List.length_append, List.length_append] at hmargins
    have hnone : leftMargin blank l = [] := List.length_eq_zero_iff.1 (by omega)
    have hleft : trimLeft blank l = l := by
      have hsplit : leftMargin blank l ++ trimLeft blank l = l := List.takeWhile_append_dropWhile
      rwa [hnone, List.nil_append] at hsplit
    rw [trim, hleft] at h
    exact ⟨(hfirst l).1 hleft, hlast.1 h⟩
  · rintro ⟨hhead, hgetLast⟩
    rw [trim, show trimLeft blank l = l from (hfirst l).2 hhead, hlast.2 hgetLast]

theorem trim_map {β : Type} (f : β → α) (l : List β) :
    trim blank (l.map f) = (trim (fun x => blank (f x)) l).map f := by
  have hleft : trimLeft blank (l.map f) = (trimLeft (fun x => blank (f x)) l).map f := by
    rw [trimLeft, List.dropWhile_map]
    rfl
  rw [trim, hleft, trimRight, trim, trimRight, ← List.map_reverse, List.dropWhile_map,
    ← List.map_reverse]
  rfl

end Trim

end Text

namespace Source.Lexeme

open Text

/-- The pieces of a text are all of it. -/
theorem flatMap_pieces (text : List Char) : (pieces text).flatMap Prod.snd = text := by
  fun_induction pieces text with
  | case1 => rfl
  | case2 c r visible more hpiece ih => simp [ih]

def layoutAfter (text : List Char) : List Char :=
  (rightMargin (fun p => !p.1) (pieces text)).flatMap Prod.snd

/-- A text is its run between two stretches of layout. -/
theorem layout_textRun (text : List Char) :
    layoutBefore text ++ textRun text ++ layoutAfter text = text := by
  have htrim := margins_trim (fun p => !p.1) (pieces text)
  have hflat := congrArg (List.flatMap Prod.snd) htrim
  rw [List.flatMap_append, List.flatMap_append, flatMap_pieces] at hflat
  exact hflat

/-! ### Layout is white space -/

theorem isSpace_of_isBreakingSpace {c : Char} (h : isBreakingSpace c = true) :
    isSpace c = true := by
  simp only [isBreakingSpace, isSpace, isSpaceCode, Bool.or_eq_true, Bool.and_eq_true,
    decide_eq_true_eq, beq_iff_eq] at h ⊢
  omega

theorem isSpace_of_not_isVisible {start : Bool} {text : List Char}
    (h : isVisible start text = false) : ∀ c ∈ text, isSpace c = true := by
  induction text generalizing start with
  | nil => simp
  | cons c r ih =>
      unfold isVisible at h
      split at h
      · next hc =>
        have hline : isSpace c = true := by
          rw [beq_iff_eq.1 hc]
          rfl
        exact List.forall_mem_cons.2 ⟨hline, ih h⟩
      · split at h
        · next hc =>
          have hspace := isSpace_of_isBreakingSpace (Bool.and_eq_true_iff.1 hc).2
          exact List.forall_mem_cons.2 ⟨hspace, ih h⟩
        · cases h

/-- A piece that is layout is white space. -/
theorem isSpace_of_mem_pieces {text : List Char} {p : Bool × List Char} (hp : p ∈ pieces text)
    (hlayout : p.1 = false) : ∀ c ∈ p.2, isSpace c = true := by
  fun_induction pieces text with
  | case1 => simp at hp
  | case2 c r visible more hpiece ih =>
      rcases List.mem_cons.1 hp with rfl | hp
      · unfold piece at hpiece
        split at hpiece
        · split at hpiece
          · cases hpiece
            cases hlayout
          · cases hpiece
            cases hlayout
        · obtain ⟨hv, hm⟩ := Prod.mk.inj hpiece
          have hstretch : r.take more = stretch r := by
            rw [← hm]
            exact (List.prefix_iff_eq_take.1 (List.takeWhile_prefix _)).symm
          rw [← hv] at hlayout
          have hall := isSpace_of_not_isVisible hlayout
          simpa [hstretch] using hall
      · exact ih hp

theorem isSpace_of_mem_layoutBefore {text : List Char} {c : Char} (h : c ∈ layoutBefore text) :
    isSpace c = true := by
  obtain ⟨p, hp, hc⟩ := List.mem_flatMap.1 h
  have hlayout := blank_of_mem_leftMargin (fun q : Bool × List Char => !q.1) hp
  exact isSpace_of_mem_pieces ((List.takeWhile_sublist _).subset hp) (by simpa using hlayout) c hc

theorem isSpace_of_mem_layoutAfter {text : List Char} {c : Char} (h : c ∈ layoutAfter text) :
    isSpace c = true := by
  obtain ⟨p, hp, hc⟩ := List.mem_flatMap.1 h
  have hlayout := blank_of_mem_rightMargin (fun q : Bool × List Char => !q.1) hp
  have hmem : p ∈ pieces text := by
    rw [← margins_trim (fun p => !p.1) (pieces text)]
    exact List.mem_append_right _ hp
  exact isSpace_of_mem_pieces hmem (by simpa using hlayout) c hc

end Source.Lexeme

end Phrasebook

import Mathlib.Data.List.Forall2

/-!
Computations that may fail. One made of two steps gives a result exactly if both do, and one made
of a step for each item of a list if all of them do.
-/

namespace Phrasebook

variable {ε δ α β : Type}

theorem bind_eq_ok {x : Except ε α} {f : α → Except ε β} {b : β} :
    (x >>= f) = .ok b ↔ ∃ a, x = .ok a ∧ f a = .ok b := by
  cases x with
  | error e => simp [bind, Except.bind]
  | ok a => simp [bind, Except.bind]

@[simp] theorem mapError_ok (f : ε → δ) (a : α) : (Except.ok a).mapError f = .ok a := rfl

@[simp] theorem mapError_error (f : ε → δ) (e : ε) :
    (Except.error e : Except ε α).mapError f = .error (f e) := rfl

theorem mapError_eq_ok {x : Except ε α} {f : ε → δ} {a : α} :
    x.mapError f = .ok a ↔ x = .ok a := by
  cases x <;> simp

theorem exists_error {x : Except ε α} : (∃ e, x = .error e) ↔ ¬ ∃ a, x = .ok a := by
  cases x <;> simp

theorem mapM_eq_ok {f : α → Except ε β} {as : List α} {bs : List β} :
    as.mapM f = .ok bs ↔ List.Forall₂ (fun a b => f a = .ok b) as bs := by
  induction as generalizing bs with
  | nil =>
      rw [List.mapM_nil, List.forall₂_nil_left_iff]
      exact ⟨fun h => (Except.ok.inj h).symm, fun h => congrArg Except.ok h.symm⟩
  | cons a as ih =>
      rw [List.mapM_cons, List.forall₂_cons_left_iff, bind_eq_ok]
      constructor
      · rintro ⟨b, hb, h⟩
        obtain ⟨rest, hrest, h⟩ := bind_eq_ok.1 h
        exact ⟨b, rest, hb, ih.1 hrest, (Except.ok.inj h).symm⟩
      · rintro ⟨b, rest, hb, hrest, rfl⟩
        exact ⟨b, hb, bind_eq_ok.2 ⟨rest, ih.2 hrest, rfl⟩⟩

theorem exists_mapM_eq_ok {f : α → Except ε β} {as : List α} :
    (∃ bs, as.mapM f = .ok bs) ↔ ∀ a ∈ as, ∃ b, f a = .ok b := by
  simp only [mapM_eq_ok]
  induction as with
  | nil => simp
  | cons a as ih =>
      simp only [List.forall₂_cons_left_iff, List.forall_mem_cons, ← ih]
      constructor
      · rintro ⟨bs, b, rest, hb, hrest, -⟩
        exact ⟨⟨b, hb⟩, rest, hrest⟩
      · rintro ⟨⟨b, hb⟩, rest, hrest⟩
        exact ⟨b :: rest, b, rest, hb, hrest, rfl⟩

theorem exists_of_mapM_eq_error {f : α → Except ε β} {as : List α} {e : ε}
    (h : as.mapM f = .error e) : ∃ a ∈ as, f a = .error e := by
  induction as with
  | nil => cases h
  | cons a as ih =>
      rw [List.mapM_cons] at h
      cases ha : f a with
      | error e' =>
          rw [ha] at h
          obtain rfl : e' = e := Except.error.inj h
          exact ⟨a, List.mem_cons_self, ha⟩
      | ok b =>
          rw [ha] at h
          cases hrest : as.mapM f with
          | ok bs =>
              rw [hrest] at h
              cases h
          | error e' =>
              rw [hrest] at h
              obtain rfl : e' = e := Except.error.inj h
              obtain ⟨a', ha', he⟩ := ih hrest
              exact ⟨a', List.mem_cons_of_mem a ha', he⟩

theorem exists_filterM_eq_ok {p : α → Except ε Bool} {as : List α} :
    (∃ bs, as.filterM p = .ok bs) ↔ ∀ a ∈ as, ∃ b, p a = .ok b := by
  have haux (acc : List α) : (∃ bs, as.filterAuxM p acc = .ok bs) ↔
      ∀ a ∈ as, ∃ b, p a = .ok b := by
    induction as generalizing acc with
    | nil => exact iff_of_true ⟨acc, rfl⟩ (by simp)
    | cons a as ih =>
        rw [List.forall_mem_cons, List.filterAuxM]
        constructor
        · rintro ⟨bs, h⟩
          obtain ⟨b, hb, h⟩ := bind_eq_ok.1 h
          exact ⟨⟨b, hb⟩, (ih _).1 ⟨bs, h⟩⟩
        · rintro ⟨⟨b, hb⟩, hrest⟩
          obtain ⟨bs, hbs⟩ := (ih (cond b (a :: acc) acc)).2 hrest
          exact ⟨bs, bind_eq_ok.2 ⟨b, hb, hbs⟩⟩
  rw [← haux []]
  constructor
  · rintro ⟨bs, h⟩
    obtain ⟨found, hfound, -⟩ := bind_eq_ok.1 h
    exact ⟨found, hfound⟩
  · rintro ⟨found, hfound⟩
    exact ⟨found.reverse, bind_eq_ok.2 ⟨found, hfound, rfl⟩⟩

/-- A filter whose test may fail keeps what passes the test. -/
theorem eq_filter_of_filterM {p : α → Except ε Bool} {as bs : List α} (h : as.filterM p = .ok bs) :
    bs = as.filter fun a => (p a).toOption == some true := by
  have haux : ∀ (as acc found : List α), as.filterAuxM p acc = .ok found →
      found = (as.filter fun a => (p a).toOption == some true).reverse ++ acc := by
    intro as
    induction as with
    | nil => exact fun acc found h => (Except.ok.inj h).symm
    | cons a as ih =>
        intro acc found h
        obtain ⟨keep, hkeep, h⟩ := bind_eq_ok.1 h
        rw [ih _ _ h, List.filter_cons, hkeep]
        cases keep <;> simp [Except.toOption]
  obtain ⟨found, hfound, h⟩ := bind_eq_ok.1 h
  obtain rfl := Except.ok.inj h
  rw [haux as [] found hfound]
  simp

end Phrasebook

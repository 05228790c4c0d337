/-!
Tables: values under names, in the order in which the names were first given. A name given
again keeps its place and takes the new value.
-/

namespace Phrasebook

abbrev Table (κ β : Type) := List (κ × β)

namespace Table

variable {κ β : Type} [DecidableEq κ]

def get? (name : κ) : Table κ β → Option β
  | [] => none
  | (k, v) :: rest => if k = name then some v else get? name rest

def put (name : κ) (value : β) : Table κ β → Table κ β
  | [] => [(name, value)]
  | (k, v) :: rest => if k = name then (k, value) :: rest else (k, v) :: put name value rest

/-- The table without a name. -/
def remove (name : κ) : Table κ β → Table κ β
  | [] => []
  | (k, v) :: rest => if k = name then rest else (k, v) :: remove name rest

/-- All entries of one table put into another. -/
def merge (t layer : Table κ β) : Table κ β := layer.foldl (fun t e => t.put e.1 e.2) t

@[simp] theorem get?_put_self (t : Table κ β) (name : κ) (value : β) :
    (t.put name value).get? name = some value := by
  induction t with
  | nil => simp [put, get?]
  | cons e rest ih => by_cases h : e.1 = name <;> simp [put, get?, h, ih]

theorem get?_put_of_ne (t : Table κ β) {name other : κ} (value : β) (h : other ≠ name) :
    (t.put name value).get? other = t.get? other := by
  induction t with
  | nil => simp [put, get?, h.symm]
  | cons e rest ih =>
      by_cases hk : e.1 = name
      · subst hk
        simp [put, get?, h.symm]
      · simp [put, get?, hk, ih]

theorem get?_eq_none {t : Table κ β} {name : κ} (h : name ∉ t.map Prod.fst) :
    t.get? name = none := by
  induction t with
  | nil => rfl
  | cons e rest ih =>
      rw [List.map_cons, List.mem_cons, not_or] at h
      rw [get?, if_neg (Ne.symm h.1)]
      exact ih h.2

theorem put_put (t : Table κ β) (name : κ) (first second : β) :
    (t.put name first).put name second = t.put name second := by
  induction t with
  | nil => simp [put]
  | cons e rest ih => by_cases h : e.1 = name <;> simp [put, h, ih]

theorem get?_eq_some_iff {t : Table κ β} (h : (t.map Prod.fst).Nodup) {name : κ} {value : β} :
    t.get? name = some value ↔ (name, value) ∈ t := by
  induction t with
  | nil => simp [get?]
  | cons e rest ih =>
      obtain ⟨k, v⟩ := e
      rw [List.map_cons, List.nodup_cons] at h
      rw [get?, List.mem_cons, Prod.mk.injEq, ← ih h.2]
      by_cases hk : k = name
      · subst hk
        rw [if_pos rfl, get?_eq_none h.1]
        simp [eq_comm]
      · rw [if_neg hk]
        simp [Ne.symm hk]

theorem mem_keys_put {t : Table κ β} {name other : κ} {value : β} :
    other ∈ (t.put name value).map Prod.fst ↔ other = name ∨ other ∈ t.map Prod.fst := by
  induction t with
  | nil => simp [put]
  | cons e rest ih =>
      rw [put]
      split
      · next hk => simp [hk]
      · simp only [List.map_cons, List.mem_cons, ih]
        exact or_left_comm

theorem nodup_keys_put {t : Table κ β} (h : (t.map Prod.fst).Nodup) (name : κ) (value : β) :
    ((t.put name value).map Prod.fst).Nodup := by
  induction t with
  | nil => simp [put]
  | cons e rest ih =>
      rw [List.map_cons, List.nodup_cons] at h
      rw [put]
      split
      · exact List.nodup_cons.2 h
      · next hk =>
        rw [List.map_cons, List.nodup_cons, mem_keys_put]
        exact ⟨not_or.2 ⟨hk, h.1⟩, ih h.2⟩

end Table

end Phrasebook

import Phrasebook.Tree

/-!
Laws of trees. What was put at the end of a path is found there, and what is found at the end of
another path, if neither path goes on where the other ends, is what was there before. So trees that
are put at such places may be put there in either order, but for the order of the names.
-/

namespace Phrasebook

namespace Table

variable {κ β : Type} [DecidableEq κ]

theorem put_get? {t : Table κ β} {name : κ} {value : β} (h : t.get? name = some value) :
    t.put name value = t := by
  induction t with
  | nil => cases h
  | cons e rest ih =>
      obtain ⟨k, v⟩ := e
      rw [get?] at h
      rw [put]
      split at h
      · next hk =>
        obtain rfl := Option.some.inj h
        rw [if_pos hk]
      · next hk => rw [if_neg hk, ih h]

theorem remove_put {t : Table κ β} {name : κ} (h : t.get? name = none) (value : β) :
    (t.put name value).remove name = t := by
  induction t with
  | nil => simp [put, remove]
  | cons e rest ih =>
      obtain ⟨k, v⟩ := e
      rw [get?] at h
      split at h
      · cases h
      · next hk => rw [put, if_neg hk, remove, if_neg hk, ih h]

/-- The order in which two names are given matters only for their places. -/
theorem put_comm (t : Table κ β) {name other : κ} (h : name ≠ other) (value second : β) :
    ((t.put other second).put name value).Perm ((t.put name value).put other second) := by
  induction t with
  | nil =>
      simp only [put, h, h.symm, if_false]
      exact .swap ..
  | cons e rest ih =>
      obtain ⟨k, v⟩ := e
      by_cases hname : k = name
      · subst hname
        simp [put, h]
      · by_cases hother : k = other
        · subst hother
          simp [put, hname]
        · simp only [put, hname, hother, if_false]
          exact ih.cons _

/-- What is put under a name stands in one place. -/
theorem exists_put_eq (t : Table κ β) (name : κ) :
    ∃ front rest, ∀ value, t.put name value = front ++ (name, value) :: rest := by
  induction t with
  | nil => exact ⟨[], [], fun _ => rfl⟩
  | cons e rest ih =>
      obtain ⟨k, v⟩ := e
      by_cases hk : k = name
      · exact ⟨[], rest, fun value => by rw [put, if_pos hk, hk]; rfl⟩
      · obtain ⟨front, back, hput⟩ := ih
        exact ⟨(k, v) :: front, back, fun value => by rw [put, if_neg hk, hput]; rfl⟩

end Table

namespace Tree

variable {κ α : Type}

theorem children_branch (cs : List (κ × Tree κ α)) : (branch cs).children = cs := rfl

def Apart (path other : List κ) : Prop := ¬ path <+: other ∧ ¬ other <+: path

theorem Apart.symm {path other : List κ} (h : Apart path other) : Apart other path := ⟨h.2, h.1⟩

theorem apart_cons {name : κ} {path other : List κ} :
    Apart (name :: path) (name :: other) ↔ Apart path other := by
  simp [Apart, List.cons_prefix_cons]

/-- What a tree shows of itself: the value of a leaf, and of a branch that it is one. -/
def face : Tree κ α → Option α
  | leaf a => some a
  | branch _ => none

@[simp] theorem face_leaf (a : α) : (leaf a : Tree κ α).face = some a := rfl

@[simp] theorem face_branch (cs : List (κ × Tree κ α)) : (branch cs).face = none := rfl

/-- Trees that differ in the order of names only, at any depth. -/
inductive Alike : Tree κ α → Tree κ α → Prop
  | refl (t : Tree κ α) : Alike t t
  | reorder {cs ds : List (κ × Tree κ α)} (h : cs.Perm ds) : Alike (branch cs) (branch ds)
  | inside {s t : Tree κ α} (front : List (κ × Tree κ α)) (name : κ) (rest : List (κ × Tree κ α))
      (h : Alike s t) :
      Alike (branch (front ++ (name, s) :: rest)) (branch (front ++ (name, t) :: rest))
  | trans {s t u : Tree κ α} (h : Alike s t) (h' : Alike t u) : Alike s u

theorem mem_leavesBelow {cs : List (κ × Tree κ α)} {path : List κ} {a : α} :
    (path, a) ∈ leavesBelow cs ↔
      ∃ name rest t, path = name :: rest ∧ (name, t) ∈ cs ∧ (rest, a) ∈ leaves t := by
  induction cs with
  | nil => simp [leavesBelow]
  | cons c cs ih =>
      obtain ⟨name, t⟩ := c
      rw [leavesBelow, List.mem_append, ih, List.mem_map]
      constructor
      · rintro (⟨⟨rest, b⟩, hrest, hpair⟩ | ⟨first, rest, u, rfl, hu, hrest⟩)
        · obtain ⟨rfl, rfl⟩ := Prod.mk.inj hpair
          exact ⟨name, rest, t, rfl, List.mem_cons_self, hrest⟩
        · exact ⟨first, rest, u, rfl, List.mem_cons_of_mem _ hu, hrest⟩
      · rintro ⟨first, rest, u, rfl, hu, hrest⟩
        rcases List.mem_cons.1 hu with hpair | hu
        · obtain ⟨rfl, rfl⟩ := Prod.mk.inj hpair
          exact Or.inl ⟨(rest, a), hrest, rfl⟩
        · exact Or.inr ⟨first, rest, u, rfl, hu, hrest⟩

variable [DecidableEq κ]

/-! ### What was put into a tree -/

theorem graft_graft (first second : Tree κ α) (path : List κ) (t : Tree κ α) :
    graft second path (graft first path t) = graft second path t := by
  induction path generalizing t with
  | nil => rfl
  | cons name path ih =>
      rw [graft, graft, graft, children_branch, Table.get?_put_self, Option.getD_some, ih,
        Table.put_put]

/-- On the way to what was put into a tree, the rest of the way is put into what was there. -/
theorem get?_graft_append (new : Tree κ α) (path rest : List κ) (t : Tree κ α) :
    get? path (graft new (path ++ rest) t) =
      some (graft new rest ((get? path t).getD (branch []))) := by
  induction path generalizing t with
  | nil => rfl
  | cons name path ih =>
      rw [List.cons_append, graft, get?, children_branch, Table.get?_put_self, Option.bind_some,
        ih, get?]
      cases t.children.get? name with
      | some child => rfl
      | none => cases path <;> rfl

theorem get?_graft (new : Tree κ α) (path : List κ) (t : Tree κ α) :
    get? path (graft new path t) = some new := by
  have h := get?_graft_append new path [] t
  rwa [List.append_nil] at h

theorem get?_graft_of_apart (new : Tree κ α) {path other : List κ} (h : Apart other path)
    (t : Tree κ α) : get? other (graft new path t) = get? other t := by
  induction path generalizing other t with
  | nil => exact absurd List.nil_prefix h.2
  | cons name path ih =>
      cases other with
      | nil => exact absurd List.nil_prefix h.1
      | cons first other =>
          rw [graft, get?, get?, children_branch]
          by_cases hfirst : first = name
          · subst hfirst
            rw [Table.get?_put_self, Option.bind_some, ih (apart_cons.1 h)]
            cases t.children.get? first with
            | some child => rfl
            | none =>
                -- where nothing was there is nothing yet, since the paths part further down
                cases other with
                | nil => exact absurd List.nil_prefix (apart_cons.1 h).1
                | cons second other => rfl
          · rw [Table.get?_put_of_ne _ _ hfirst]

/-- The leaves of a tree after one was put into it: the new one, and those apart from it. -/
theorem get?_graft_eq_leaf {value a : α} {path other : List κ} {t : Tree κ α} :
    get? other (graft (leaf value) path t) = some (leaf a) ↔
      other = path ∧ a = value ∨ Apart other path ∧ get? other t = some (leaf a) := by
  by_cases hbelow : path <+: other
  · -- a leaf has nothing below it
    obtain ⟨rest, rfl⟩ := hbelow
    rw [get?_append, get?_graft, Option.bind_some]
    cases rest with
    | nil => simp [get?, Apart, eq_comm]
    | cons name rest => simp [get?, children, Table.get?, Apart]
  · by_cases habove : other <+: path
    · -- on the way to it there are branches
      obtain ⟨rest, rfl⟩ := habove
      rw [get?_graft_append]
      cases rest with
      | nil => simp at hbelow
      | cons name rest => simp [graft, Apart]
    · have happart : Apart other path := ⟨habove, hbelow⟩
      rw [get?_graft_of_apart _ happart]
      have hne : other ≠ path := fun h => habove (h ▸ List.prefix_rfl)
      simp [happart, hne]

/-- A tree with a child is a branch. -/
theorem eq_branch {t child : Tree κ α} {name : κ} (h : t.children.get? name = some child) :
    t = branch t.children := by
  cases t with
  | leaf a => cases h
  | branch cs => rfl

/-- A path that leads somewhere leads through its first name. -/
theorem exists_child {name : κ} {path : List κ} {t found : Tree κ α}
    (h : get? (name :: path) t = some found) :
    ∃ child, t.children.get? name = some child ∧ get? path child = some found := by
  rw [get?] at h
  cases hc : t.children.get? name with
  | none => simp [hc] at h
  | some child => exact ⟨child, rfl, by simpa [hc] using h⟩

theorem prune_cons {name : κ} {path : List κ} {t child : Tree κ α} (hne : path ≠ [])
    (h : t.children.get? name = some child) :
    prune (name :: path) t = branch (t.children.put name (prune path child)) := by
  cases path with
  | nil => exact absurd rfl hne
  | cons second rest =>
      rw [prune.eq_def]
      simp only [h]

/-- What is put at a free name of a branch can be taken away again. -/
theorem prune_graft {path : List κ} {name : κ} {t : Tree κ α} {cs : Table κ (Tree κ α)}
    (hdir : get? path t = some (branch cs)) (hfree : cs.get? name = none) (new : Tree κ α) :
    prune (path ++ [name]) (graft new (path ++ [name]) t) = t := by
  induction path generalizing t with
  | nil =>
      obtain rfl := Option.some.inj hdir
      simp only [List.nil_append, graft, prune, children_branch, Table.get?_put_self]
      rw [Table.remove_put hfree]
  | cons first path ih =>
      obtain ⟨child, hchild, hrest⟩ := exists_child hdir
      have hput : (graft new (first :: (path ++ [name])) t).children.get? first =
          some (graft new (path ++ [name]) child) := by
        rw [graft, children_branch, Table.get?_put_self, hchild, Option.getD_some]
      rw [List.cons_append, prune_cons (by simp) hput, ih hrest, graft, children_branch,
        Table.put_put, Table.put_get? hchild]
      exact (eq_branch hchild).symm

/-- A leaf put into a branch, where no branch was, changes what stands at no other place. -/
theorem face_graft {path : List κ} {name : κ} {t : Tree κ α} {cs : Table κ (Tree κ α)}
    (hdir : get? path t = some (branch cs))
    (hfile : ∀ child ∈ cs.get? name, child.face.isSome = true) (a : α) {other : List κ}
    (hne : other ≠ path ++ [name]) :
    (get? other (graft (leaf a) (path ++ [name]) t)).map face = (get? other t).map face := by
  induction path generalizing t other with
  | nil =>
      obtain rfl := Option.some.inj hdir
      cases other with
      | nil => rfl
      | cons m rest =>
          simp only [List.nil_append, graft, get?, children_branch]
          by_cases hm : m = name
          · -- below a leaf there is nothing, neither before nor after
            subst hm
            obtain ⟨x, rest, rfl⟩ : ∃ x r, rest = x :: r := by
              cases rest with
              | nil => exact absurd rfl hne
              | cons x r => exact ⟨x, r, rfl⟩
            rw [Table.get?_put_self]
            cases hc : cs.get? m with
            | none => rfl
            | some child =>
                have hface := hfile child hc
                cases child with
                | leaf b => rfl
                | branch _ => cases hface
          · rw [Table.get?_put_of_ne _ _ hm]
  | cons first path ih =>
      obtain ⟨child, hchild, hrest⟩ := exists_child hdir
      cases other with
      | nil =>
          rw [eq_branch hchild]
          rfl
      | cons m rest =>
          simp only [List.cons_append, graft, get?, children_branch]
          by_cases hm : m = first
          · subst hm
            rw [Table.get?_put_self, hchild, Option.getD_some]
            exact ih hrest fun h => hne (by rw [h]; rfl)
          · rw [Table.get?_put_of_ne _ _ hm]

/-- What a path to a branch goes through are branches. -/
theorem exists_branch_of_append {path rest : List κ} {t : Tree κ α} {cs : Table κ (Tree κ α)}
    (h : get? (path ++ rest) t = some (branch cs)) : ∃ ds, get? path t = some (branch ds) := by
  rw [get?_append] at h
  cases hp : get? path t with
  | none => simp [hp] at h
  | some found =>
      cases found with
      | branch ds => exact ⟨ds, rfl⟩
      | leaf a => cases rest <;> simp [hp, get?, children, Table.get?] at h

/-! ### The order of names -/

theorem alike_put {s t : Tree κ α} (h : Alike s t) (cs : Table κ (Tree κ α)) (name : κ) :
    Alike (branch (cs.put name s)) (branch (cs.put name t)) := by
  obtain ⟨front, rest, hput⟩ := cs.exists_put_eq name
  rw [hput, hput]
  exact .inside front name rest h

/-- Trees that are put at places apart from one another may be put there in either order. -/
theorem graft_comm (first second : Tree κ α) {path other : List κ} (h : Apart path other)
    (t : Tree κ α) :
    Alike (graft first path (graft second other t)) (graft second other (graft first path t)) := by
  induction path generalizing other t with
  | nil => exact absurd List.nil_prefix h.1
  | cons name path ih =>
      cases other with
      | nil => exact absurd List.nil_prefix h.2
      | cons name' other =>
          simp only [graft, children_branch]
          by_cases hname : name = name'
          · subst hname
            rw [Table.get?_put_self, Table.get?_put_self, Table.put_put, Table.put_put]
            exact alike_put (ih (apart_cons.1 h) _) _ _
          · rw [Table.get?_put_of_ne _ _ hname, Table.get?_put_of_ne _ _ (Ne.symm hname)]
            exact .reorder (Table.put_comm _ hname _ _)

/-! ### Distinct names -/

variable {valid : κ → Prop}

/-- In every branch of a tree the names are distinct and valid. -/
def Proper (valid : κ → Prop) (t : Tree κ α) : Prop :=
  ∀ path cs, get? path t = some (branch cs) →
    (cs.map Prod.fst).Nodup ∧ ∀ name ∈ cs.map Prod.fst, valid name

theorem proper_leaf (a : α) : (leaf a : Tree κ α).Proper valid := by
  intro path cs h
  cases path <;> cases h

theorem proper_nil : (branch [] : Tree κ α).Proper valid := by
  intro path cs h
  cases path with
  | nil =>
      obtain rfl := branch.inj (Option.some.inj h)
      simp
  | cons name path => cases h

theorem Proper.child {t child : Tree κ α} (h : t.Proper valid) {name : κ}
    (hchild : t.children.get? name = some child) : child.Proper valid := by
  intro path cs hpath
  refine h (name :: path) cs ?_
  rw [get?, hchild]
  exact hpath

theorem Proper.nodup {cs : Table κ (Tree κ α)} (h : (branch cs).Proper valid) :
    (cs.map Prod.fst).Nodup :=
  (h [] cs rfl).1

/-- A tree put into another at a valid path leaves the names of that one valid and distinct. -/
theorem Proper.graft {new : Tree κ α} (hnew : new.Proper valid) {path : List κ}
    (hpath : ∀ name ∈ path, valid name) {t : Tree κ α} (ht : t.Proper valid) :
    (graft new path t).Proper valid := by
  induction path generalizing t with
  | nil => exact hnew
  | cons name path ih =>
      have hold : (t.children.map Prod.fst).Nodup ∧ ∀ n ∈ t.children.map Prod.fst, valid n := by
        cases t with
        | leaf a => simp [children]
        | branch cs => exact ht [] cs rfl
      have hbelow :
          (Tree.graft new path ((t.children.get? name).getD (branch []))).Proper valid := by
        refine ih (fun n hn => hpath n (List.mem_cons_of_mem _ hn)) ?_
        cases hchild : t.children.get? name with
        | none => exact proper_nil
        | some child => exact ht.child hchild
      intro place cs hplace
      cases place with
      | nil =>
          obtain rfl := branch.inj (Option.some.inj hplace)
          refine ⟨Table.nodup_keys_put hold.1 _ _, fun n hn => ?_⟩
          rcases Table.mem_keys_put.1 hn with rfl | hn
          · exact hpath n List.mem_cons_self
          · exact hold.2 n hn
      | cons first place =>
          rw [get?, Tree.graft, children_branch] at hplace
          by_cases hfirst : first = name
          · subst hfirst
            rw [Table.get?_put_self] at hplace
            exact hbelow place cs hplace
          · rw [Table.get?_put_of_ne _ _ hfirst] at hplace
            exact ht (first :: place) cs hplace

/-- The leaves of a tree with distinct names are found by their paths. -/
theorem Proper.mem_leaves {t : Tree κ α} (h : t.Proper valid) {path : List κ} {a : α} :
    (path, a) ∈ leaves t ↔ get? path t = some (leaf a) := by
  induction path generalizing t with
  | nil =>
      cases t with
      | leaf b => simp [leaves, get?, eq_comm]
      | branch cs => simp [leaves, get?, mem_leavesBelow]
  | cons name path ih =>
      cases t with
      | leaf b => simp [leaves, get?, children, Table.get?]
      | branch cs =>
          rw [leaves, mem_leavesBelow, get?, children_branch, Option.bind_eq_some_iff]
          constructor
          · rintro ⟨first, rest, child, hpath, hchild, hleaf⟩
            obtain ⟨rfl, rfl⟩ := List.cons.inj hpath
            have hget := (Table.get?_eq_some_iff h.nodup).2 hchild
            exact ⟨child, hget, (ih (h.child hget)).1 hleaf⟩
          · rintro ⟨child, hchild, hleaf⟩
            exact ⟨name, path, child, rfl, (Table.get?_eq_some_iff h.nodup).1 hchild,
              (ih (h.child hchild)).2 hleaf⟩

end Tree

end Phrasebook

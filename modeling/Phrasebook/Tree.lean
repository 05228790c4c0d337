import Phrasebook.Table

/-!
Trees whose branches have names. They hold locale bundles, where the leaves are texts, and
directories, where the leaves are files.
-/

namespace Phrasebook

inductive Tree (κ α : Type) where
  | leaf (value : α)
  | branch (children : List (κ × Tree κ α))

namespace Tree

variable {κ α : Type}

instance : Inhabited (Tree κ α) := ⟨branch []⟩

/-- The branches of a tree; a leaf has none. -/
def children : Tree κ α → Table κ (Tree κ α)
  | leaf _ => []
  | branch cs => cs

variable [DecidableEq κ]

/-- The tree at the end of a path. -/
def get? : List κ → Tree κ α → Option (Tree κ α)
  | [], t => some t
  | name :: path, t => (t.children.get? name).bind (get? path)

/-- Puts a tree at the end of a path. Branches that are missing on the way are made, and leaves
in the way are replaced by them. -/
def graft (new : Tree κ α) : List κ → Tree κ α → Tree κ α
  | [], _ => new
  | name :: path, t =>
      branch (t.children.put name (graft new path ((t.children.get? name).getD (branch []))))

/-- Takes away the tree at the end of a path, if there is one. -/
def prune : List κ → Tree κ α → Tree κ α
  | [], t => t
  | name :: path, t =>
      match t.children.get? name, path with
      | none, _ => t
      | some _, [] => branch (t.children.remove name)
      | some child, _ :: _ => branch (t.children.put name (prune path child))

theorem get?_append (path rest : List κ) (t : Tree κ α) :
    get? (path ++ rest) t = (get? path t).bind (get? rest) := by
  induction path generalizing t with
  | nil => rfl
  | cons name path ih =>
      rw [List.cons_append, get?, get?]
      cases t.children.get? name with
      | none => rfl
      | some child => exact ih child

/-! ### Leaves -/

mutual

/-- The leaves of a tree with the paths that lead to them. -/
def leaves : Tree κ α → List (List κ × α)
  | leaf a => [([], a)]
  | branch cs => leavesBelow cs

def leavesBelow : List (κ × Tree κ α) → List (List κ × α)
  | [] => []
  | (name, t) :: rest => (leaves t).map (fun e => (name :: e.1, e.2)) ++ leavesBelow rest

end

end Tree

end Phrasebook

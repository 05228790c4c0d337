import Phrasebook.Path
import Phrasebook.Tree

/-!
Locale bundles: texts under dotted keys, kept as nested mappings with one level for each name
between the dots.
-/

namespace Phrasebook

abbrev Bundle (α : Type) := Tree (List Char) α

namespace Bundle

variable {α : Type}

def segments (key : List Char) : List (List Char) := Path.splitAt '.' key

/-- Stores a value under a dotted key. -/
def nest (key : List Char) (value : Bundle α) (b : Bundle α) : Bundle α :=
  Tree.graft value (segments key) b

/-- The value under a dotted key. -/
def lookup? (key : List Char) (b : Bundle α) : Option (Bundle α) := Tree.get? (segments key) b

/-- A name below a key. -/
def extend (key name : List Char) : List Char := if key.isEmpty then name else key ++ '.' :: name

mutual

def flattenTree (key : List Char) : Bundle α → List (List Char)
  | .leaf _ => [key]
  | .branch cs => flatten key cs

/-- The dotted keys of all values below a key, level by level. -/
def flatten (key : List Char) : List (List Char × Bundle α) → List (List Char)
  | [] => []
  | (name, t) :: rest => flattenTree (extend key name) t ++ flatten key rest

end

/-- Keys in the order of their characters. -/
def precedes (a b : List Char) : Bool := !decide (b < a)

/-- The dotted keys of a bundle, each once and in order. -/
def keys (key : List Char) (b : Bundle α) : List (List Char) :=
  ((flatten key b.children).eraseDups).mergeSort precedes

end Bundle

end Phrasebook

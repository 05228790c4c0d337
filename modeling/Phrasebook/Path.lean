/-!
File paths. A path has a root, empty for a relative path, and the names below it; empty names
and single dots are never kept, while double dots are, until the path is resolved.
-/

namespace Phrasebook

structure Path where
  root : String
  parts : List String
  deriving DecidableEq, Repr, Inhabited

namespace Path

/-- Cuts a text at every occurrence of a character. -/
def splitAt (separator : Char) : List Char → List (List Char)
  | [] => [[]]
  | c :: r =>
      if c == separator then [] :: splitAt separator r
      else match splitAt separator r with
        | [] => [[c]]
        | piece :: pieces => (c :: piece) :: pieces

section

variable {separator : Char}

theorem splitAt_of_not_mem {p : List Char} (h : separator ∉ p) : splitAt separator p = [p] := by
  induction p with
  | nil => rfl
  | cons c p ih =>
      rw [List.mem_cons, not_or] at h
      rw [splitAt, if_neg (by simpa using Ne.symm h.1), ih h.2]

theorem splitAt_append_cons {p : List Char} (h : separator ∉ p) (rest : List Char) :
    splitAt separator (p ++ separator :: rest) = p :: splitAt separator rest := by
  induction p with
  | nil => rw [List.nil_append, splitAt, if_pos (beq_self_eq_true separator)]
  | cons c p ih =>
      rw [List.mem_cons, not_or] at h
      rw [List.cons_append, splitAt, if_neg (by simpa using Ne.symm h.1), ih h.2]

theorem splitAt_intercalate {p : List Char} {ps : List (List Char)}
    (h : ∀ q ∈ p :: ps, separator ∉ q) :
    splitAt separator ([separator].intercalate (p :: ps)) = p :: ps := by
  induction ps generalizing p with
  | nil =>
      rw [List.intercalate_singleton]
      exact splitAt_of_not_mem (h p List.mem_cons_self)
  | cons q qs ih =>
      rw [List.intercalate_cons_cons, List.append_assoc, List.singleton_append,
        splitAt_append_cons (h p List.mem_cons_self),
        ih fun r hr => h r (List.mem_cons_of_mem p hr)]

theorem splitAt_ne_nil (text : List Char) : splitAt separator text ≠ [] := by
  cases text with
  | nil => exact List.cons_ne_nil _ _
  | cons c rest =>
      rw [splitAt]
      split
      · exact List.cons_ne_nil _ _
      · split <;> exact List.cons_ne_nil _ _

/-- The pieces of a text, put together again. -/
theorem intercalate_splitAt (separator : Char) (text : List Char) :
    [separator].intercalate (splitAt separator text) = text := by
  induction text with
  | nil => rfl
  | cons c rest ih =>
      have hne : splitAt separator rest ≠ [] := splitAt_ne_nil rest
      obtain ⟨p, ps, hps⟩ := List.exists_cons_of_ne_nil hne
      rw [hps] at ih
      by_cases hc : c = separator
      · rw [splitAt, if_pos (beq_iff_eq.2 hc), hps, List.intercalate_cons_cons, ih, hc]
        rfl
      · rw [splitAt, if_neg (by simpa using hc), hps]
        cases ps with
        | nil =>
            rw [List.intercalate_singleton] at ih ⊢
            rw [ih]
        | cons q qs =>
            rw [List.intercalate_cons_cons] at ih ⊢
            rw [← ih]
            rfl

end

/-- Two slashes in front, but not three, are a root of their own. -/
def rootOf : List Char → String
  | '/' :: '/' :: '/' :: _ => "/"
  | '/' :: '/' :: _ => "//"
  | '/' :: _ => "/"
  | _ => ""

def ofChars (text : List Char) : Path :=
  ⟨rootOf text, ((splitAt '/' text).filter fun p => p != [] && p != ['.']).map String.ofList⟩

def ofString (s : String) : Path := ofChars s.toList

def isAbsolute (p : Path) : Bool := p.root != ""

protected def toString (p : Path) : String :=
  if p.root == "" && p.parts.isEmpty then "." else p.root ++ "/".intercalate p.parts

/-- The path seen from another one; an absolute path stays itself. -/
def join (base p : Path) : Path :=
  if p.isAbsolute then p else ⟨base.root, base.parts ++ p.parts⟩

def child (base : Path) (name : String) : Path := ⟨base.root, base.parts ++ [name]⟩

def parent (p : Path) : Path := ⟨p.root, p.parts.dropLast⟩

/-- The last name, or nothing. -/
def name (p : Path) : List Char := (p.parts.getLast?.getD "").toList

/-- Whether a null character stands in a name, as it does in that of no file. -/
def hasNull (p : Path) : Bool := p.parts.any fun name => name.toList.contains '\x00'

/-- The last name from its last dot on, unless the dot is its first or last character. -/
def suffix (p : Path) : List Char :=
  let name := p.name
  let tail := name.reverse.takeWhile (· != '.')
  if tail.length + 1 < name.length && 0 < tail.length then '.' :: tail.reverse else []

/-- Takes double dots away together with the name before them; at the root they vanish. -/
def normalParts (parts : List String) : List String :=
  (parts.foldl (fun kept part => if part == ".." then kept.tail else part :: kept) []).reverse

theorem mem_of_mem_normalParts {name : String} {parts : List String}
    (h : name ∈ normalParts parts) :
    name ∈ parts := by
  have hkept : ∀ (parts kept : List String),
      name ∈ parts.foldl (fun kept part => if part == ".." then kept.tail else part :: kept) kept →
        name ∈ kept ∨ name ∈ parts := by
    intro parts
    induction parts with
    | nil => exact fun kept h => Or.inl h
    | cons part parts ih =>
        intro kept h
        rw [List.foldl_cons] at h
        rcases ih _ h with h | h
        · split at h
          · exact Or.inl (List.mem_of_mem_tail h)
          · rcases List.mem_cons.1 h with rfl | h
            · exact Or.inr List.mem_cons_self
            · exact Or.inl h
        · exact Or.inr (List.mem_cons_of_mem part h)
  rw [normalParts, List.mem_reverse] at h
  exact (hkept parts [] h).resolve_left List.not_mem_nil

def normalize (p : Path) : Path := ⟨p.root, normalParts p.parts⟩

theorem hasNull_normalize {p : Path} (h : p.hasNull = false) : p.normalize.hasNull = false := by
  rw [hasNull, List.any_eq_false] at h ⊢
  exact fun name hname => h name (mem_of_mem_normalParts hname)

/-- The part of a path below a directory. -/
def relativeTo? (base p : Path) : Option (List String) :=
  if base.root == p.root && base.parts.isPrefixOf p.parts then some (p.parts.drop base.parts.length)
  else none

/-- The path and everything above it, from the top down. -/
def lineage (p : Path) : List Path :=
  let heads := (List.range (p.parts.length + 1)).map fun n => Path.mk p.root (p.parts.take n)
  if p.isAbsolute then heads else heads.tail

/-- Paths are ordered name by name, names by their characters. -/
def precedes (a b : Path) : Bool := !decide (b.parts < a.parts)

end Path

end Phrasebook

import Mathlib.Data.List.Basic
import Mathlib.Data.List.Induction
import Phrasebook.Bundle
import Phrasebook.Proofs.Tree

/-!
Locale bundles as maps from dotted keys. Two keys are related if the segments of one begin with
those of the other. A value that is stored can be looked up and unrelated keys keep theirs, so the
keys of a bundle are those that were stored and to which no later one is related.
-/

namespace Phrasebook.Bundle

variable {α : Type}

/-! ### Looking up what is stored -/

/-- Neither key goes on where the other ends. -/
def Unrelated (key other : List Char) : Prop := Tree.Apart (segments key) (segments other)

instance (key other : List Char) : Decidable (Unrelated key other) :=
  inferInstanceAs
    (Decidable (¬ segments key <+: segments other ∧ ¬ segments other <+: segments key))

/-- Storing and looking up obey the laws of a lens: what is stored is found, of two values stored
under one key the second counts, and an unrelated key is not touched. Values under unrelated keys
may be stored in either order, but for the order of the names. -/
theorem nest_lens (key other : List Char) (value second b : Bundle α) :
    lookup? key (nest key value b) = some value ∧
      nest key value (nest key second b) = nest key value b ∧
      (Unrelated key other →
        lookup? other (nest key value b) = lookup? other b ∧
          Tree.Alike (nest key value (nest other second b))
            (nest other second (nest key value b))) := by
  refine ⟨Tree.get?_graft value _ b, Tree.graft_graft second value _ b, fun h => ⟨?_, ?_⟩⟩
  · exact Tree.get?_graft_of_apart value h.symm b
  · exact Tree.graft_comm value second h b

/-- A key that leads through a value replaces it by a mapping, and the value beside it stays. -/
theorem nest_lens_beside :
    let b : Bundle Nat :=
      .branch [("errors".toList, .branch [("form".toList, .leaf 1), ("other".toList, .leaf 2)])]
    let required := "errors.form.required".toList
    let other := "errors.other".toList
    Unrelated required other ∧
      lookup? other (nest required (.leaf 3) b) = some (.leaf 2) ∧
      Tree.Alike (nest required (.leaf 3) (nest other (.leaf 4) b))
        (nest other (.leaf 4) (nest required (.leaf 3) b)) := by
  intro b required other
  have hunrelated : Unrelated required other := by decide
  obtain ⟨hlookup, halike⟩ := (nest_lens required other (.leaf 3) (.leaf 4) b).2.2 hunrelated
  exact ⟨hunrelated, hlookup.trans rfl, halike⟩

/-! ### Keys and segments -/

def Begins (key : List Char) : Prop := (segments key).head? ≠ some []

instance (key : List Char) : Decidable (Begins key) :=
  inferInstanceAs (Decidable ((segments key).head? ≠ some []))

theorem foldl_extend {key : List Char} (h : key ≠ []) (names : List (List Char)) :
    names.foldl extend key = ['.'].intercalate (key :: names) := by
  induction names generalizing key with
  | nil => rw [List.intercalate_singleton, List.foldl_nil]
  | cons name names ih =>
      have hextend : extend key name = key ++ '.' :: name := by
        rw [extend, if_neg (by simpa using h)]
      rw [List.foldl_cons, hextend, ih (by simp), List.intercalate_cons_cons]
      cases names with
      | nil => simp [List.intercalate_singleton]
      | cons next names => simp [List.intercalate_cons_cons]

/-- A key is put together again from its segments. -/
theorem foldl_segments {key : List Char} (h : Begins key) :
    (segments key).foldl extend [] = key := by
  have hjoin := Path.intercalate_splitAt '.' key
  rw [← segments] at hjoin
  unfold Begins at h
  cases hsegments : segments key with
  | nil => exact absurd hsegments (Path.splitAt_ne_nil key)
  | cons first names =>
      rw [hsegments] at h hjoin
      have hfirst : first ≠ [] := fun hnil => h (by rw [hnil]; rfl)
      rw [List.foldl_cons, show extend [] first = first from rfl, foldl_extend hfirst, hjoin]

theorem segments_injective {key other : List Char} (h : segments key = segments other) :
    key = other := by
  rw [← Path.intercalate_splitAt '.' key, ← segments, h, segments,
    Path.intercalate_splitAt]

mutual

theorem flattenTree_eq (key : List Char) (t : Bundle α) :
    flattenTree key t = t.leaves.map fun e => e.1.foldl extend key := by
  cases t with
  | leaf a => simp [flattenTree, Tree.leaves]
  | branch cs => rw [flattenTree, flatten_eq, Tree.leaves]

/-- The keys of a bundle are the paths to its leaves, put together. -/
theorem flatten_eq (key : List Char) (cs : List (List Char × Bundle α)) :
    flatten key cs = (Tree.leavesBelow cs).map fun e => e.1.foldl extend key := by
  cases cs with
  | nil => simp [flatten, Tree.leavesBelow]
  | cons c rest =>
      obtain ⟨name, t⟩ := c
      rw [flatten, flattenTree_eq, flatten_eq, Tree.leavesBelow, List.map_append, List.map_map]
      rfl

end

/-! ### Stored keys -/

/-- A bundle with distinct names, in which the paths to the values are the segments of keys. -/
structure Keyed (b : Bundle α) : Prop where
  mapping : ∃ cs, b = .branch cs
  distinct : b.Proper fun _ => True
  named : ∀ path a, Tree.get? path b = some (.leaf a) → ∃ key, Begins key ∧ path = segments key

theorem keyed_empty : Keyed (.branch [] : Bundle α) where
  mapping := ⟨[], rfl⟩
  distinct := Tree.proper_nil
  named := by
    intro path a h
    cases path <;> cases h

theorem Keyed.nest {b : Bundle α} (hb : b.Keyed) {key : List Char} (hkey : Begins key) (value : α) :
    (nest key (.leaf value) b).Keyed where
  mapping := by
    obtain ⟨first, names, hsegments⟩ := List.exists_cons_of_ne_nil (Path.splitAt_ne_nil key)
    exact ⟨_, by rw [Bundle.nest, segments, hsegments, Tree.graft]⟩
  distinct := (Tree.proper_leaf value).graft (fun _ _ => trivial) hb.distinct
  named := by
    intro path a h
    rcases Tree.get?_graft_eq_leaf.1 h with ⟨rfl, -⟩ | ⟨-, h⟩
    · exact ⟨key, hkey, rfl⟩
    · exact hb.named path a h

/-- The keys of a bundle are those with a value. -/
theorem Keyed.mem_keys {b : Bundle α} (hb : b.Keyed) {key : List Char} :
    key ∈ keys [] b ↔ Begins key ∧ ∃ a, lookup? key b = some (.leaf a) := by
  obtain ⟨cs, rfl⟩ := hb.mapping
  have hleaf : ∀ path a, (path, a) ∈ Tree.leavesBelow cs ↔
      Tree.get? path (.branch cs : Bundle α) = some (.leaf a) := by
    intro path a
    rw [← hb.distinct.mem_leaves, Tree.leaves]
  rw [keys, List.mem_mergeSort, List.mem_eraseDups, Tree.children_branch, flatten_eq, List.mem_map]
  constructor
  · rintro ⟨⟨path, a⟩, hmem, rfl⟩
    -- only the segments of a key are sure to come apart again where they were put together
    have hget := (hleaf path a).1 hmem
    obtain ⟨other, hbegins, rfl⟩ := hb.named path a hget
    rw [foldl_segments hbegins]
    exact ⟨hbegins, a, hget⟩
  · rintro ⟨hbegins, a, hget⟩
    exact ⟨(segments key, a), (hleaf _ a).2 hget, foldl_segments hbegins⟩

/-- Storing a value adds its key and takes away all that are related to it. -/
theorem Keyed.mem_keys_nest {b : Bundle α} (hb : b.Keyed) {key : List Char} (hkey : Begins key)
    (value : α) {other : List Char} :
    other ∈ keys [] (Bundle.nest key (.leaf value) b) ↔
      other = key ∨ other ∈ keys [] b ∧ Unrelated other key := by
  rw [(hb.nest hkey value).mem_keys, hb.mem_keys]
  simp only [lookup?, Bundle.nest, Tree.get?_graft_eq_leaf]
  constructor
  · rintro ⟨hbegins, a, ⟨hsegments, -⟩ | ⟨happart, hget⟩⟩
    · exact Or.inl (segments_injective hsegments)
    · exact Or.inr ⟨⟨hbegins, a, hget⟩, happart⟩
  · rintro (rfl | ⟨⟨hbegins, a, hget⟩, happart⟩)
    · exact ⟨hkey, value, Or.inl ⟨rfl, rfl⟩⟩
    · exact ⟨hbegins, a, Or.inr ⟨happart, hget⟩⟩

def stored (entries : List (List Char × α)) : Bundle α :=
  entries.foldl (fun b e => nest e.1 (.leaf e.2) b) (.branch [])

theorem stored_concat (entries : List (List Char × α)) (key : List Char) (value : α) :
    stored (entries ++ [(key, value)]) = nest key (.leaf value) (stored entries) := by
  rw [stored, List.foldl_append]
  rfl

theorem keyed_stored {entries : List (List Char × α)} (h : ∀ e ∈ entries, Begins e.1) :
    (stored entries).Keyed := by
  induction entries using List.reverseRecOn with
  | nil => exact keyed_empty
  | append_singleton entries e ih =>
      obtain ⟨hentries, he⟩ := List.forall_mem_append.1 h
      rw [stored_concat]
      exact (ih hentries).nest (he e List.mem_cons_self) e.2

/-- The keys of what was stored are those to which none stored later is related. -/
theorem mem_keys_stored {entries : List (List Char × α)} (h : ∀ e ∈ entries, Begins e.1)
    (key : List Char) :
    key ∈ keys [] (stored entries) ↔
      ∃ before value since, entries = before ++ (key, value) :: since ∧
        ∀ e ∈ since, Unrelated key e.1 := by
  -- along the entries from the last one on
  induction entries using List.reverseRecOn with
  | nil =>
      have hkeys : keys [] (stored ([] : List (List Char × α))) = [] := by
        simp [stored, keys, Tree.children_branch, flatten]
      simp [hkeys]
  | append_singleton entries e ih =>
      obtain ⟨last, value⟩ := e
      obtain ⟨hentries, hlast⟩ := List.forall_mem_append.1 h
      rw [stored_concat, (keyed_stored hentries).mem_keys_nest (hlast _ List.mem_cons_self),
        ih hentries]
      constructor
      · rintro (rfl | ⟨⟨before, first, since, rfl, hsince⟩, hunrelated⟩)
        · exact ⟨entries, value, [], rfl, by simp⟩
        · refine ⟨before, first, since ++ [(last, value)], by simp, ?_⟩
          exact List.forall_mem_append.2 ⟨hsince, List.forall_mem_singleton.2 hunrelated⟩
      · rintro ⟨before, first, since, hsplit, hsince⟩
        rcases List.eq_nil_or_concat' since with rfl | ⟨between, e, rfl⟩
        · obtain ⟨-, hpair⟩ := List.append_inj' hsplit rfl
          obtain ⟨rfl, -⟩ := Prod.mk.inj (List.singleton_inj.1 hpair)
          exact Or.inl rfl
        · rw [← List.cons_append, ← List.append_assoc] at hsplit
          obtain ⟨rfl, hpair⟩ := List.append_inj' hsplit rfl
          obtain rfl := List.singleton_inj.1 hpair
          obtain ⟨hbetween, hunrelated⟩ := List.forall_mem_append.1 hsince
          exact Or.inr ⟨⟨before, first, between, rfl, hbetween⟩, hunrelated _ List.mem_cons_self⟩

/-- Storing one more value in a bundle adds its key and takes away the keys related to it. So after
values were stored one after another, the keys of the bundle are those to which none stored later is
related. -/
theorem keys_stored {entries : List (List Char × α)} (h : ∀ e ∈ entries, Begins e.1) :
    (∀ key value, Begins key → ∀ other,
      other ∈ keys [] (nest key (.leaf value) (stored entries)) ↔
        other = key ∨ other ∈ keys [] (stored entries) ∧ Unrelated other key) ∧
    ∀ key, key ∈ keys [] (stored entries) ↔
      ∃ before value since, entries = before ++ (key, value) :: since ∧
        ∀ e ∈ since, Unrelated key e.1 :=
  ⟨fun _ value hkey _ => (keyed_stored h).mem_keys_nest hkey value, mem_keys_stored h⟩

/-- A key that goes on from a stored one takes it away and leaves the one beside it. -/
theorem keys_stored_beside :
    let entries := [("a.b".toList, 1), ("a.c".toList, 2)]
    let next := "a.b.d".toList
    (∀ e ∈ entries, Begins e.1) ∧ Begins next ∧ "a.b".toList ∈ keys [] (stored entries) ∧
      "a.b".toList ∉ keys [] (nest next (.leaf 3) (stored entries)) ∧
      "a.c".toList ∈ keys [] (nest next (.leaf 3) (stored entries)) := by
  intro entries next
  have hentries : ∀ e ∈ entries, Begins e.1 := by decide
  have hnext : Begins next := by decide
  obtain ⟨hnest, hkeys⟩ := keys_stored hentries
  refine ⟨hentries, hnext, ?_, fun hkept => ?_, ?_⟩
  · exact (hkeys _).2 ⟨[], 1, [("a.c".toList, 2)], rfl, by decide⟩
  · rcases (hnest next 3 hnext _).1 hkept with hsame | ⟨-, hunrelated⟩
    · exact absurd hsame (by decide)
    · exact absurd hunrelated (by decide)
  · have hbefore := (hkeys "a.c".toList).2 ⟨[("a.b".toList, 1)], 2, [], rfl, by simp⟩
    exact (hnest next 3 hnext _).2 (Or.inr ⟨hbefore, by decide⟩)

end Phrasebook.Bundle

import Phrasebook.Proofs.DiffReader

/-!
Applying a difference. The hunks that show the groups of a script turn the lines of the first text
into those of the second, provided that they are read as they were written. They are, unless an
unended last line is replaced: it runs on into the line after it, and the hunk then counts one line
more than it has.
-/

namespace Phrasebook.Diff

open Text (fedLines IsOneLine)

/-! ### Hunks of groups -/

def Hunk.ofGroup (a b : List Line) (group : List Step) : Hunk :=
  let left := (group.head?.map Step.leftStart).getD 0
  let right := (group.head?.map Step.rightStart).getD 0
  ⟨left, (group.getLast?.map Step.leftStop).getD 0 - left,
    right, (group.getLast?.map Step.rightStop).getD 0 - right, group.flatMap (Step.shown a b)⟩

section

variable {a b : List Line}

theorem Script.mono {p q : Position} {l : List Step} (h : Script a b p l q) :
    p.1 ≤ q.1 ∧ p.2 ≤ q.2 := by
  induction h with
  | nil => exact ⟨Nat.le_refl _, Nat.le_refl _⟩
  | cons hs _ ih => exact ⟨Nat.le_trans hs.left ih.1, Nat.le_trans hs.right ih.2⟩

theorem Script.eq_of_nil {p q : Position} (h : Script a b p [] q) : p = q := by
  cases h
  rfl

theorem Script.getLast {p q : Position} {l : List Step} (h : Script a b p l q) (hne : l ≠ []) :
    ∃ s, l.getLast? = some s ∧ q = (s.leftStop, s.rightStop) := by
  induction h with
  | nil => exact absurd rfl hne
  | @cons s rest q _ hrest ih =>
    cases rest with
    | nil => exact ⟨s, rfl, hrest.eq_of_nil.symm⟩
    | cons t rest =>
      obtain ⟨last, hlast, hq⟩ := ih (by simp)
      exact ⟨last, by simpa [List.getLast?_cons] using hlast, hq⟩

theorem Script.head {p q : Position} {l : List Step} (h : Script a b p l q) (hne : l ≠ []) :
    ∃ s, l.head? = some s ∧ p = (s.leftStart, s.rightStart) := by
  cases h with
  | nil => exact absurd rfl hne
  | cons => exact ⟨_, rfl, rfl⟩

theorem Script.ofGroup_eq {p q : Position} {group : List Step} (h : Script a b p group q)
    (hne : group ≠ []) :
    Hunk.ofGroup a b group =
      ⟨p.1, q.1 - p.1, p.2, q.2 - p.2, group.flatMap (Step.shown a b)⟩ := by
  obtain ⟨first, hfirst, rfl⟩ := h.head hne
  obtain ⟨last, hlast, rfl⟩ := h.getLast hne
  simp [Hunk.ofGroup, hfirst, hlast]

theorem Script.groupText_eq {p q : Position} {group : List Step} (h : Script a b p group q)
    (hne : group ≠ []) : groupText a b group = (Hunk.ofGroup a b group).lines.flatten := by
  obtain ⟨hleft, hright⟩ := h.mono
  have hbody : group.flatMap (stepText a b) = (group.flatMap (Step.shown a b)).flatten := by
    simp only [funext stepText_eq, List.flatMap_def, List.flatten_flatten, List.map_map]
    rfl
  rw [h.ofGroup_eq hne, groupText]
  obtain ⟨first, hfirst, rfl⟩ := h.head hne
  obtain ⟨last, hlast, rfl⟩ := h.getLast hne
  simp only [hfirst, hlast, Hunk.lines, Hunk.header, List.flatten_cons, hbody]
  rw [Nat.add_sub_cancel' hleft, Nat.add_sub_cancel' hright]

/-! ### Lines of both lists -/

@[simp]
theorem without_append (mark : Char) (l l' : List Line) :
    without mark (l ++ l') = without mark l ++ without mark l' := by
  simp [without]

theorem without_map_self (mark : Char) (l : List Line) : without mark (l.map (mark :: ·)) = [] := by
  simp [without]

theorem without_map {mark c : Char} (hc : c ≠ mark) (l : List Line) :
    without mark (l.map (c :: ·)) = l := by
  have hall : (l.map (c :: ·)).filter (·.head? != some mark) = l.map (c :: ·) :=
    List.filter_eq_self.2 (by simp [hc])
  rw [without, hall, List.map_map]
  exact List.map_id l

theorem Step.Fits.without_shown {s : Step} (h : s.Fits a b) :
    without '+' (s.shown a b) = s.old a ∧ without '-' (s.shown a b) = s.new b := by
  by_cases hkeep : s.change = .keep
  · rw [Step.shown_of_keep hkeep, without_map (by decide), without_map (by decide)]
    exact ⟨rfl, h.keep hkeep⟩
  · rw [h.shown_of_change hkeep, without_append, without_append, without_map (by decide),
      without_map_self, without_map_self, without_map (by decide)]
    exact ⟨List.append_nil _, List.nil_append _⟩

theorem Script.without_shown {p q : Position} {l : List Step} (h : Script a b p l q) :
    without '+' (l.flatMap (Step.shown a b)) = slice a p.1 q.1 ∧
      without '-' (l.flatMap (Step.shown a b)) = slice b p.2 q.2 := by
  induction h with
  | nil => simp [without]
  | cons hs hrest ih =>
    obtain ⟨hold, hnew⟩ := hs.without_shown
    rw [List.flatMap_cons, without_append, without_append, hold, hnew, ih.1, ih.2]
    exact ⟨slice_append hs.left hrest.mono.1, slice_append hs.right hrest.mono.2⟩

/-! ### Patching -/

/-- One hunk: the lines in front of it are the same in both lists, and its own lines lead on. -/
theorem patch_cons {p q r : Position} (hsame : Same a b p q) {group : List Step}
    (hgroup : Script a b q group r) (hne : group ≠ []) {hs : List Hunk}
    (hrest : patch r.1 r.2 hs (a.drop r.1) = some (b.drop r.2)) :
    patch p.1 p.2 (Hunk.ofGroup a b group :: hs) (a.drop p.1) = some (b.drop p.2) := by
  obtain ⟨hleft, hright⟩ := hgroup.mono
  obtain ⟨hleftEnd, hrightEnd⟩ := hgroup.le hsame.leftEnd hsame.rightEnd
  obtain ⟨hold, hnew⟩ := hgroup.without_shown
  have hsub := hsame.sub_eq
  have hp := hsame.left
  have hp' := hsame.right
  have hq := hsame.leftEnd
  rw [hgroup.ofGroup_eq hne, patch]
  have happlies : Hunk.Applies p.1 p.2 (a.drop p.1)
      ⟨q.1, r.1 - q.1, q.2, r.2 - q.2, group.flatMap (Step.shown a b)⟩ := by
    refine ⟨hp, ?_, ?_, ?_, ?_, ?_⟩
    · rw [List.length_drop]
      exact Nat.sub_le_sub_right hq _
    · show q.2 = p.2 + (q.1 - p.1)
      omega
    · rw [Hunk.old, hold, length_slice hleftEnd]
    · rw [Hunk.new, hnew, length_slice hrightEnd]
    · rw [Hunk.old, hold, List.drop_drop, Nat.add_sub_cancel' hp]
      exact List.take_prefix _ _
  rw [if_pos happlies]
  simp only [Hunk.new, hnew]
  rw [List.drop_drop, ← Nat.add_assoc, Nat.add_sub_cancel' hp, Nat.add_sub_cancel' hleft,
    Nat.add_sub_cancel' hright, hrest, Option.map_some]
  have hfront : (a.drop p.1).take (q.1 - p.1) = slice b p.2 q.2 := hsame.same
  rw [hfront, slice_append hp' hright, ← slice_eq_drop b r.2,
    slice_append (Nat.le_trans hp' hright) hrightEnd, slice_eq_drop]

theorem patch_covers {p : Position} {gs : List (List Step)} (h : Covers a b p gs)
    (hne : ∀ group ∈ gs, group ≠ []) :
    patch p.1 p.2 (gs.map (Hunk.ofGroup a b)) (a.drop p.1) = some (b.drop p.2) := by
  induction h with
  | @nil p hsame =>
    have hdrop := hsame.same
    simp only [slice_eq_drop] at hdrop
    rw [List.map_nil, patch, hdrop]
  | cons hsame hgroup _ ih =>
    have hrest := ih fun group hg => hne group (List.mem_cons_of_mem _ hg)
    exact patch_cons hsame hgroup (hne _ (by simp)) hrest

/-- A hunk with another number of lines than it says fits nowhere. -/
theorem patch_eq_none {hs : List Hunk} {h : Hunk} (hmem : h ∈ hs)
    (hcount : h.new.length ≠ h.rightCount) {i j : Nat} {lines : List Line} :
    patch i j hs lines = none := by
  induction hs generalizing i j lines with
  | nil => simp at hmem
  | cons x hs ih =>
    rw [patch]
    split
    next happlies =>
      rcases List.mem_cons.1 hmem with rfl | hmem
      · exact absurd happlies.2.2.2.2.1 hcount
      · rw [ih hmem, Option.map_none]
    next => rfl

/-! ### A difference as hunks -/

theorem Covers.exists_script {p : Position} {gs : List (List Step)} (h : Covers a b p gs) :
    ∀ group ∈ gs, ∃ q r, Script a b q group r := by
  induction h with
  | nil => simp
  | cons _ hgroup _ ih =>
    intro g hg
    rcases List.mem_cons.1 hg with rfl | hg
    · exact ⟨_, _, hgroup⟩
    · exact ih g hg

theorem covers_steps (a b : List Line) : Covers a b (0, 0) (groups 3 (steps a b)) :=
  covers_groups 3 (script_steps a b)

theorem ne_nil_of_mem_groups {n : Nat} {l group : List Step} (h : group ∈ groups n l) :
    group ≠ [] := by
  obtain ⟨s, hs, -⟩ := any_change_of_mem_groups h
  exact List.ne_nil_of_mem hs

theorem body_ne_nil {group : List Step} (h : group ∈ groups 3 (steps a b)) :
    (Hunk.ofGroup a b group).body ≠ [] := by
  obtain ⟨s, hs, hchange⟩ := any_change_of_mem_groups h
  obtain ⟨q, r, hscript⟩ := (covers_steps a b).exists_script group h
  obtain ⟨x, hx⟩ := List.exists_mem_of_ne_nil _ ((hscript.fits s hs).shown_ne_nil hchange)
  exact List.ne_nil_of_mem (List.mem_flatMap.2 ⟨s, hs, hx⟩)

theorem exists_of_mem_shown {s : Step} {l : Line} (h : l ∈ s.shown a b) :
    ∃ c x, (c = ' ' ∨ c = '-' ∨ c = '+') ∧ (x ∈ a ∨ x ∈ b) ∧ l = c :: x := by
  have hold (x : Line) (hx : x ∈ s.old a) : x ∈ a := slice_subset.subset hx
  have hnew (x : Line) (hx : x ∈ s.new b) : x ∈ b := slice_subset.subset hx
  rw [Step.shown] at h
  split at h
  next =>
    obtain ⟨x, hx, rfl⟩ := List.mem_map.1 h
    exact ⟨' ', x, by simp, .inl (hold x hx), rfl⟩
  next =>
    rcases List.mem_append.1 h with h | h
    · obtain ⟨x, hx, rfl⟩ := List.mem_map.1 h
      exact ⟨'-', x, by simp, .inl (hold x hx), rfl⟩
    · obtain ⟨x, hx, rfl⟩ := List.mem_map.1 h
      exact ⟨'+', x, by simp, .inr (hnew x hx), rfl⟩
  next =>
    obtain ⟨x, hx, rfl⟩ := List.mem_map.1 h
    exact ⟨'-', x, by simp, .inl (hold x hx), rfl⟩
  next =>
    obtain ⟨x, hx, rfl⟩ := List.mem_map.1 h
    exact ⟨'+', x, by simp, .inr (hnew x hx), rfl⟩

theorem isMarked_of_mem_shown (ha : ∀ l ∈ a, IsOneLine l) (hb : ∀ l ∈ b, IsOneLine l) {s : Step}
    {l : Line} (h : l ∈ s.shown a b) : IsMarked l ∧ IsOneLine l := by
  obtain ⟨c, x, hc, hx, rfl⟩ := exists_of_mem_shown h
  have hone : IsOneLine x := hx.elim (ha x) (hb x)
  refine ⟨?_, hone.cons ?_⟩
  · rcases hc with rfl | rfl | rfl <;> simp [IsMarked]
  · rcases hc with rfl | rfl | rfl <;> decide

theorem unified_eq_written {name : String} (hne : groups 3 (steps a b) ≠ []) :
    unified name a b = written name ((groups 3 (steps a b)).map (Hunk.ofGroup a b)) := by
  have htexts : ∀ group ∈ groups 3 (steps a b),
      groupText a b group = (Hunk.ofGroup a b group).lines.flatten := by
    intro group hgroup
    obtain ⟨q, r, hscript⟩ := (covers_steps a b).exists_script group hgroup
    exact hscript.groupText_eq (ne_nil_of_mem_groups hgroup)
  rw [unified]
  split
  next hnil => exact absurd hnil hne
  next =>
    rw [written]
    congr 1
    rw [List.flatMap_def, List.map_congr_left htexts]
    simp [List.flatMap_def, List.flatten_flatten, List.map_map, Function.comp_def]

theorem unified_ne_nil {name : String} (h : a ≠ b) : unified name a b ≠ [] := by
  rw [unified]
  split
  next hnil =>
    have hcovers := covers_steps a b
    rw [hnil] at hcovers
    have hsame : a.drop 0 = b.drop 0 := Option.some.inj (patch_covers hcovers (by simp))
    exact absurd hsame h
  next => simp [toString_text]

end

/-- A difference between two texts makes the one of the other, if no step replaces an unended
line. -/
theorem applyTo_unified {name : String} (hname : '\n' ∉ name.toList) {before after : List Char}
    (hreplaces : ∀ s ∈ steps (fedLines before) (fedLines after), s.Replaces (fedLines before)) :
    applyTo (unified name (fedLines before) (fedLines after)) before = some after := by
  let a := fedLines before
  let b := fedLines after
  have hpatch : patch 0 0 ((groups 3 (steps a b)).map (Hunk.ofGroup a b)) a = some b :=
    patch_covers (covers_steps a b) fun _ => ne_nil_of_mem_groups
  have hread : readHunks (unified name a b) =
      some ((groups 3 (steps a b)).map (Hunk.ofGroup a b)) := by
    by_cases hne : groups 3 (steps a b) = []
    · rw [unified, hne]
      rfl
    rw [unified_eq_written hne]
    refine readHunks_written hname ?_ ?_ ?_
    · intro h hh l hl
      obtain ⟨group, hgroup, rfl⟩ := List.mem_map.1 hh
      obtain ⟨s, -, hl⟩ := List.mem_flatMap.1 hl
      exact isMarked_of_mem_shown Text.isOneLine_of_mem_fedLines Text.isOneLine_of_mem_fedLines hl
    · intro h hh
      obtain ⟨group, hgroup, rfl⟩ := List.mem_map.1 hh
      exact body_ne_nil hgroup
    · have hshown := (ended_steps (Text.ended_fedLines before) (Text.ended_fedLines after)
        hreplaces).sublist (shown_groups_sublist 3 (steps a b))
      have hbodies : ((groups 3 (steps a b)).map (Hunk.ofGroup a b)).flatMap Hunk.body =
          (groups 3 (steps a b)).flatten.flatMap (Step.shown a b) := by
        rw [List.flatMap_map, ← List.flatMap_id, List.flatMap_assoc]
        rfl
      rw [hbodies]
      exact hshown
  rw [applyTo, hread, Option.bind_some, hpatch, Option.map_some, Text.flatten_fedLines]

/-! ### An unended line that is replaced -/

/-- The lines of a hunk whose last removed line runs on into the first one that is added. -/
def runOn (front old : List Line) (x y : Line) (new : List Line) : List Line :=
  front ++ old.map ('-' :: ·) ++ [('-' :: x) ++ ('+' :: y)] ++ new.map ('+' :: ·)

theorem flatten_runOn (front old : List Line) (x y : Line) (new : List Line) :
    (runOn front old x y new).flatten =
      (front ++ ((old ++ [x]).map ('-' :: ·) ++ (y :: new).map ('+' :: ·))).flatten := by
  simp [runOn]

/-- The line that was run into is lost. -/
theorem without_runOn (front old : List Line) (x y : Line) (new : List Line) :
    without '-' (runOn front old x y new) = without '-' front ++ new := by
  have hrun : without '-' [('-' :: x) ++ ('+' :: y)] = [] := by simp [without]
  have hplus : without '-' (new.map ('+' :: ·)) = new := without_map (by decide) new
  simp only [runOn, without_append, without_map_self, hrun, hplus, List.append_nil]

theorem isMarked_runOn {front old new : List Line} {x y : Line} (hxfeed : ¬ EndsInFeed x)
    (hfront : ∀ l ∈ front, IsMarked l ∧ IsOneLine l) (hold : ∀ l ∈ old ++ [x], IsOneLine l)
    (hnew : ∀ l ∈ y :: new, IsOneLine l) :
    ∀ l ∈ runOn front old x y new, IsMarked l ∧ IsOneLine l := by
  intro l hl
  simp only [runOn, List.mem_append, List.mem_singleton] at hl
  rcases hl with ((hl | hl) | rfl) | hl
  · exact hfront l hl
  · obtain ⟨z, hz, rfl⟩ := List.mem_map.1 hl
    exact ⟨.inr (.inl rfl), (hold z (by simp [hz])).cons (by decide)⟩
  · have hx : IsOneLine x := hold x (by simp)
    have hmarked : ¬ EndsInFeed ('-' :: x) := fun h => hxfeed (h.of_cons hx.1)
    have hy : IsOneLine ('+' :: y) := (hnew y (by simp)).cons (by decide)
    exact ⟨.inr (.inl rfl), (hx.cons (by decide)).append hmarked hy⟩
  · obtain ⟨z, hz, rfl⟩ := List.mem_map.1 hl
    exact ⟨.inr (.inr rfl), (hnew z (by simp [hz])).cons (by decide)⟩

/-- Lines that were run together still end where the second of them does. -/
theorem ended_runOn {front old new : List Line} {x y : Line} (hfront : ∀ l ∈ front, EndsInFeed l)
    (hold : Ended (old ++ [x])) (hnew : Ended (y :: new)) : Ended (runOn front old x y new) := by
  have hfed : ∀ l ∈ front ++ old.map ('-' :: ·), EndsInFeed l := by
    intro l hl
    rcases List.mem_append.1 hl with hl | hl
    · exact hfront l hl
    · obtain ⟨z, hz, rfl⟩ := List.mem_map.1 hl
      exact (hold.left_of_append (by simp) z hz).cons '-'
  obtain ⟨hy, hrest⟩ := List.pairwise_cons.1 hnew
  rw [runOn, List.append_assoc]
  refine (ended_of_forall hfed).append ?_ fun _ => hfed
  refine Ended.append (List.pairwise_singleton _ _) (Ended.map hrest '+') fun hne => ?_
  obtain ⟨z, hz⟩ := List.exists_mem_of_ne_nil new (by simpa using hne)
  simp only [List.mem_singleton, forall_eq]
  rw [EndsInFeed, List.getLast?_append, ((hy z hz).cons '+' : _ = _)]
  rfl

/-- The last group ends by replacing an unended line, and all that is shown before this step ends in
a line feed. -/
structure RunsOn (a b : List Line) (gs : List (List Step)) (g : List Step) (s : Step)
    (old : List Line) (x y : Line) (new : List Line) : Prop where
  groups : groups 3 (steps a b) = gs ++ [g ++ [s]]
  replaces : s.change = .replace
  old : s.old a = old ++ [x]
  new : s.new b = y :: new
  unended : ¬ EndsInFeed x
  fed : ∀ l ∈ (gs.flatten ++ g).flatMap (Step.shown a b), EndsInFeed l

section

variable {a b : List Line} {gs : List (List Step)} {g : List Step} {s : Step}
  {old new : List Line} {x y : Line}

def Hunk.readLast (a b : List Line) (g : List Step) (s : Step) (old : List Line) (x y : Line)
    (new : List Line) : Hunk :=
  { Hunk.ofGroup a b (g ++ [s]) with body := runOn (g.flatMap (Step.shown a b)) old x y new }

theorem RunsOn.shown (h : RunsOn a b gs g s old x y new) :
    s.shown a b = (old ++ [x]).map ('-' :: ·) ++ (y :: new).map ('+' :: ·) := by
  simp only [Step.shown, h.replaces, h.old, h.new]

theorem RunsOn.mem_groups (h : RunsOn a b gs g s old x y new) :
    g ++ [s] ∈ Diff.groups 3 (steps a b) := by
  simp [h.groups]

theorem RunsOn.unified_eq (h : RunsOn a b gs g s old x y new) (name : String) :
    unified name a b =
      written name (gs.map (Hunk.ofGroup a b) ++ [Hunk.readLast a b g s old x y new]) := by
  have hbody : (Hunk.ofGroup a b (g ++ [s])).body.flatten =
      (Hunk.readLast a b g s old x y new).body.flatten := by
    simp only [Hunk.ofGroup, Hunk.readLast, flatten_runOn, List.flatMap_append,
      List.flatMap_singleton, h.shown]
  rw [unified_eq_written (List.ne_nil_of_mem h.mem_groups), h.groups, List.map_append,
    List.map_singleton]
  simp only [written, List.flatMap_append, List.flatMap_singleton, List.flatten_append, Hunk.lines,
    List.flatten_cons, hbody]
  rfl

/-- The last hunk says that it has one line more than is read. -/
theorem RunsOn.length_new_ne (h : RunsOn a b gs g s old x y new) :
    (Hunk.readLast a b g s old x y new).new.length ≠
      (Hunk.readLast a b g s old x y new).rightCount := by
  obtain ⟨p, q, hscript⟩ := (covers_steps a b).exists_script _ h.mem_groups
  obtain ⟨t, ht, rfl⟩ := hscript.getLast (by simp)
  obtain rfl : s = t := by simpa using ht
  have hend : s.rightStop ≤ b.length := (hscript.fits s (by simp)).rightEnd
  have hright : (Hunk.readLast a b g s old x y new).rightCount = s.rightStop - p.2 := by
    simp [Hunk.readLast, hscript.ofGroup_eq (by simp)]
  have hplus : without '-' ((y :: new).map ('+' :: ·)) = y :: new := without_map (by decide) _
  have hlength := congrArg List.length hscript.without_shown.2
  rw [length_slice hend, List.flatMap_append, List.flatMap_singleton, h.shown, without_append,
    without_append, without_map_self, hplus] at hlength
  have hnew : (Hunk.readLast a b g s old x y new).new =
      without '-' (g.flatMap (Step.shown a b)) ++ new := without_runOn _ _ _ _ _
  rw [hright, ← hlength, hnew]
  simp

theorem RunsOn.readHunks_unified (h : RunsOn a b gs g s old x y new) (ha : Ended a)
    (hb : Ended b) (haone : ∀ l ∈ a, IsOneLine l) (hbone : ∀ l ∈ b, IsOneLine l) {name : String}
    (hname : '\n' ∉ name.toList) :
    readHunks (unified name a b) =
      some (gs.map (Hunk.ofGroup a b) ++ [Hunk.readLast a b g s old x y new]) := by
  have hold : (old ++ [x]).Sublist a := h.old ▸ slice_subset
  have hnew : (y :: new).Sublist b := h.new ▸ slice_subset
  have hsteps {l : Line} {group : List Step} (hl : l ∈ group.flatMap (Step.shown a b)) :
      IsMarked l ∧ IsOneLine l := by
    obtain ⟨t, -, hl⟩ := List.mem_flatMap.1 hl
    exact isMarked_of_mem_shown haone hbone hl
  rw [h.unified_eq]
  refine readHunks_written hname ?_ ?_ ?_
  · intro hunk hmem
    rcases List.mem_append.1 hmem with hmem | hmem
    · obtain ⟨group, -, rfl⟩ := List.mem_map.1 hmem
      exact fun l => hsteps
    · obtain rfl := List.mem_singleton.1 hmem
      exact isMarked_runOn h.unended (fun l => hsteps) (fun l hl => haone l (hold.subset hl))
        fun l hl => hbone l (hnew.subset hl)
  · intro hunk hmem
    rcases List.mem_append.1 hmem with hmem | hmem
    · obtain ⟨group, hgroup, rfl⟩ := List.mem_map.1 hmem
      exact body_ne_nil (by rw [h.groups]; exact List.mem_append_left _ hgroup)
    · obtain rfl := List.mem_singleton.1 hmem
      simp [Hunk.readLast, runOn]
  · have hbodies : (gs.map (Hunk.ofGroup a b) ++ [Hunk.readLast a b g s old x y new]).flatMap
        Hunk.body = runOn ((gs.flatten ++ g).flatMap (Step.shown a b)) old x y new := by
      rw [List.flatMap_append, List.flatMap_map, List.flatMap_append, ← List.flatMap_id,
        List.flatMap_assoc, List.flatMap_singleton]
      simp [Hunk.readLast, runOn, Hunk.ofGroup]
    rw [hbodies]
    exact ended_runOn h.fed (ha.sublist hold) (hb.sublist hnew)

theorem exists_slice_concat {l : List Line} (hx : l.getLast? = some x) {i : Nat}
    (hi : i < l.length) : ∃ front, slice l i l.length = front ++ [x] := by
  obtain ⟨init, rfl⟩ := List.getLast?_eq_some_iff.1 hx
  rw [List.length_append, List.length_singleton] at hi
  exact ⟨init.drop i, by rw [slice_eq_drop, List.drop_append_of_le_length (by omega)]⟩

theorem Ended.not_mem {l : List Line} (h : Ended l) (hy : l.getLast? = some y)
    (hx : ¬ EndsInFeed x) (hne : x ≠ y) : x ∉ l := by
  obtain ⟨init, rfl⟩ := List.getLast?_eq_some_iff.1 hy
  intro hmem
  rcases List.mem_append.1 hmem with hmem | hmem
  · exact hx (h.left_of_append (by simp) x hmem)
  · exact hne (by simpa using hmem)

/-- Unended last lines that differ are replaced by each other. -/
theorem exists_runsOn (ha : Ended a) (hb : Ended b) (hx : a.getLast? = some x)
    (hy : b.getLast? = some y) (hxfeed : ¬ EndsInFeed x) (hyfeed : ¬ EndsInFeed y)
    (hne : x ≠ y) : ∃ gs g s old y' new, RunsOn a b gs g s old x y' new := by
  have hleft : ∀ z ∈ b, a.getLast? ≠ some z := by
    rintro z hz hlast
    rw [hx] at hlast
    exact hb.not_mem hy hxfeed hne (Option.some.inj hlast ▸ hz)
  have hright : ∀ z ∈ a, b.getLast? ≠ some z := by
    rintro z hz hlast
    rw [hy] at hlast
    exact ha.not_mem hx hyfeed hne.symm (Option.some.inj hlast ▸ hz)
  have hapos : 0 < a.length := List.length_pos_of_mem (List.mem_of_getLast? hx)
  have hbpos : 0 < b.length := List.length_pos_of_mem (List.mem_of_getLast? hy)
  obtain ⟨before, i, j, hi, hj, hsteps⟩ : ∃ before i j, i < a.length ∧ j < b.length ∧
      steps a b = before ++ [⟨.replace, i, a.length, j, b.length⟩] :=
    stepsFrom_eq_concat (blocks_inOrder a b) hapos hbpos hleft hright
  let s : Step := ⟨.replace, i, a.length, j, b.length⟩
  obtain ⟨gs, g, hgroups⟩ := exists_groups_concat 3 before (show s.change ≠ .keep by simp [s])
  obtain ⟨old, hold⟩ := exists_slice_concat hx hi
  obtain ⟨y', new, hnew⟩ : ∃ y' new, slice b j b.length = y' :: new := by
    refine List.exists_cons_of_ne_nil fun hnil => ?_
    have hlength := @length_slice b j b.length (Nat.le_refl _)
    rw [hnil, List.length_nil] at hlength
    omega
  refine ⟨gs, g, s, old, y', new, by rw [hsteps, hgroups], rfl, hold, hnew, hxfeed, ?_⟩
  -- what the groups show before the step is among what the steps before it show
  have hbefore : (before ++ [s]).flatMap (Step.shown a b) =
      before.flatMap (Step.shown a b) ++ [s].flatMap (Step.shown a b) := List.flatMap_append
  have hsub := @shown_groups_sublist a b 3 (before ++ [s])
  rw [hgroups, List.flatten_append, List.flatten_singleton, ← List.append_assoc,
    List.flatMap_append, hbefore, List.append_sublist_append_right] at hsub
  have hpairwise := pairwise_steps ha hb
  rw [hsteps] at hpairwise
  intro l hl
  obtain ⟨t, ht, hl⟩ := List.mem_flatMap.1 (hsub.subset hl)
  exact (List.pairwise_append.1 hpairwise).2.2 t ht s (by simp [s]) l hl

end

/-- The difference between two texts that both lack the last line feed and have different last lines
fits no text: the two lines are run together. -/
theorem applyTo_unified_eq_none {name : String} (hname : '\n' ∉ name.toList)
    {before after : List Char} {x y : Line} (hx : (fedLines before).getLast? = some x)
    (hy : (fedLines after).getLast? = some y) (hxfeed : ¬ EndsInFeed x) (hyfeed : ¬ EndsInFeed y)
    (hne : x ≠ y) (source : List Char) :
    applyTo (unified name (fedLines before) (fedLines after)) source = none := by
  have hb := Text.ended_fedLines before
  have ha := Text.ended_fedLines after
  obtain ⟨gs, g, s, old, y', new, hruns⟩ := exists_runsOn hb ha hx hy hxfeed hyfeed hne
  rw [applyTo, hruns.readHunks_unified hb ha Text.isOneLine_of_mem_fedLines
    Text.isOneLine_of_mem_fedLines hname, Option.bind_some,
    patch_eq_none (by simp) hruns.length_new_ne, Option.map_none]

end Phrasebook.Diff

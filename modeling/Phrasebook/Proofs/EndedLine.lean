import Mathlib.Data.List.Flatten
import Phrasebook.Proofs.EditScript

/-!
Where lines end. In a text only the last line may lack its line feed. The lines that a difference
shows keep this, with one exception: the last lines of both lists are replaced and the first list's
has no line feed, so that it runs on into the line that replaces it.
-/

namespace Phrasebook.Diff

def EndsInFeed (l : Line) : Prop := l.getLast? = some '\n'

def Ended (lines : List Line) : Prop := lines.Pairwise fun l _ => EndsInFeed l

theorem EndsInFeed.cons {l : Line} (h : EndsInFeed l) (c : Char) : EndsInFeed (c :: l) := by
  rw [EndsInFeed] at h ⊢
  rw [List.getLast?_cons, h]
  rfl

theorem EndsInFeed.of_cons {l : Line} {c : Char} (h : EndsInFeed (c :: l)) (hne : l ≠ []) :
    EndsInFeed l := by
  simpa [EndsInFeed, List.getLast?_cons, List.getLast?_eq_some_getLast hne] using h

theorem Ended.sublist {l l' : List Line} (h : Ended l') (hsub : l.Sublist l') : Ended l :=
  List.Pairwise.sublist hsub h

theorem Ended.append {l l' : List Line} (h : Ended l) (h' : Ended l')
    (hfed : l' ≠ [] → ∀ x ∈ l, EndsInFeed x) : Ended (l ++ l') := by
  refine List.pairwise_append.2 ⟨h, h', ?_⟩
  intro x hx y hy
  exact hfed (List.ne_nil_of_mem hy) x hx

theorem Ended.left_of_append {l l' : List Line} (h : Ended (l ++ l')) (hne : l' ≠ []) :
    ∀ x ∈ l, EndsInFeed x := by
  obtain ⟨y, hy⟩ := List.exists_mem_of_ne_nil _ hne
  intro x hx
  exact (List.pairwise_append.1 h).2.2 x hx y hy

theorem Ended.map {l : List Line} (h : Ended l) (c : Char) : Ended (l.map (c :: ·)) :=
  List.pairwise_map.2 (h.imp fun hl => hl.cons c)

theorem ended_of_forall {l : List Line} (h : ∀ x ∈ l, EndsInFeed x) : Ended l :=
  List.pairwise_of_forall_mem_list fun x hx _ _ => h x hx

theorem endsInFeed_of_mem_slice {l : List Line} (h : Ended l) {i j : Nat} (hj : j < l.length) :
    ∀ x ∈ slice l i j, EndsInFeed x := by
  rw [← List.take_append_drop j l] at h
  have htake := h.left_of_append (by simpa using hj)
  intro x hx
  rw [slice, ← List.drop_take] at hx
  exact htake x (List.mem_of_mem_drop hx)

section

variable {a b : List Line}

/-! ### Steps -/

theorem Step.endsInFeed_of_mem_shown {s : Step} (hold : ∀ x ∈ s.old a, EndsInFeed x)
    (hnew : ∀ x ∈ s.new b, EndsInFeed x) : ∀ x ∈ s.shown a b, EndsInFeed x := by
  have hmark (c : Char) {l : List Line} (hl : ∀ x ∈ l, EndsInFeed x) :
      ∀ x ∈ l.map (c :: ·), EndsInFeed x := by
    intro x hx
    obtain ⟨y, hy, rfl⟩ := List.mem_map.1 hx
    exact (hl y hy).cons c
  intro x hx
  rw [Step.shown] at hx
  split at hx
  next => exact hmark ' ' hold x hx
  next =>
    rcases List.mem_append.1 hx with hx | hx
    · exact hmark '-' hold x hx
    · exact hmark '+' hnew x hx
  next => exact hmark '-' hold x hx
  next => exact hmark '+' hnew x hx

/-- What a step replaces ends in a line feed, so that what replaces it begins a new line. -/
def Step.Replaces (a : List Line) (s : Step) : Prop :=
  s.change = .replace → ∀ x ∈ s.old a, EndsInFeed x

theorem Step.ended_shown (ha : Ended a) (hb : Ended b) {s : Step} (hs : s.Replaces a) :
    Ended (s.shown a b) := by
  have hold : Ended (s.old a) := ha.sublist slice_subset
  have hnew : Ended (s.new b) := hb.sublist slice_subset
  rw [Step.shown]
  split
  next => exact hold.map ' '
  next hreplace =>
    refine (hold.map '-').append (hnew.map '+') fun _ => ?_
    intro x hx
    obtain ⟨y, hy, rfl⟩ := List.mem_map.1 hx
    exact (hs hreplace y hy).cons '-'
  next => exact hold.map '-'
  next => exact hnew.map '+'

theorem of_mem_gap {i i' j j' : Nat} {s : Step} (h : s ∈ gap i i' j j') :
    s.old a = slice a i i' ∧ s.new b = slice b j j' := by
  rw [gap] at h
  split at h
  next =>
    obtain rfl := List.mem_singleton.1 h
    exact ⟨rfl, rfl⟩
  next =>
    split at h
    next =>
      obtain rfl := List.mem_singleton.1 h
      exact ⟨rfl, rfl⟩
    next =>
      split at h
      next =>
        obtain rfl := List.mem_singleton.1 h
        exact ⟨rfl, rfl⟩
      next => simp at h

theorem pairwise_gap {R : Step → Step → Prop} (i i' j j' : Nat) :
    (gap i i' j j').Pairwise R := by
  rw [gap]
  split
  next => simp
  next =>
    split
    next => simp
    next => split <;> simp

theorem stepsFrom_end {l : List Block}
    (h : InOrder a.toArray b.toArray ⟨a.length, a.length, b.length, b.length⟩ l) :
    stepsFrom a.length b.length a.length b.length l = [] := by
  cases l with
  | nil => simp [stepsFrom, gap]
  | cons k rest =>
    obtain ⟨hk, hsize, -⟩ := h
    have hstart := hk.leftStart
    have hstop := hk.leftStop
    simp only at hstart hstop
    omega

/-- A change is followed by a line that both lists have, and a kept line by a line that one of them
has. So whatever is shown before the last step ends in a line feed. -/
theorem pairwise_stepsFrom (ha : Ended a) (hb : Ended b) {l : List Block} {i j : Nat}
    (h : InOrder a.toArray b.toArray ⟨i, a.length, j, b.length⟩ l) :
    (stepsFrom a.length b.length i j l).Pairwise fun s _ =>
      ∀ x ∈ s.shown a b, EndsInFeed x := by
  induction l generalizing i j with
  | nil => exact pairwise_gap _ _ _ _
  | cons k rest ih =>
    obtain ⟨hk, hsize, hrest⟩ := h
    have hleft : k.left + k.size ≤ a.length := hk.leftStop
    have hright : k.right + k.size ≤ b.length := hk.rightStop
    have hsame : slice a k.left (k.left + k.size) = slice b k.right (k.right + k.size) :=
      (hk.same_lines (Nat.le_refl _) (Nat.le_refl _)).same
    rw [stepsFrom]
    refine List.pairwise_append.2
      ⟨pairwise_gap _ _ _ _, List.pairwise_cons.2 ⟨?_, ih hrest⟩, ?_⟩
    · intro t ht
      have hold : ∀ x ∈ slice a k.left (k.left + k.size), EndsInFeed x := by
        rcases Nat.lt_or_eq_of_le hleft with hlt | hleftEnd
        · exact endsInFeed_of_mem_slice ha hlt
        · rcases Nat.lt_or_eq_of_le hright with hlt | hrightEnd
          · rw [hsame]
            exact endsInFeed_of_mem_slice hb hlt
          · -- nothing follows a block at the end of both lists
            rw [Window.after, hleftEnd, hrightEnd] at hrest
            rw [hleftEnd, hrightEnd, stepsFrom_end hrest] at ht
            simp at ht
      have hnew : ∀ x ∈ slice b k.right (k.right + k.size), EndsInFeed x := by rwa [← hsame]
      exact Step.endsInFeed_of_mem_shown hold hnew
    · intro s hs t _
      obtain ⟨hold, hnew⟩ := @of_mem_gap a b _ _ _ _ _ hs
      refine Step.endsInFeed_of_mem_shown ?_ ?_
      · rw [hold]
        exact endsInFeed_of_mem_slice ha (by omega)
      · rw [hnew]
        exact endsInFeed_of_mem_slice hb (by omega)

theorem pairwise_steps (ha : Ended a) (hb : Ended b) :
    (steps a b).Pairwise fun s _ => ∀ x ∈ s.shown a b, EndsInFeed x :=
  pairwise_stepsFrom ha hb (blocks_inOrder a b)

theorem ended_steps (ha : Ended a) (hb : Ended b) (hreplaces : ∀ s ∈ steps a b, s.Replaces a) :
    Ended ((steps a b).flatMap (Step.shown a b)) := by
  refine List.pairwise_flatMap.2 ⟨fun s hs => Step.ended_shown ha hb (hreplaces s hs), ?_⟩
  exact (pairwise_steps ha hb).imp fun hs x hx _ _ => hs x hx

/-! ### The last step -/

theorem stepsFrom_replaces (ha : Ended a) {l : List Block} {i j : Nat}
    (h : InOrder a.toArray b.toArray ⟨i, a.length, j, b.length⟩ l)
    (hreaches : Reaches a.length b.length l) :
    ∀ s ∈ stepsFrom a.length b.length i j l, s.Replaces a := by
  induction l generalizing i j with
  | nil => simp [Reaches] at hreaches
  | cons k rest ih =>
    obtain ⟨hk, hsize, hrest⟩ := h
    have hleft : k.left + k.size ≤ a.length := hk.leftStop
    rw [stepsFrom]
    intro s hs
    rcases List.mem_append.1 hs with hs | hs
    · intro _
      rw [(@of_mem_gap a b _ _ _ _ _ hs).1]
      exact endsInFeed_of_mem_slice ha (by omega)
    rcases List.mem_cons.1 hs with rfl | hs
    · intro hchange
      cases hchange
    cases rest with
    | nil =>
      obtain ⟨last, hlast, hleftEnd, hrightEnd⟩ := hreaches
      obtain rfl : k = last := by simpa using hlast
      rw [hleftEnd, hrightEnd, @stepsFrom_end a b [] trivial] at hs
      simp at hs
    | cons next rest =>
      have hreaches' : Reaches a.length b.length (next :: rest) := by
        obtain ⟨last, hlast, hends⟩ := hreaches
        exact ⟨last, by simpa [List.getLast?_cons] using hlast, hends⟩
      exact ih hrest hreaches' s hs

/-- If the last line is the same in both lists, it is kept, so it is not what a step replaces. -/
theorem steps_replaces_of_last {init init' : List Line} {l : Line} (hl : ¬ EndsInFeed l)
    (h : Ended (init ++ [l])) (h' : Ended (init' ++ [l])) :
    ∀ s ∈ steps (init ++ [l]) (init' ++ [l]), s.Replaces (init ++ [l]) := by
  have hnot {lines : List Line} (hlines : Ended (lines ++ [l])) : l ∉ lines :=
    fun hmem => hl (hlines.left_of_append (by simp) l hmem)
  exact stepsFrom_replaces h (blocks_inOrder _ _) (blocks_reaches (hnot h) (hnot h'))

/-- Last lines that the other list does not have are replaced by each other. -/
theorem stepsFrom_eq_concat {l : List Block} {i j : Nat}
    (h : InOrder a.toArray b.toArray ⟨i, a.length, j, b.length⟩ l) (hi : i < a.length)
    (hj : j < b.length) (hleft : ∀ y ∈ b, a.getLast? ≠ some y)
    (hright : ∀ x ∈ a, b.getLast? ≠ some x) :
    ∃ before i' j', i' < a.length ∧ j' < b.length ∧
      stepsFrom a.length b.length i j l = before ++ [⟨.replace, i', a.length, j', b.length⟩] := by
  induction l generalizing i j with
  | nil => exact ⟨[], i, j, hi, hj, by simp [stepsFrom, gap, hi, hj]⟩
  | cons k rest ih =>
    obtain ⟨hk, hsize, hrest⟩ := h
    have hkleft : k.left + k.size ≤ a.length := hk.leftStop
    have hkright : k.right + k.size ≤ b.length := hk.rightStop
    have hlast := hk.same (k.size - 1) (by omega)
    have ha : k.left + (k.size - 1) < a.length := by omega
    have hb : k.right + (k.size - 1) < b.length := by omega
    rw [getD_toArray, getD_toArray, List.getElem?_eq_getElem ha, List.getElem?_eq_getElem hb,
      Option.getD_some, Option.getD_some] at hlast
    have hi' : k.left + k.size < a.length := by
      refine Nat.lt_of_le_of_ne hkleft fun hend => hleft _ (List.getElem_mem hb) ?_
      rw [List.getLast?_eq_getElem?, ← hlast, ← List.getElem?_eq_getElem ha]
      congr 1
      omega
    have hj' : k.right + k.size < b.length := by
      refine Nat.lt_of_le_of_ne hkright fun hend => hright _ (List.getElem_mem ha) ?_
      rw [List.getLast?_eq_getElem?, hlast, ← List.getElem?_eq_getElem hb]
      congr 1
      omega
    obtain ⟨before, i', j', hi', hj', hsteps⟩ := ih hrest hi' hj'
    refine ⟨gap i k.left j k.right ++
      ⟨.keep, k.left, k.left + k.size, k.right, k.right + k.size⟩ :: before, i', j', hi', hj', ?_⟩
    rw [stepsFrom, hsteps, List.append_assoc, List.cons_append]

/-! ### Groups -/

theorem Step.shown_keep_sublist {i i' j j' k k' l l' : Nat} (hstart : i ≤ k) (hstop : k' ≤ i') :
    (Step.shown a b ⟨.keep, k, k', l, l'⟩).Sublist (Step.shown a b ⟨.keep, i, i', j, j'⟩) :=
  (slice_sublist hstart hstop).map _

theorem shown_trimFirst_sublist (n : Nat) (l : List Step) :
    ((trimFirst n l).flatMap (Step.shown a b)).Sublist (l.flatMap (Step.shown a b)) := by
  fun_cases trimFirst n l with
  | case1 i1 i2 j1 j2 rest =>
    rw [List.flatMap_cons, List.flatMap_cons]
    exact (Step.shown_keep_sublist (Nat.le_max_left _ _) (Nat.le_refl _)).append
      (List.Sublist.refl _)
  | case2 => exact List.Sublist.refl _

theorem shown_trimLast_sublist (n : Nat) (l : List Step) :
    ((trimLast n l).flatMap (Step.shown a b)).Sublist (l.flatMap (Step.shown a b)) := by
  fun_cases trimLast n l with
  | case1 i1 i2 j1 j2 hlast =>
    obtain ⟨front, rfl⟩ := List.getLast?_eq_some_iff.1 hlast
    rw [List.dropLast_concat, List.flatMap_append, List.flatMap_append, List.flatMap_singleton,
      List.flatMap_singleton]
    exact (List.Sublist.refl _).append
      (Step.shown_keep_sublist (Nat.le_refl _) (Nat.min_le_left _ _))
  | case2 => exact List.Sublist.refl _

theorem shown_groupFrom_sublist (n : Nat) (group rest : List Step) :
    ((groupFrom n group rest).flatten.flatMap (Step.shown a b)).Sublist
      ((group ++ rest).flatMap (Step.shown a b)) := by
  induction rest generalizing group with
  | nil => simp [groupFrom]
  | cons s rest ih =>
    have hjoin := ih (group ++ [s])
    rw [List.append_assoc, List.singleton_append] at hjoin
    by_cases hkeep : s.change = .keep
    · obtain ⟨change, i1, i2, j1, j2⟩ := s
      obtain rfl : change = .keep := hkeep
      rw [groupFrom]
      split
      next hmany =>
        have hlast := ih [⟨.keep, max i1 (i2 - n), i2, max j1 (j2 - n), j2⟩]
        rw [List.singleton_append, List.flatMap_cons] at hlast
        -- the first lines and the last lines do not meet
        have hhalves : (Step.shown a b ⟨.keep, i1, min i2 (i1 + n), j1, min j2 (j1 + n)⟩ ++
            Step.shown a b ⟨.keep, max i1 (i2 - n), i2, max j1 (j2 - n), j2⟩).Sublist
              (Step.shown a b ⟨.keep, i1, i2, j1, j2⟩) := by
          have hcut : i1 ≤ min i2 (i1 + n) := by omega
          have hcut' : min i2 (i1 + n) ≤ i2 := by omega
          simp only [Step.shown, Step.old]
          rw [← slice_append hcut hcut', List.map_append]
          exact (List.Sublist.refl _).append ((slice_sublist (by omega) (Nat.le_refl _)).map _)
        rw [List.flatten_cons, List.flatMap_append, List.flatMap_append, List.flatMap_append,
          List.append_assoc, List.flatMap_singleton, List.flatMap_cons]
        refine (List.Sublist.refl _).append (((List.Sublist.refl _).append hlast).trans ?_)
        rw [← List.append_assoc]
        exact hhalves.append (List.Sublist.refl _)
      next => exact hjoin
    · rwa [groupFrom_of_change n group hkeep]

/-- Grouping only leaves lines out. -/
theorem shown_groups_sublist (n : Nat) (l : List Step) :
    ((groups n l).flatten.flatMap (Step.shown a b)).Sublist (l.flatMap (Step.shown a b)) := by
  have hfilter (gs : List (List Step)) (f : List Step → Bool) :
      ((gs.filter f).flatten.flatMap (Step.shown a b)).Sublist
        (gs.flatten.flatMap (Step.shown a b)) :=
    List.filter_sublist.flatten.flatMap _
  exact (hfilter _ _).trans ((shown_groupFrom_sublist n [] _).trans
    ((shown_trimLast_sublist n _).trans (shown_trimFirst_sublist n l)))

end

theorem exists_trimFirst_concat (n : Nat) (l : List Step) {s : Step} (hs : s.change ≠ .keep) :
    ∃ l', trimFirst n (l ++ [s]) = l' ++ [s] := by
  cases l with
  | nil => exact ⟨[], trimFirst_of_change n hs []⟩
  | cons t rest =>
    by_cases hkeep : t.change = .keep
    · obtain ⟨change, i1, i2, j1, j2⟩ := t
      obtain rfl : change = .keep := hkeep
      exact ⟨⟨.keep, max i1 (i2 - n), i2, max j1 (j2 - n), j2⟩ :: rest, rfl⟩
    · exact ⟨t :: rest, trimFirst_of_change n hkeep (rest ++ [s])⟩

theorem trimLast_concat (n : Nat) (l : List Step) {s : Step} (hs : s.change ≠ .keep) :
    trimLast n (l ++ [s]) = l ++ [s] := by
  fun_cases trimLast n (l ++ [s]) with
  | case1 i1 i2 j1 j2 hlast =>
    rw [List.getLast?_concat] at hlast
    obtain rfl := Option.some.inj hlast
    exact absurd rfl hs
  | case2 => rfl

theorem exists_groupFrom_concat (n : Nat) (group l : List Step) {s : Step}
    (hs : s.change ≠ .keep) : ∃ gs g, groupFrom n group (l ++ [s]) = gs ++ [g ++ [s]] := by
  induction l generalizing group with
  | nil => exact ⟨[], group, groupFrom_of_change n group hs []⟩
  | cons t rest ih =>
    have hjoin := ih (group ++ [t])
    rw [List.cons_append]
    by_cases hkeep : t.change = .keep
    · obtain ⟨change, i1, i2, j1, j2⟩ := t
      obtain rfl : change = .keep := hkeep
      rw [groupFrom]
      split
      next =>
        obtain ⟨gs, g, hgs⟩ := ih [⟨.keep, max i1 (i2 - n), i2, max j1 (j2 - n), j2⟩]
        exact ⟨_ :: gs, g, by rw [hgs, List.cons_append]⟩
      next => exact hjoin
    · rwa [groupFrom_of_change n group hkeep]

/-- A change at the end ends the last group. -/
theorem exists_groups_concat (n : Nat) (l : List Step) {s : Step} (hs : s.change ≠ .keep) :
    ∃ gs g, groups n (l ++ [s]) = gs ++ [g ++ [s]] := by
  obtain ⟨l', hfirst⟩ := exists_trimFirst_concat n l hs
  obtain ⟨gs, g, hgs⟩ := exists_groupFrom_concat n [] l' hs
  refine ⟨gs.filter fun g => g.any (·.change != .keep), g, ?_⟩
  rw [groups, hfirst, trimLast_concat n l' hs, hgs, List.filter_append]
  simp [hs]

end Phrasebook.Diff

import Phrasebook.Proofs.CommonBlock

/-!
Steps as a script. The steps between two lists of lines lead from the start of both to the end of
both without a gap, and what they keep is the same on both sides. Grouping leaves out only lines
that are the same. So the groups and the lines between them make up both lists.
-/

namespace Phrasebook.Diff

/-! ### Stretches of a list -/

@[simp]
theorem slice_self (l : List Line) (i : Nat) : slice l i i = [] := by
  simp [slice]

theorem slice_eq_drop (l : List Line) (i : Nat) : slice l i l.length = l.drop i := by
  simp [slice, List.take_of_length_le]

theorem length_slice {l : List Line} {i j : Nat} (h : j ≤ l.length) :
    (slice l i j).length = j - i := by
  simp only [slice, List.length_take, List.length_drop]
  omega

theorem drop_slice (l : List Line) (i j n : Nat) : (slice l i j).drop n = slice l (i + n) j := by
  simp only [slice, List.drop_take, List.drop_drop]
  congr 1
  omega

theorem take_slice {l : List Line} {i j n : Nat} (h : i + n ≤ j) :
    (slice l i j).take n = slice l i (i + n) := by
  simp only [slice, List.take_take]
  congr 1
  omega

theorem slice_append {l : List Line} {i j k : Nat} (hij : i ≤ j) (hjk : j ≤ k) :
    slice l i j ++ slice l j k = slice l i k := by
  obtain ⟨n, rfl⟩ := Nat.exists_eq_add_of_le hij
  rw [← take_slice hjk, ← drop_slice, List.take_append_drop]

theorem slice_sublist {l : List Line} {i i' j j' : Nat} (hi : i ≤ i') (hj : j' ≤ j) :
    (slice l i' j').Sublist (slice l i j) := by
  rcases Nat.le_total i' j' with h | h
  · rw [← slice_append (Nat.le_trans hi h) hj, ← slice_append hi h]
    exact (List.sublist_append_right _ _).trans (List.sublist_append_left _ _)
  · simp [slice, Nat.sub_eq_zero_of_le h]

theorem slice_subset {l : List Line} {i j : Nat} : (slice l i j).Sublist l :=
  (List.take_sublist _ _).trans (List.drop_sublist _ _)

abbrev Position := Nat × Nat

structure Same (a b : List Line) (p q : Position) : Prop where
  left : p.1 ≤ q.1
  leftEnd : q.1 ≤ a.length
  right : p.2 ≤ q.2
  rightEnd : q.2 ≤ b.length
  same : slice a p.1 q.1 = slice b p.2 q.2

section

variable {a b : List Line}

theorem Same.refl {p : Position} (hleft : p.1 ≤ a.length) (hright : p.2 ≤ b.length) :
    Same a b p p :=
  ⟨Nat.le_refl _, hleft, Nat.le_refl _, hright, by simp⟩

theorem Same.trans {p q r : Position} (h : Same a b p q) (h' : Same a b q r) : Same a b p r where
  left := Nat.le_trans h.left h'.left
  leftEnd := h'.leftEnd
  right := Nat.le_trans h.right h'.right
  rightEnd := h'.rightEnd
  same := by
    rw [← slice_append h.left h'.left, ← slice_append h.right h'.right, h.same, h'.same]

theorem Same.sub_eq {p q : Position} (h : Same a b p q) : q.1 - p.1 = q.2 - p.2 := by
  rw [← length_slice h.leftEnd, ← length_slice h.rightEnd, h.same]

/-! ### One step -/

def Step.old (a : List Line) (s : Step) : List Line := slice a s.leftStart s.leftStop

def Step.new (b : List Line) (s : Step) : List Line := slice b s.rightStart s.rightStop

def Step.shown (a b : List Line) (s : Step) : List Line :=
  match s.change with
  | .keep => (s.old a).map (' ' :: ·)
  | .replace => (s.old a).map ('-' :: ·) ++ (s.new b).map ('+' :: ·)
  | .remove => (s.old a).map ('-' :: ·)
  | .insert => (s.new b).map ('+' :: ·)

/-- The step stays inside both lists and does what its change says. -/
structure Step.Fits (a b : List Line) (s : Step) : Prop where
  left : s.leftStart ≤ s.leftStop
  leftEnd : s.leftStop ≤ a.length
  right : s.rightStart ≤ s.rightStop
  rightEnd : s.rightStop ≤ b.length
  keep : s.change = .keep → s.old a = s.new b
  remove : s.change = .remove → s.rightStart = s.rightStop
  insert : s.change = .insert → s.leftStart = s.leftStop
  changes : s.change ≠ .keep → s.leftStart < s.leftStop ∨ s.rightStart < s.rightStop

theorem marked_eq_flatten (c : Char) (l : List Line) : marked c l = (l.map (c :: ·)).flatten := by
  rw [marked, List.flatMap_def]

theorem stepText_eq (s : Step) : stepText a b s = (s.shown a b).flatten := by
  rcases s with ⟨change, i, i', j, j'⟩
  cases change <;> simp [stepText, Step.shown, Step.old, Step.new, marked_eq_flatten]

theorem Step.shown_of_keep {s : Step} (hkeep : s.change = .keep) :
    s.shown a b = (s.old a).map (' ' :: ·) := by
  simp [Step.shown, hkeep]

theorem Step.Fits.shown_of_change {s : Step} (h : s.Fits a b) (hchange : s.change ≠ .keep) :
    s.shown a b = (s.old a).map ('-' :: ·) ++ (s.new b).map ('+' :: ·) := by
  cases hs : s.change with
  | keep => exact absurd hs hchange
  | replace => simp [Step.shown, hs]
  | remove => simp [Step.shown, hs, Step.new, h.remove hs]
  | insert => simp [Step.shown, hs, Step.old, h.insert hs]

theorem Step.Fits.shown_ne_nil {s : Step} (h : s.Fits a b) (hchange : s.change ≠ .keep) :
    s.shown a b ≠ [] := by
  have hold : (s.old a).length = s.leftStop - s.leftStart := length_slice h.leftEnd
  have hnew : (s.new b).length = s.rightStop - s.rightStart := length_slice h.rightEnd
  intro hnil
  rw [h.shown_of_change hchange] at hnil
  have hlength := congrArg List.length hnil
  simp only [List.length_append, List.length_map, List.length_nil] at hlength
  rcases h.changes hchange with hleft | hright <;> omega

theorem Step.Fits.same {s : Step} (h : s.Fits a b) (hkeep : s.change = .keep) :
    Same a b (s.leftStart, s.rightStart) (s.leftStop, s.rightStop) :=
  ⟨h.left, h.leftEnd, h.right, h.rightEnd, h.keep hkeep⟩

theorem Same.fits {p q : Position} (h : Same a b p q) :
    Step.Fits a b ⟨.keep, p.1, q.1, p.2, q.2⟩ :=
  ⟨h.left, h.leftEnd, h.right, h.rightEnd, fun _ => h.same, nofun, nofun, fun h => absurd rfl h⟩

/-- Lines that are the same may be cut in two anywhere. -/
theorem Same.split {i i' j j' n : Nat} (h : Same a b (i, j) (i', j')) (hn : n ≤ i' - i) :
    Same a b (i, j) (i + n, j + n) ∧ Same a b (i + n, j + n) (i', j') := by
  have hsub := h.sub_eq
  have hleft := h.left
  have hleftEnd := h.leftEnd
  have hright := h.right
  have hrightEnd := h.rightEnd
  have hsame := h.same
  simp only at hsub hleft hleftEnd hright hrightEnd hsame
  constructor
  · refine ⟨by simp, by simp only; omega, by simp, by simp only; omega, ?_⟩
    show slice a i (i + n) = slice b j (j + n)
    have hi : i + n ≤ i' := by omega
    have hj : j + n ≤ j' := by omega
    rw [← take_slice hi, ← take_slice hj, hsame]
  · refine ⟨by simp only; omega, hleftEnd, by simp only; omega, hrightEnd, ?_⟩
    show slice a (i + n) i' = slice b (j + n) j'
    rw [← drop_slice, ← drop_slice, hsame]

/-- The first lines that are left of those kept after a change. -/
theorem Same.first {i i' j j' : Nat} (h : Same a b (i, j) (i', j')) (n : Nat) :
    Same a b (i, j) (min i' (i + n), min j' (j + n)) ∧
      Same a b (min i' (i + n), min j' (j + n)) (i', j') := by
  have hsub := h.sub_eq
  have hleft := h.left
  have hright := h.right
  simp only at hsub hleft hright
  rw [show min i' (i + n) = i + min (i' - i) n by omega,
    show min j' (j + n) = j + min (i' - i) n by omega]
  exact h.split (Nat.min_le_left _ _)

/-- The last lines that are left of those kept in front of a change. -/
theorem Same.last {i i' j j' : Nat} (h : Same a b (i, j) (i', j')) (n : Nat) :
    Same a b (i, j) (max i (i' - n), max j (j' - n)) ∧
      Same a b (max i (i' - n), max j (j' - n)) (i', j') := by
  have hsub := h.sub_eq
  have hleft := h.left
  have hright := h.right
  simp only at hsub hleft hright
  rw [show max i (i' - n) = i + (i' - i - n) by omega,
    show max j (j' - n) = j + (i' - i - n) by omega]
  exact h.split (Nat.sub_le _ _)

theorem Same.between {i i' j j' n : Nat} (h : Same a b (i, j) (i', j')) (hmany : 2 * n < i' - i) :
    Same a b (min i' (i + n), min j' (j + n)) (max i (i' - n), max j (j' - n)) := by
  have hsub := h.sub_eq
  simp only at hsub
  obtain ⟨hrest, -⟩ := (h.first n).2.last n
  rwa [show max (min i' (i + n)) (i' - n) = max i (i' - n) by omega,
    show max (min j' (j + n)) (j' - n) = max j (j' - n) by omega] at hrest

/-! ### Scripts -/

/-- Steps that lead from one position to another without a gap. -/
inductive Script (a b : List Line) : Position → List Step → Position → Prop
  | nil (p : Position) : Script a b p [] p
  | cons {s : Step} {rest : List Step} {q : Position} :
      s.Fits a b → Script a b (s.leftStop, s.rightStop) rest q →
        Script a b (s.leftStart, s.rightStart) (s :: rest) q

theorem Script.singleton {s : Step} (h : s.Fits a b) :
    Script a b (s.leftStart, s.rightStart) [s] (s.leftStop, s.rightStop) :=
  .cons h (.nil _)

theorem Script.append {p q r : Position} {l l' : List Step} (h : Script a b p l q)
    (h' : Script a b q l' r) : Script a b p (l ++ l') r := by
  induction h with
  | nil => exact h'
  | cons hs _ ih => exact .cons hs (ih h')

theorem Script.of_append {p r : Position} {l l' : List Step} (h : Script a b p (l ++ l') r) :
    ∃ q, Script a b p l q ∧ Script a b q l' r := by
  induction l generalizing p with
  | nil => exact ⟨p, .nil p, h⟩
  | cons s rest ih =>
    cases h with
    | cons hs hrest =>
      obtain ⟨q, hq, hl'⟩ := ih hrest
      exact ⟨q, .cons hs hq, hl'⟩

theorem Script.fits {p q : Position} {l : List Step} (h : Script a b p l q) :
    ∀ s ∈ l, s.Fits a b := by
  induction h with
  | nil => simp
  | cons hs _ ih => simpa using ⟨hs, ih⟩

/-- A script that keeps everything passes over lines that are the same. -/
theorem Script.same {p q : Position} {l : List Step} (h : Script a b p l q)
    (hkeep : ∀ s ∈ l, s.change = .keep) (hleft : p.1 ≤ a.length) (hright : p.2 ≤ b.length) :
    Same a b p q := by
  induction h with
  | nil => exact Same.refl hleft hright
  | cons hs _ ih =>
    have hrest := ih (fun s hs => hkeep s (List.mem_cons_of_mem _ hs)) hs.leftEnd hs.rightEnd
    exact (hs.same (hkeep _ (by simp))).trans hrest

theorem script_gap {i i' j j' : Nat} (hi : i ≤ i') (hi' : i' ≤ a.length) (hj : j ≤ j')
    (hj' : j' ≤ b.length) : Script a b (i, j) (gap i i' j j') (i', j') := by
  have hfits (change : Change) (hkeep : change ≠ .keep) (hremove : change = .remove → j = j')
      (hinsert : change = .insert → i = i') (hchanges : i < i' ∨ j < j') :
      Step.Fits a b ⟨change, i, i', j, j'⟩ :=
    ⟨hi, hi', hj, hj', fun h => absurd h hkeep, hremove, hinsert, fun _ => hchanges⟩
  rw [gap]
  split
  next h =>
    have hboth : i < i' ∧ j < j' := by simpa using h
    exact Script.singleton (hfits .replace (by simp) (by simp) (by simp) (.inl hboth.1))
  next h =>
    have hone : ¬ (i < i' ∧ j < j') := by simpa using h
    split
    next h =>
      exact Script.singleton (hfits .remove (by simp) (fun _ => by omega) (by simp) (.inl h))
    next =>
      split
      next h =>
        exact Script.singleton (hfits .insert (by simp) (by simp) (fun _ => by omega) (.inr h))
      next =>
        obtain rfl : i = i' := by omega
        obtain rfl : j = j' := by omega
        exact .nil _

theorem Common.same_lines {w : Window} {k : Block} (h : Common a.toArray b.toArray w k)
    (hleft : w.leftStop ≤ a.length) (hright : w.rightStop ≤ b.length) :
    Same a b (k.left, k.right) (k.left + k.size, k.right + k.size) := by
  have hleftStop := h.leftStop
  have hrightStop := h.rightStop
  refine ⟨by simp, by simp only; omega, by simp, by simp only; omega, ?_⟩
  refine List.ext_getElem ?_ ?_
  · rw [length_slice (by simp only; omega), length_slice (by simp only; omega)]
    simp only
    omega
  · intro n hn hn'
    have hlt : n < k.size := by
      rw [length_slice (by simp only; omega)] at hn
      simp only at hn
      omega
    have hline := h.same n hlt
    have ha : k.left + n < a.length := by omega
    have hb : k.right + n < b.length := by omega
    rw [getD_toArray, getD_toArray, List.getElem?_eq_getElem ha,
      List.getElem?_eq_getElem hb] at hline
    simpa [slice] using hline

theorem script_stepsFrom {l : List Block} {i j : Nat}
    (h : InOrder a.toArray b.toArray ⟨i, a.length, j, b.length⟩ l) (hi : i ≤ a.length)
    (hj : j ≤ b.length) :
    Script a b (i, j) (stepsFrom a.length b.length i j l) (a.length, b.length) := by
  induction l generalizing i j with
  | nil => exact script_gap hi (Nat.le_refl _) hj (Nat.le_refl _)
  | cons k rest ih =>
    obtain ⟨hk, -, hrest⟩ := h
    have hsame := hk.same_lines (Nat.le_refl _) (Nat.le_refl _)
    have hleft : k.left + k.size ≤ a.length := hk.leftStop
    have hright : k.right + k.size ≤ b.length := hk.rightStop
    have hgap : Script a b (i, j) (gap i k.left j k.right) (k.left, k.right) :=
      script_gap hk.leftStart (by omega) hk.rightStart (by omega)
    exact hgap.append (.cons hsame.fits (ih hrest hleft hright))

theorem script_steps (a b : List Line) :
    Script a b (0, 0) (steps a b) (a.length, b.length) :=
  script_stepsFrom (blocks_inOrder a b) (Nat.zero_le _) (Nat.zero_le _)

/-! ### Groups -/

/-- Groups of steps that lead to the end of both lists. Between two groups, and behind the last
one, the lists are the same. -/
inductive Covers (a b : List Line) : Position → List (List Step) → Prop
  | nil {p : Position} : Same a b p (a.length, b.length) → Covers a b p []
  | cons {p q r : Position} {group : List Step} {rest : List (List Step)} :
      Same a b p q → Script a b q group r → Covers a b r rest → Covers a b p (group :: rest)

theorem Covers.of_same {p q : Position} {gs : List (List Step)} (h : Same a b p q)
    (hgs : Covers a b q gs) : Covers a b p gs := by
  cases hgs with
  | nil hsame => exact .nil (h.trans hsame)
  | cons hsame hgroup hrest => exact .cons (h.trans hsame) hgroup hrest

theorem Script.le {p q : Position} {l : List Step} (h : Script a b p l q) (hleft : p.1 ≤ a.length)
    (hright : p.2 ≤ b.length) : q.1 ≤ a.length ∧ q.2 ≤ b.length := by
  induction h with
  | nil => exact ⟨hleft, hright⟩
  | cons hs _ ih => exact ih hs.leftEnd hs.rightEnd

theorem trimFirst_of_change (n : Nat) {s : Step} (hs : s.change ≠ .keep) (rest : List Step) :
    trimFirst n (s :: rest) = s :: rest := by
  obtain ⟨change, i1, i2, j1, j2⟩ := s
  cases change with
  | keep => exact absurd rfl hs
  | replace => rfl
  | remove => rfl
  | insert => rfl

theorem groupFrom_of_change (n : Nat) (group : List Step) {s : Step} (hs : s.change ≠ .keep)
    (rest : List Step) : groupFrom n group (s :: rest) = groupFrom n (group ++ [s]) rest := by
  obtain ⟨change, i1, i2, j1, j2⟩ := s
  cases change with
  | keep => exact absurd rfl hs
  | replace => rfl
  | remove => rfl
  | insert => rfl

theorem script_trimFirst (n : Nat) {p q : Position} {l : List Step} (h : Script a b p l q)
    (hleft : p.1 ≤ a.length) (hright : p.2 ≤ b.length) :
    ∃ r, Same a b p r ∧ Script a b r (trimFirst n l) q := by
  fun_cases trimFirst n l with
  | case1 i1 i2 j1 j2 rest =>
    cases h with
    | cons hs hrest =>
      obtain ⟨hfront, hlast⟩ := (hs.same rfl).last n
      exact ⟨_, hfront, .cons hlast.fits hrest⟩
  | case2 => exact ⟨p, Same.refl hleft hright, h⟩

theorem script_trimLast (n : Nat) {p q : Position} {l : List Step} (h : Script a b p l q)
    (hleft : q.1 ≤ a.length) (hright : q.2 ≤ b.length) :
    ∃ r, Script a b p (trimLast n l) r ∧ Same a b r q := by
  fun_cases trimLast n l with
  | case1 i1 i2 j1 j2 hlast =>
    obtain ⟨front, rfl⟩ := List.getLast?_eq_some_iff.1 hlast
    rw [List.dropLast_concat]
    obtain ⟨r, hfront, hstep⟩ := h.of_append
    cases hstep with
    | cons hs hnil =>
      cases hnil with
      | nil =>
        obtain ⟨hfirst, hback⟩ := (hs.same rfl).first n
        exact ⟨_, hfront.append (Script.singleton hfirst.fits), hback⟩
  | case2 => exact ⟨q, h, Same.refl hleft hright⟩

theorem covers_groupFrom (n : Nat) {p q r : Position} {group rest : List Step}
    (hleft : p.1 ≤ a.length) (hright : p.2 ≤ b.length) (hgroup : Script a b p group q)
    (hrest : Script a b q rest r) (hend : Same a b r (a.length, b.length)) :
    Covers a b p (groupFrom n group rest) := by
  induction rest generalizing p q group with
  | nil =>
    cases hrest with
    | nil => exact .cons (Same.refl hleft hright) hgroup (.nil hend)
  | cons s rest ih =>
    cases hrest with
    | cons hs hrest =>
      -- the step joins the group, unless it is one of many kept lines
      have hjoin : Covers a b p (groupFrom n (group ++ [s]) rest) :=
        ih hleft hright (hgroup.append (Script.singleton hs)) hrest
      by_cases hkeep : s.change = .keep
      · obtain ⟨change, i1, i2, j1, j2⟩ := s
        obtain rfl : change = .keep := hkeep
        rw [groupFrom]
        split
        next hmany =>
          obtain ⟨hfirst, -⟩ := (hs.same rfl).first n
          obtain ⟨hfront, hlast⟩ := (hs.same rfl).last n
          have hbetween := (hs.same rfl).between hmany
          have hnext := ih hfront.leftEnd hfront.rightEnd (Script.singleton hlast.fits) hrest
          exact .cons (Same.refl hleft hright) (hgroup.append (Script.singleton hfirst.fits))
            (hnext.of_same hbetween)
        next => exact hjoin
      · rwa [groupFrom_of_change n group hkeep]

/-- A group without a change is left out, and what it shows is the same on both sides. -/
theorem Covers.filter {p : Position} {gs : List (List Step)} (h : Covers a b p gs) :
    Covers a b p (gs.filter fun g => g.any (·.change != .keep)) := by
  induction h with
  | nil hsame => exact .nil hsame
  | @cons p q r group rest hsame hgroup _ ih =>
    rw [List.filter_cons]
    split
    next => exact .cons hsame hgroup ih
    next hnone =>
      have hkeep : ∀ s ∈ group, s.change = .keep := by simpa using hnone
      exact ih.of_same (hsame.trans (hgroup.same hkeep hsame.leftEnd hsame.rightEnd))

theorem covers_groups (n : Nat) {l : List Step}
    (h : Script a b (0, 0) l (a.length, b.length)) : Covers a b (0, 0) (groups n l) := by
  obtain ⟨p, hstart, hfirst⟩ := script_trimFirst n h (Nat.zero_le _) (Nat.zero_le _)
  obtain ⟨q, hlast, hend⟩ := script_trimLast n hfirst (Nat.le_refl _) (Nat.le_refl _)
  have hgroups := covers_groupFrom n hstart.leftEnd hstart.rightEnd (.nil p) hlast hend
  exact (hgroups.of_same hstart).filter

theorem any_change_of_mem_groups {n : Nat} {l group : List Step} (h : group ∈ groups n l) :
    ∃ s ∈ group, s.change ≠ .keep := by
  simpa using (List.mem_filter.1 h).2

end

end Phrasebook.Diff

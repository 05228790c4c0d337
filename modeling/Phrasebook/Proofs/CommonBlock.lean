import Phrasebook.Diff

/-!
The blocks that two lists of lines have in common. Every block found lies in its window and holds
the same lines on both sides, and the blocks follow each other in order on both sides. Which blocks
are found is a matter of search, with one certainty: a last line that both lists share, and that
neither has anywhere else, ends the last block.
-/

namespace Phrasebook.Diff

/-! ### Places -/

theorem mem_addPlace {line : Line} {n : Nat} {ps : Places} {p : Line × List Nat}
    (h : p ∈ addPlace line n ps) :
    p ∈ ps ∨ p = (line, [n]) ∨ ∃ ns, (line, ns) ∈ ps ∧ p = (line, ns ++ [n]) := by
  induction ps with
  | nil => exact .inr (.inl (by simpa [addPlace] using h))
  | cons q rest ih =>
    obtain ⟨l, ns⟩ := q
    rw [addPlace] at h
    split at h
    next hl =>
      subst hl
      rcases List.mem_cons.1 h with rfl | h
      · exact .inr (.inr ⟨ns, by simp, rfl⟩)
      · exact .inl (List.mem_cons_of_mem _ h)
    next =>
      rcases List.mem_cons.1 h with rfl | h
      · exact .inl (by simp)
      · rcases ih h with h | h | ⟨ms, hms, h⟩
        · exact .inl (List.mem_cons_of_mem _ h)
        · exact .inr (.inl h)
        · exact .inr (.inr ⟨ms, List.mem_cons_of_mem _ hms, h⟩)

theorem exists_mem_addPlace {line l : Line} {n : Nat} {ps : Places}
    (h : l = line ∨ ∃ ns, (l, ns) ∈ ps) : ∃ ns, (l, ns) ∈ addPlace line n ps := by
  induction ps with
  | nil =>
    obtain rfl : l = line := by simpa using h
    exact ⟨[n], by simp [addPlace]⟩
  | cons q rest ih =>
    obtain ⟨k, ns⟩ := q
    rw [addPlace]
    split
    next hk =>
      subst hk
      rcases h with rfl | ⟨ms, hms⟩
      · exact ⟨ns ++ [n], by simp⟩
      · rcases List.mem_cons.1 hms with hms | hms
        · obtain ⟨rfl, rfl⟩ := Prod.mk.inj hms
          exact ⟨ms ++ [n], by simp⟩
        · exact ⟨ms, List.mem_cons_of_mem _ hms⟩
    next =>
      by_cases hl : l = k
      · exact ⟨ns, by simp [hl]⟩
      · have hrest : l = line ∨ ∃ ns, (l, ns) ∈ rest := by
          rcases h with h | ⟨ms, hms⟩
          · exact .inl h
          · exact .inr ⟨ms, by simpa [hl] using hms⟩
        obtain ⟨ms, hms⟩ := ih hrest
        exact ⟨ms, List.mem_cons_of_mem _ hms⟩

structure Lists (lines : List Line) (p : Line × List Nat) : Prop where
  nonempty : p.2 ≠ []
  increasing : p.2.Pairwise (· < ·)
  same : ∀ n ∈ p.2, lines[n]? = some p.1

structure Records (lines : List Line) (ps : Places) : Prop where
  lists : ∀ p ∈ ps, Lists lines p
  all : ∀ l ∈ lines, ∃ ns, (l, ns) ∈ ps

theorem Lists.append {lines : List Line} {p : Line × List Nat} (h : Lists lines p) (line : Line) :
    Lists (lines ++ [line]) p where
  nonempty := h.nonempty
  increasing := h.increasing
  same n hn := by
    have hlt : n < lines.length := (List.getElem?_eq_some_iff.1 (h.same n hn)).1
    rw [List.getElem?_append_left hlt]
    exact h.same n hn

theorem Records.addPlace {lines : List Line} {ps : Places} (h : Records lines ps) (line : Line) :
    Records (lines ++ [line]) (addPlace line lines.length ps) where
  lists p hp := by
    rcases mem_addPlace hp with hp | rfl | ⟨ns, hns, rfl⟩
    · exact (h.lists p hp).append line
    · exact ⟨by simp, by simp, by simp⟩
    · have hlists := h.lists _ hns
      refine ⟨by simp, ?_, ?_⟩
      · -- every earlier place is inside the list, so the new one is greater
        rw [List.pairwise_append]
        refine ⟨hlists.increasing, by simp, ?_⟩
        intro m hm n hn
        have hlt := (List.getElem?_eq_some_iff.1 (hlists.same m hm)).1
        simp_all
      · intro n hn
        rcases List.mem_append.1 hn with hn | hn
        · exact (hlists.append line).same n hn
        · obtain rfl : n = lines.length := by simpa using hn
          simp
  all l hl := by
    refine exists_mem_addPlace ?_
    rcases List.mem_append.1 hl with hl | hl
    · exact .inr (h.all l hl)
    · exact .inl (by simpa using hl)

theorem records_foldl {before : List Line} {ps : Places} (h : Records before ps)
    (lines : List Line) :
    Records (before ++ lines) (lines.foldl (fun (ps, n) line => (Diff.addPlace line n ps, n + 1))
      (ps, before.length)).1 := by
  induction lines generalizing before ps with
  | nil => simpa using h
  | cons line rest ih =>
    have hnext := ih (h.addPlace line)
    simpa using hnext

theorem records_nil : Records [] [] := ⟨by simp, by simp⟩

theorem lists_of_mem_places {lines : List Line} {p : Line × List Nat} (h : p ∈ places lines) :
    Lists lines p := by
  have hall := records_foldl records_nil lines
  rw [places] at h
  split at h
  next => exact hall.lists p (List.mem_filter.1 h).1
  next => exact hall.lists p h

/-- A line that comes once is never too common. -/
theorem exists_mem_places {init : List Line} {l : Line} (h : l ∉ init) :
    ∃ ns, (l, ns) ∈ places (init ++ [l]) := by
  have hall := records_foldl records_nil (init ++ [l])
  obtain ⟨ns, hns⟩ := hall.all l (by simp)
  refine ⟨ns, ?_⟩
  rw [places]
  split
  next =>
    refine List.mem_filter.2 ⟨hns, ?_⟩
    have hlists := hall.lists _ hns
    have honly : ∀ n ∈ ns, n = init.length := by
      intro n hn
      have hsame := hlists.same n hn
      have hlt : n < (init ++ [l]).length := (List.getElem?_eq_some_iff.1 hsame).1
      rcases Nat.lt_or_ge n init.length with hinit | hinit
      · rw [List.nil_append, List.getElem?_append_left hinit] at hsame
        exact absurd (List.mem_of_getElem? hsame) h
      · rw [List.length_append, List.length_singleton] at hlt
        omega
    have hlength : ns.length ≤ 1 := by
      match ns, hlists.increasing, honly with
      | [], _, _ => simp
      | [n], _, _ => simp
      | m :: n :: rest, hincreasing, honly =>
        have hm := honly m (by simp)
        have hn := honly n (by simp)
        have := (List.pairwise_cons.1 hincreasing).1 n (by simp)
        omega
    simp only [decide_eq_true_eq]
    omega
  next => exact hns

/-! ### One block -/

structure Common (a b : Lines) (w : Window) (k : Block) : Prop where
  leftStart : w.leftStart ≤ k.left
  leftStop : k.left + k.size ≤ w.leftStop
  rightStart : w.rightStart ≤ k.right
  rightStop : k.right + k.size ≤ w.rightStop
  same : ∀ n < k.size, a.getD (k.left + n) [] = b.getD (k.right + n) []

/-- A run of `p.2` common lines that ends before `left` on one side and at `p.1` on the other. -/
structure RunsTo (a b : Lines) (w : Window) (left : Nat) (p : Nat × Nat) : Prop where
  leftStart : w.leftStart + p.2 ≤ left
  rightStart : w.rightStart + p.2 ≤ p.1 + 1
  stop : p.1 < w.rightStop
  same : ∀ n < p.2, a.getD (left - 1 - n) [] = b.getD (p.1 - n) []

section

variable {a b : Lines} {w : Window}

/-- A run that goes on by one line. The run before it is empty if there is none. -/
theorem runsTo_succ {left right : Nat} {before : Runs} (hleft : w.leftStart ≤ left)
    (hright : w.rightStart ≤ right) (hstop : right < w.rightStop)
    (hbefore : ∀ p ∈ before, RunsTo a b w left p) (hsame : a.getD left [] = b.getD right []) :
    RunsTo a b w (left + 1)
      (right, (if right == 0 then 0 else (before.lookup (right - 1)).getD 0) + 1) := by
  have hone : RunsTo a b w (left + 1) (right, 0 + 1) := by
    refine ⟨by simpa using hleft, by simpa using hright, hstop, ?_⟩
    intro n hn
    obtain rfl : n = 0 := by simpa using hn
    simpa using hsame
  split
  next => exact hone
  next hzero =>
    have hpos : right ≠ 0 := by simpa using hzero
    cases hlookup : before.lookup (right - 1) with
    | none => exact hone
    | some size =>
      obtain ⟨before₁, before₂, hsplit, -⟩ := List.lookup_eq_some_iff.1 hlookup
      have hrun := hbefore (right - 1, size) (by simp [hsplit])
      have hsize := hrun.leftStart
      have hfits := hrun.rightStart
      simp only at hsize hfits
      refine ⟨?_, ?_, hstop, ?_⟩
      · simp only [Option.getD_some]
        omega
      · simp only [Option.getD_some]
        omega
      · intro n hn
        cases n with
        | zero => simpa using hsame
        | succ m =>
          have hm := hrun.same m (by simpa using hn)
          rwa [show left + 1 - 1 - (m + 1) = left - 1 - m by omega,
            show right - (m + 1) = right - 1 - m by omega]

theorem RunsTo.common {left right size : Nat} (h : RunsTo a b w (left + 1) (right, size))
    (hstop : left < w.leftStop) : Common a b w ⟨left + 1 - size, right + 1 - size, size⟩ := by
  obtain ⟨hleft, hright, hend, hsame⟩ := h
  simp only at hleft hright hend hsame
  refine ⟨?_, ?_, ?_, ?_, ?_⟩
  · show w.leftStart ≤ left + 1 - size
    omega
  · show left + 1 - size + size ≤ w.leftStop
    omega
  · show w.rightStart ≤ right + 1 - size
    omega
  · show right + 1 - size + size ≤ w.rightStop
    omega
  · intro n hn
    have hn' : n < size := hn
    have hlast := hsame (size - 1 - n) (by omega)
    rwa [show left + 1 - 1 - (size - 1 - n) = left + 1 - size + n by omega,
      show right - (size - 1 - n) = right + 1 - size + n by omega] at hlast

theorem extendRuns_common {left : Nat} {before : Runs} (hleft : w.leftStart ≤ left)
    (hstop : left < w.leftStop) (hbefore : ∀ p ∈ before, RunsTo a b w left p)
    {rights : List Nat} (hrights : ∀ r ∈ rights, a.getD left [] = b.getD r []) {best : Block}
    (hbest : Common a b w best) :
    (∀ p ∈ (extendRuns w left before rights best).1, RunsTo a b w (left + 1) p) ∧
      Common a b w (extendRuns w left before rights best).2 := by
  induction rights generalizing best with
  | nil => exact ⟨by simp [extendRuns], hbest⟩
  | cons right rest ih =>
    have hrest : ∀ r ∈ rest, a.getD left [] = b.getD r [] :=
      fun r hr => hrights r (List.mem_cons_of_mem _ hr)
    rw [extendRuns]
    split
    next => exact ih hrest hbest
    next hinside =>
      obtain ⟨hstart, hend⟩ : w.rightStart ≤ right ∧ right < w.rightStop := by
        simpa using hinside
      have hrun := runsTo_succ hleft hstart hend hbefore (hrights right (by simp))
      have hnext := hrun.common hstop
      generalize (if right == 0 then 0 else (before.lookup (right - 1)).getD 0) + 1 = size at *
      have hbest' : Common a b w
          (if best.size < size then ⟨left + 1 - size, right + 1 - size, size⟩ else best) := by
        split
        next => exact hnext
        next => exact hbest
      obtain ⟨hruns, hcommon⟩ := ih hrest hbest'
      refine ⟨?_, hcommon⟩
      intro p hp
      rcases List.mem_cons.1 hp with rfl | hp
      · exact hrun
      · exact hruns p hp

def Finds (b : Lines) (ps : Places) : Prop :=
  ∀ l, ∀ r ∈ (ps.lookup l).getD [], l = b.getD r []

theorem longestFrom_common {ps : Places} (hps : Finds b ps) {count left : Nat} {runs : Runs}
    {best : Block} (hleft : w.leftStart ≤ left) (hstop : left + count ≤ w.leftStop)
    (hruns : ∀ p ∈ runs, RunsTo a b w left p) (hbest : Common a b w best) :
    Common a b w (longestFrom w ps a count left runs best) := by
  induction count generalizing left runs best with
  | zero => exact hbest
  | succ count ih =>
    obtain ⟨hruns', hbest'⟩ :=
      extendRuns_common hleft (by omega) hruns (hps (a.getD left [])) hbest
    exact ih (by omega) (by omega) hruns' hbest'

theorem growLeft_common {fuel : Nat} {k : Block} (h : Common a b w k) :
    Common a b w (growLeft w a b fuel k) := by
  induction fuel generalizing k with
  | zero => exact h
  | succ fuel ih =>
    rw [growLeft]
    split
    next hgrow =>
      simp only [Bool.and_eq_true, decide_eq_true_eq, beq_iff_eq] at hgrow
      obtain ⟨⟨hleft, hright⟩, hsame⟩ := hgrow
      apply ih
      refine ⟨?_, ?_, ?_, ?_, ?_⟩
      · show w.leftStart ≤ k.left - 1
        omega
      · have := h.leftStop
        show k.left - 1 + (k.size + 1) ≤ w.leftStop
        omega
      · show w.rightStart ≤ k.right - 1
        omega
      · have := h.rightStop
        show k.right - 1 + (k.size + 1) ≤ w.rightStop
        omega
      · intro n hn
        cases n with
        | zero => exact hsame
        | succ m =>
          have hm := h.same m (Nat.lt_of_succ_lt_succ hn)
          show a.getD (k.left - 1 + (m + 1)) [] = b.getD (k.right - 1 + (m + 1)) []
          rwa [show k.left - 1 + (m + 1) = k.left + m by omega,
            show k.right - 1 + (m + 1) = k.right + m by omega]
    next => exact h

theorem growRight_common {fuel : Nat} {k : Block} (h : Common a b w k) :
    Common a b w (growRight w a b fuel k) := by
  induction fuel generalizing k with
  | zero => exact h
  | succ fuel ih =>
    rw [growRight]
    split
    next hgrow =>
      simp only [Bool.and_eq_true, decide_eq_true_eq, beq_iff_eq] at hgrow
      obtain ⟨⟨hleft, hright⟩, hsame⟩ := hgrow
      apply ih
      refine ⟨h.leftStart, hleft, h.rightStart, hright, ?_⟩
      intro n hn
      rcases Nat.lt_succ_iff_lt_or_eq.1 hn with hn | rfl
      · exact h.same n hn
      · exact hsame
    next => exact h

theorem longest_common {ps : Places} (hps : Finds b ps) (hleft : w.leftStart ≤ w.leftStop)
    (hright : w.rightStart ≤ w.rightStop) : Common a b w (longest w ps a b) := by
  have hempty : Common a b w ⟨w.leftStart, w.rightStart, 0⟩ :=
    ⟨Nat.le_refl _, hleft, Nat.le_refl _, hright, by simp⟩
  exact growRight_common (growLeft_common
    (longestFrom_common hps (Nat.le_refl _) (by omega) (by simp) hempty))

theorem size_le_extendRuns {left : Nat} {before : Runs} {rights : List Nat} {best : Block} :
    best.size ≤ (extendRuns w left before rights best).2.size := by
  induction rights generalizing best with
  | nil => exact Nat.le_refl _
  | cons right rest ih =>
    rw [extendRuns]
    split
    next => exact ih
    next =>
      refine Nat.le_trans ?_ ih
      generalize (if right == 0 then 0 else (before.lookup (right - 1)).getD 0) + 1 = size
      split
      next hless => exact Nat.le_of_lt hless
      next => exact Nat.le_refl _

theorem extendRuns_pos {left : Nat} {before : Runs} {rights : List Nat} {best : Block} {r : Nat}
    (hr : r ∈ rights) (hstart : w.rightStart ≤ r) (hstop : r < w.rightStop) :
    0 < (extendRuns w left before rights best).2.size := by
  induction rights generalizing best with
  | nil => simp at hr
  | cons right rest ih =>
    rw [extendRuns]
    split
    next houtside =>
      have hne : r ≠ right := by
        rintro rfl
        simp at houtside
        omega
      exact ih (by simpa [hne] using hr)
    next =>
      refine Nat.lt_of_lt_of_le ?_ size_le_extendRuns
      have hsize : 0 < (if right == 0 then 0 else (before.lookup (right - 1)).getD 0) + 1 :=
        Nat.succ_pos _
      generalize (if right == 0 then 0 else (before.lookup (right - 1)).getD 0) + 1 = size at *
      split
      next => exact hsize
      next hless => omega

theorem size_le_longestFrom {ps : Places} {count left : Nat} {runs : Runs} {best : Block} :
    best.size ≤ (longestFrom w ps a count left runs best).size := by
  induction count generalizing left runs best with
  | zero => exact Nat.le_refl _
  | succ count ih => exact Nat.le_trans size_le_extendRuns ih

theorem longestFrom_pos {ps : Places} {count left : Nat} {runs : Runs} {best : Block} {i r : Nat}
    (hstart : left ≤ i) (hstop : i < left + count)
    (hr : r ∈ (ps.lookup (a.getD i [])).getD []) (hrstart : w.rightStart ≤ r)
    (hrstop : r < w.rightStop) : 0 < (longestFrom w ps a count left runs best).size := by
  induction count generalizing left runs best with
  | zero => omega
  | succ count ih =>
    rw [longestFrom]
    rcases Nat.eq_or_lt_of_le hstart with rfl | hlt
    · exact Nat.lt_of_lt_of_le (extendRuns_pos hr hrstart hrstop) size_le_longestFrom
    · exact ih hlt (by omega)

theorem size_le_growLeft {fuel : Nat} {k : Block} : k.size ≤ (growLeft w a b fuel k).size := by
  induction fuel generalizing k with
  | zero => exact Nat.le_refl _
  | succ fuel ih =>
    rw [growLeft]
    split
    next => exact Nat.le_of_succ_le (@ih ⟨k.left - 1, k.right - 1, k.size + 1⟩)
    next => exact Nat.le_refl _

theorem size_le_growRight {fuel : Nat} {k : Block} : k.size ≤ (growRight w a b fuel k).size := by
  induction fuel generalizing k with
  | zero => exact Nat.le_refl _
  | succ fuel ih =>
    rw [growRight]
    split
    next => exact Nat.le_of_succ_le (@ih ⟨k.left, k.right, k.size + 1⟩)
    next => exact Nat.le_refl _

/-- A line of the window that the table finds in the window gives a block. -/
theorem longest_pos {ps : Places} {i r : Nat} (hstart : w.leftStart ≤ i) (hstop : i < w.leftStop)
    (hr : r ∈ (ps.lookup (a.getD i [])).getD []) (hrstart : w.rightStart ≤ r)
    (hrstop : r < w.rightStop) : 0 < (longest w ps a b).size := by
  have hfound := @longestFrom_pos a w ps (w.leftStop - w.leftStart) w.leftStart []
    ⟨w.leftStart, w.rightStart, 0⟩ i r hstart (by omega) hr hrstart hrstop
  exact Nat.lt_of_lt_of_le hfound (Nat.le_trans size_le_growLeft size_le_growRight)

/-! ### Blocks in order -/

def Window.before (w : Window) (k : Block) : Window :=
  ⟨w.leftStart, k.left, w.rightStart, k.right⟩

def Window.after (w : Window) (k : Block) : Window :=
  ⟨k.left + k.size, w.leftStop, k.right + k.size, w.rightStop⟩

/-- Common blocks that follow each other through the window, none of them empty. -/
def InOrder (a b : Lines) : Window → List Block → Prop
  | _, [] => True
  | w, k :: rest => Common a b w k ∧ 0 < k.size ∧ InOrder a b (w.after k) rest

theorem InOrder.append {k : Block} {l rest : List Block} (hl : InOrder a b (w.before k) l)
    (hk : Common a b w k) (hsize : 0 < k.size) (hrest : InOrder a b (w.after k) rest) :
    InOrder a b w (l ++ k :: rest) := by
  induction l generalizing w with
  | nil => exact ⟨hk, hsize, hrest⟩
  | cons x l ih =>
    obtain ⟨hx, hxsize, hl⟩ := hl
    have hleft : x.left + x.size ≤ k.left := hx.leftStop
    have hright : x.right + x.size ≤ k.right := hx.rightStop
    have hkleft := hk.leftStop
    have hkright := hk.rightStop
    have hx' : Common a b w x :=
      ⟨hx.leftStart, by omega, hx.rightStart, by omega, hx.same⟩
    have hk' : Common a b (w.after x) k := ⟨hleft, hkleft, hright, hkright, hk.same⟩
    exact ⟨hx', hxsize, ih hl hk' hrest⟩

theorem blocksIn_inOrder {ps : Places} (hps : Finds b ps) {fuel : Nat}
    (hleft : w.leftStart ≤ w.leftStop) (hright : w.rightStart ≤ w.rightStop) :
    InOrder a b w (blocksIn ps a b fuel w) := by
  induction fuel generalizing w with
  | zero => exact trivial
  | succ fuel ih =>
    rw [blocksIn]
    have hk : Common a b w (longest w ps a b) := longest_common hps hleft hright
    generalize longest w ps a b = k at *
    simp only
    split
    next => exact trivial
    next hsize =>
      have hpos : 0 < k.size := by simpa [Nat.pos_iff_ne_zero] using hsize
      exact InOrder.append (ih hk.leftStart hk.rightStart) hk hpos (ih hk.leftStop hk.rightStop)

theorem Common.join {k next : Block} (hk : Common a b w k) (hnext : Common a b (w.after k) next)
    (hleft : k.left + k.size = next.left) (hright : k.right + k.size = next.right) :
    Common a b w ⟨k.left, k.right, k.size + next.size⟩ := by
  have hleftStop : next.left + next.size ≤ w.leftStop := hnext.leftStop
  have hrightStop : next.right + next.size ≤ w.rightStop := hnext.rightStop
  refine ⟨hk.leftStart, ?_, hk.rightStart, ?_, ?_⟩
  · show k.left + (k.size + next.size) ≤ w.leftStop
    omega
  · show k.right + (k.size + next.size) ≤ w.rightStop
    omega
  · intro n hn
    show a.getD (k.left + n) [] = b.getD (k.right + n) []
    have hn' : n < k.size + next.size := hn
    rcases Nat.lt_or_ge n k.size with hlt | hge
    · exact hk.same n hlt
    · have hrest := hnext.same (n - k.size) (by omega)
      rwa [show next.left + (n - k.size) = k.left + n by omega,
        show next.right + (n - k.size) = k.right + n by omega] at hrest

theorem joinBlocks_inOrder {l : List Block} (h : InOrder a b w l) :
    InOrder a b w (joinBlocks l) := by
  induction l generalizing w with
  | nil => exact trivial
  | cons k rest ih =>
    obtain ⟨hk, hsize, hrest⟩ := h
    have hrest' := ih hrest
    rw [joinBlocks]
    split
    next next more hjoin =>
      rw [hjoin] at hrest'
      obtain ⟨hnext, hnsize, hmore⟩ := hrest'
      split
      next hmeet =>
        obtain ⟨hleft, hright⟩ :
            k.left + k.size = next.left ∧ k.right + k.size = next.right := by
          simpa using hmeet
        refine ⟨hk.join hnext hleft hright, Nat.add_pos_left hsize _, ?_⟩
        have hafter : w.after ⟨k.left, k.right, k.size + next.size⟩ =
            (w.after k).after next := by
          simp only [Window.after]
          congr 1 <;> omega
        rwa [hafter]
      next => exact ⟨hk, hsize, hnext, hnsize, hmore⟩
    next => exact ⟨hk, hsize, trivial⟩

/-! ### The last line -/

/-- The last block ends at line `n` on one side and line `m` on the other. -/
def Reaches (n m : Nat) (l : List Block) : Prop :=
  ∃ k, l.getLast? = some k ∧ k.left + k.size = n ∧ k.right + k.size = m

theorem Reaches.append {n m : Nat} {rest : List Block} (h : Reaches n m rest) (l : List Block) :
    Reaches n m (l ++ rest) := by
  obtain ⟨k, hk, hends⟩ := h
  exact ⟨k, by simp [List.getLast?_append, hk], hends⟩

theorem joinBlocks_reaches {n m : Nat} {l : List Block} (h : Reaches n m l) :
    Reaches n m (joinBlocks l) := by
  induction l with
  | nil => simp [Reaches] at h
  | cons k rest ih =>
    rw [joinBlocks]
    cases rest with
    | nil => exact h
    | cons x rest =>
      have hrest : Reaches n m (x :: rest) := by
        obtain ⟨last, hlast, hends⟩ := h
        exact ⟨last, by simpa [List.getLast?_cons] using hlast, hends⟩
      have hjoin := ih hrest
      split
      next next more hmore =>
        rw [hmore] at hjoin
        split
        next hmeet =>
          obtain ⟨hleft, hright⟩ :
              k.left + k.size = next.left ∧ k.right + k.size = next.right := by
            simpa using hmeet
          obtain ⟨last, hlast, hn, hm⟩ := hjoin
          cases more with
          | nil =>
            obtain rfl : next = last := by simpa using hlast
            refine ⟨⟨k.left, k.right, k.size + next.size⟩, rfl, ?_, ?_⟩
            · show k.left + (k.size + next.size) = n
              omega
            · show k.right + (k.size + next.size) = m
              omega
          | cons y more =>
            exact ⟨last, by simpa [List.getLast?_cons] using hlast, hn, hm⟩
        next => exact hjoin.append [k]
      next hnone =>
        rw [hnone] at hjoin
        simp [Reaches] at hjoin

theorem blocksIn_eq_nil {ps : Places} (hps : Finds b ps) {fuel : Nat}
    (hleft : w.leftStart = w.leftStop) (hright : w.rightStart ≤ w.rightStop) :
    blocksIn ps a b fuel w = [] := by
  cases fuel with
  | zero => rfl
  | succ fuel =>
    have hk : Common a b w (longest w ps a b) := longest_common hps (by omega) hright
    have hstart := hk.leftStart
    have hstop := hk.leftStop
    rw [blocksIn]
    exact if_pos (by simp only [beq_iff_eq]; omega)

/-- Where the last lines are each other's only match, the search goes on to the right until it has
taken them in: behind every block that ends earlier there is still a match to find. -/
theorem blocksIn_reaches {ps : Places} (hps : Finds b ps) {fuel n m : Nat}
    (hends : ∀ i < n, ∀ j < m, a.getD i [] = b.getD j [] → (i + 1 = n ↔ j + 1 = m))
    (hfound : ∃ r ∈ (ps.lookup (a.getD (n - 1) [])).getD [], r + 1 = m)
    (hn : w.leftStop = n) (hm : w.rightStop = m) (hleft : w.leftStart < n)
    (hright : w.rightStart < m) (hfuel : n - w.leftStart < fuel) :
    Reaches n m (blocksIn ps a b fuel w) := by
  induction fuel generalizing w with
  | zero => omega
  | succ fuel ih =>
    obtain ⟨r, hr, hrm⟩ := hfound
    have hk : Common a b w (longest w ps a b) := longest_common hps (by omega) (by omega)
    have hpos : 0 < (longest w ps a b).size :=
      longest_pos (by omega) (by omega) hr (by omega) (by omega)
    rw [blocksIn]
    generalize longest w ps a b = k at *
    simp only
    rw [if_neg (by simp only [beq_iff_eq]; omega)]
    have hkleft := hk.leftStart
    have hkleft' := hk.leftStop
    have hkright' := hk.rightStop
    have hsame := hk.same (k.size - 1) (by omega)
    have hlast := hends _ (by omega) _ (by omega) hsame
    rcases Nat.eq_or_lt_of_le hkleft' with hat | hbefore
    · have hnone : blocksIn ps a b fuel (w.after k) = [] := blocksIn_eq_nil hps hat hkright'
      have hk : Reaches n m (k :: blocksIn ps a b fuel (w.after k)) := by
        rw [hnone]
        exact ⟨k, rfl, by omega, by omega⟩
      exact hk.append _
    · have hrest : Reaches n m (blocksIn ps a b fuel (w.after k)) := by
        apply @ih (w.after k) hn hm
        · show k.left + k.size < n
          omega
        · show k.right + k.size < m
          omega
        · show n - (k.left + k.size) < fuel
          omega
      exact (hrest.append [k]).append _

end

/-! ### Lists of lines -/

theorem getD_toArray (a : List Line) (i : Nat) : a.toArray.getD i [] = a[i]?.getD [] := by
  simp

theorem finds_places (b : List Line) : Finds b.toArray (places b) := by
  intro l r hr
  cases hlookup : (places b).lookup l with
  | none => simp [hlookup] at hr
  | some ns =>
    obtain ⟨before, after, hsplit, -⟩ := List.lookup_eq_some_iff.1 hlookup
    have hlists : Lists b (l, ns) := lists_of_mem_places (by simp [hsplit])
    have hmem : r ∈ ns := by simpa [hlookup] using hr
    have hline := hlists.same r hmem
    rw [getD_toArray, hline]
    rfl

theorem blocks_inOrder (a b : List Line) :
    InOrder a.toArray b.toArray ⟨0, a.length, 0, b.length⟩ (blocks a b) :=
  joinBlocks_inOrder (blocksIn_inOrder (finds_places b) (Nat.zero_le _) (Nat.zero_le _))

theorem eq_of_getD_last {init : List Line} {l : Line} (h : l ∉ init) {i : Nat}
    (hi : i < (init ++ [l]).length) (hline : (init ++ [l])[i]?.getD [] = l) : i = init.length := by
  rcases Nat.lt_or_ge i init.length with hlt | hge
  · rw [List.getElem?_append_left hlt, List.getElem?_eq_getElem hlt, Option.getD_some] at hline
    exact absurd (hline ▸ List.getElem_mem hlt) h
  · rw [List.length_append, List.length_singleton] at hi
    omega

theorem getD_last (init : List Line) (l : Line) : (init ++ [l])[init.length]?.getD [] = l := by
  simp

/-- A last line that both lists share, and that neither has anywhere else, ends the last block. -/
theorem blocks_reaches {init init' : List Line} {l : Line} (h : l ∉ init) (h' : l ∉ init') :
    Reaches (init ++ [l]).length (init' ++ [l]).length (blocks (init ++ [l]) (init' ++ [l])) := by
  refine joinBlocks_reaches (blocksIn_reaches (finds_places _) ?_ ?_ rfl rfl ?_ ?_ ?_)
  · intro i hi j hj hsame
    rw [getD_toArray, getD_toArray] at hsame
    simp only [List.length_append, List.length_singleton, Nat.add_right_cancel_iff]
    constructor
    · rintro rfl
      exact eq_of_getD_last h' hj (hsame ▸ getD_last init l)
    · rintro rfl
      exact eq_of_getD_last h hi (hsame ▸ getD_last init' l)
  · have hline : (init ++ [l]).toArray.getD ((init ++ [l]).length - 1) [] = l := by simp
    rw [hline]
    obtain ⟨ns, hns⟩ := exists_mem_places h'
    obtain ⟨ms, hms⟩ : ∃ ms, (places (init' ++ [l])).lookup l = some ms := by
      cases hlookup : (places (init' ++ [l])).lookup l with
      | none => simpa using List.lookup_eq_none_iff.1 hlookup _ hns
      | some ms => exact ⟨ms, rfl⟩
    obtain ⟨before, after, hsplit, -⟩ := List.lookup_eq_some_iff.1 hms
    have hlists : Lists (init' ++ [l]) (l, ms) := lists_of_mem_places (by simp [hsplit])
    obtain ⟨r, hr⟩ := List.exists_mem_of_ne_nil _ hlists.nonempty
    have hsame := hlists.same r hr
    have hlast : r = init'.length :=
      eq_of_getD_last h' (List.getElem?_eq_some_iff.1 hsame).1 (by rw [hsame]; rfl)
    exact ⟨r, by simpa [hms] using hr, by simp [hlast]⟩
  · simp
  · simp
  · simp

end Phrasebook.Diff

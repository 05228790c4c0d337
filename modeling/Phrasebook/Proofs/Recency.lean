import Mathlib.Data.Finset.Card
import Phrasebook.Settings.Cache

/-!
How long settings are remembered. What a cache still holds of a directory depends only on the
directories that were asked for after it, which stand ahead of it: settings are kept as long as
fewer than eight others are ahead, whatever becomes of the files and variables meanwhile, and they
are loaded anew once there are eight, or once the cache was cleared.
-/

namespace Phrasebook.Settings

namespace Cache

variable {c : Cache} {d e : Path} {l : Loaded}

/-- The directories asked for since a directory was asked for last. -/
def ahead (c : Cache) (d : Path) : List Path := (c.map Prod.fst).takeWhile (· != d)

/-- Each directory is held once, and there are not too many. -/
structure Sound (c : Cache) : Prop where
  distinct : (c.map Prod.fst).Nodup
  bounded : c.length ≤ capacity

theorem sound_empty : empty.Sound := ⟨List.nodup_nil, Nat.zero_le _⟩

theorem mem_of_get? (h : Table.get? d c = some l) : d ∈ c.map Prod.fst := by
  by_contra hd
  rw [Table.get?_eq_none hd] at h
  cases h

theorem get?_cons (e : Path) (l : Loaded) (c : Cache) (d : Path) :
    Table.get? d ((e, l) :: c) = if e = d then some l else Table.get? d c := rfl

/-! ### Touching -/

theorem keys_touch (c : Cache) (d : Path) (l : Loaded) :
    (c.touch d l).map Prod.fst = d :: (c.map Prod.fst).filter (· != d) := by
  simp [touch, List.filter_map, Function.comp_def]

theorem Sound.distinct_touch (hc : c.Sound) (d : Path) (l : Loaded) :
    ((c.touch d l).map Prod.fst).Nodup := by
  rw [keys_touch, List.nodup_cons]
  exact ⟨by simp, hc.distinct.filter _⟩

/-- Touching a directory that is held makes no directory more. -/
theorem length_touch_le (h : Table.get? d c = some l) : (c.touch d l).length ≤ c.length := by
  have hlength := congrArg List.length (keys_touch c d l)
  have hlt : ((c.map Prod.fst).filter (· != d)).length < (c.map Prod.fst).length :=
    List.length_filter_lt_length_iff_exists.2 ⟨d, mem_of_get? h, by simp⟩
  simp only [List.length_map, List.length_cons] at hlength hlt
  omega

theorem get?_filter (c : Cache) (h : e ≠ d) :
    Table.get? d (c.filter (·.1 != e)) = Table.get? d c := by
  induction c with
  | nil => rfl
  | cons first c ih =>
      obtain ⟨k, v⟩ := first
      by_cases hk : k = e
      · subst hk
        rw [List.filter_cons_of_neg (by simp), get?_cons, if_neg h]
        exact ih
      · rw [List.filter_cons_of_pos (by simpa using hk), get?_cons, get?_cons]
        by_cases hkd : k = d
        · rw [if_pos hkd, if_pos hkd]
        · rw [if_neg hkd, if_neg hkd]
          exact ih

theorem get?_touch_of_ne (c : Cache) (h : e ≠ d) (l : Loaded) :
    Table.get? d (c.touch e l) = Table.get? d c := by
  rw [touch, get?_cons, if_neg h, get?_filter c h]

theorem takeWhile_filter_ne (h : e ≠ d) (ps : List Path) :
    (ps.filter (· != e)).takeWhile (· != d) = (ps.takeWhile (· != d)).filter (· != e) := by
  induction ps with
  | nil => rfl
  | cons p ps ih =>
      by_cases hpe : p = e
      · subst hpe
        have hpd : (p != d) = true := by simpa using h
        simp [hpd, ih]
      · have hpe' : (p != e) = true := by simpa using hpe
        by_cases hpd : p = d
        · subst hpd
          simp [hpe']
        · have hpd' : (p != d) = true := by simpa using hpd
          simp [hpe', hpd', ih]

/-- A directory that is touched comes ahead of all others. -/
theorem ahead_touch_of_ne (c : Cache) (h : e ≠ d) (l : Loaded) :
    (c.touch e l).ahead d = e :: (c.ahead d).filter (· != e) := by
  have hed : (e != d) = true := by simpa using h
  rw [ahead, keys_touch, List.takeWhile_cons, if_pos hed, takeWhile_filter_ne h, ahead]

theorem ahead_touch_self (c : Cache) (d : Path) (l : Loaded) : (c.touch d l).ahead d = [] := by
  simp [ahead, keys_touch]

/-! ### Dropping -/

/-- The first few of a cache hold a directory exactly if not too many are ahead of it. -/
theorem get?_take (c : Cache) (n : Nat) (d : Path) :
    Table.get? d (c.take n) = if (c.ahead d).length < n then Table.get? d c else none := by
  induction c generalizing n with
  | nil => simp [Table.get?]
  | cons first c ih =>
      obtain ⟨k, v⟩ := first
      cases n with
      | zero => simp [Table.get?]
      | succ n =>
          rw [List.take_succ_cons, get?_cons, get?_cons, ih n]
          by_cases hk : k = d
          · simp [ahead, hk]
          · have hlength : (ahead ((k, v) :: c) d).length = (ahead c d).length + 1 := by
              simp [ahead, hk]
            rw [if_neg hk, if_neg hk, hlength]
            by_cases hn : (ahead c d).length < n
            · rw [if_pos hn, if_pos (Nat.succ_lt_succ hn)]
            · rw [if_neg hn, if_neg fun h => hn (Nat.lt_of_succ_lt_succ h)]

theorem ahead_take (c : Cache) (n : Nat) (d : Path) :
    ahead (c.take n) d = (c.ahead d).take n := by
  induction c generalizing n with
  | nil => simp [ahead]
  | cons first c ih =>
      cases n with
      | zero => simp [ahead]
      | succ n =>
          have hrest := ih n
          simp only [ahead] at hrest ⊢
          rw [List.take_succ_cons, List.map_cons, List.map_cons, List.takeWhile_cons,
            List.takeWhile_cons, hrest]
          split <;> simp

theorem length_ahead_lt (h : Table.get? d c = some l) : (c.ahead d).length < c.length := by
  have hfull := get?_take c c.length d
  rw [List.take_length, h] at hfull
  by_contra hle
  rw [if_neg hle] at hfull
  cases hfull

/-! ### Asking -/

def after (c : Cache) (d : Path) (l : Loaded) : Cache := (c.touch d l).take capacity

theorem Sound.after (hc : c.Sound) (d : Path) (l : Loaded) : (c.after d l).Sound := by
  refine ⟨?_, List.length_take_le _ _⟩
  rw [Cache.after, List.map_take]
  exact (hc.distinct_touch d l).sublist (List.take_sublist _ _)

/-- Asking for settings: they are held, or loaded, or cannot be had. -/
theorem Sound.get_cases (hc : c.Sound) (reader : Yaml.Reader) (w : Workspace)
    (environment : Environment) (d : Path) :
    (∃ l, (Table.get? d c = some l ∨
          Table.get? d c = none ∧ load reader w environment d = .ok l) ∧
        c.get reader w environment d = (.ok l, c.after d l)) ∨
      ∃ f, Table.get? d c = none ∧ load reader w environment d = .error f ∧
        c.get reader w environment d = (.error f, c) := by
  rw [Cache.get]
  cases hd : Table.get? d c with
  | some l =>
      refine Or.inl ⟨l, Or.inl rfl, ?_⟩
      rw [Cache.after, List.take_of_length_le ((length_touch_le hd).trans hc.bounded)]
  | none =>
      cases hload : load reader w environment d with
      | ok l => exact Or.inl ⟨l, Or.inr ⟨rfl, rfl⟩, rfl⟩
      | error f => exact Or.inr ⟨f, rfl, rfl, rfl⟩

theorem get?_after_self (c : Cache) (d : Path) (l : Loaded) :
    Table.get? d (c.after d l) = some l := by
  rw [Cache.after, get?_take, ahead_touch_self, touch, get?_cons]
  simp [capacity]

theorem ahead_after_self (c : Cache) (d : Path) (l : Loaded) : (c.after d l).ahead d = [] := by
  rw [Cache.after, ahead_take, ahead_touch_self, List.take_nil]

/-- Getting other settings keeps those of a directory as long as few enough are ahead of it. -/
theorem Sound.get?_after_of_ne (hc : c.Sound) (h : e ≠ d) (l : Loaded) {others : Finset Path}
    (hothers : ∀ p ∈ c.ahead d, p ∈ others) (hcard : (insert e others).card < capacity) :
    Table.get? d (c.after e l) = Table.get? d c ∧
      ∀ p ∈ (c.after e l).ahead d, p ∈ insert e others := by
  have hsub : ∀ p ∈ (c.touch e l).ahead d, p ∈ insert e others := by
    intro p hp
    rw [ahead_touch_of_ne c h, List.mem_cons, List.mem_filter] at hp
    rcases hp with rfl | ⟨hp, -⟩
    · exact Finset.mem_insert_self _ _
    · exact Finset.mem_insert_of_mem (hothers p hp)
  have hnodup : ((c.touch e l).ahead d).Nodup :=
    (hc.distinct_touch e l).sublist (List.takeWhile_sublist _)
  have hlength : ((c.touch e l).ahead d).length < capacity := by
    rw [← List.toFinset_card_of_nodup hnodup]
    exact (Finset.card_le_card fun p hp => hsub p (List.mem_toFinset.1 hp)).trans_lt hcard
  constructor
  · rw [Cache.after, get?_take, if_pos hlength, get?_touch_of_ne c h]
  · intro p hp
    rw [Cache.after, ahead_take] at hp
    exact hsub p (List.mem_of_mem_take hp)

theorem get?_after_eq_none (h : e ≠ d) (l : Loaded) (hd : Table.get? d c = none) :
    Table.get? d (c.after e l) = none := by
  rw [Cache.after, get?_take, get?_touch_of_ne c h, hd, ite_self]

/-- All directories that were ahead of another stay there, or the other is dropped. -/
theorem mem_ahead_after (h : e ≠ d) (l : Loaded) (hd : Table.get? d (c.after e l) ≠ none) {p : Path}
    (hp : p = e ∨ p ∈ c.ahead d) : p ∈ (c.after e l).ahead d := by
  rw [Cache.after, get?_take] at hd
  split at hd
  · next hlength =>
    rw [Cache.after, ahead_take, List.take_of_length_le (Nat.le_of_lt hlength),
      ahead_touch_of_ne c h, List.mem_cons, List.mem_filter]
    by_cases hpe : p = e
    · exact Or.inl hpe
    · exact Or.inr ⟨hp.resolve_left hpe, by simpa using hpe⟩
  · exact absurd rfl hd

end Cache

/-! ### Sessions -/

/-- A program that is running: the files and variables around it, and the settings it has kept. -/
structure Session where
  reader : Yaml.Reader
  workspace : Workspace
  environment : Environment
  cache : Cache

inductive Event where
  /-- Files are written or taken away. -/
  | files (store : Store)
  /-- Variables are set, the home directory among them. -/
  | environment (given : Environment) (home : Path)
  | clear
  /-- The settings for a directory are asked for. -/
  | get (directory : Path)

namespace Session

def start (reader : Yaml.Reader) (w : Workspace) (environment : Environment) : Session :=
  ⟨reader, w, environment, .empty⟩

def key (s : Session) (directory : Path) : Path := s.workspace.resolve directory

def ask (s : Session) (directory : Path) : Except LoadError Loaded × Cache :=
  s.cache.get s.reader s.workspace s.environment (s.key directory)

def answer (s : Session) (directory : Path) : Except LoadError Loaded := (s.ask directory).1

def fresh (s : Session) (directory : Path) : Except LoadError Loaded :=
  load s.reader s.workspace s.environment (s.key directory)

def step (s : Session) : Event → Session
  | .files store => { s with workspace := { s.workspace with store } }
  | .environment given home =>
      { s with environment := given, workspace := { s.workspace with home } }
  | .clear => { s with cache := .empty }
  | .get directory => { s with cache := (s.ask directory).2 }

def run (s : Session) : List Event → Session
  | [] => s
  | e :: es => (s.step e).run es

def got? (s : Session) : Event → Option Path
  | .get directory => if (s.answer directory).isOk then some (s.key directory) else none
  | _ => none

def got (s : Session) : List Event → List Path
  | [] => []
  | e :: es => (s.got? e).toList ++ (s.step e).got es

variable {s : Session} {d : Path} {l : Loaded}

theorem run_append (s : Session) (es fs : List Event) : s.run (es ++ fs) = (s.run es).run fs := by
  induction es generalizing s with
  | nil => rfl
  | cons e es ih => exact ih (s.step e)

/-- What an event does to the cache: settings are got, or it stays, or it is cleared. -/
theorem step_cases (hs : s.cache.Sound) (e : Event) :
    (∃ d l, s.got? e = some d ∧ (s.step e).cache = s.cache.after d l ∧
        ∀ l', Table.get? d s.cache = some l' → l = l') ∨
      (s.got? e = none ∧ (s.step e).cache = s.cache) ∨
      (s.got? e = none ∧ e = .clear ∧ (s.step e).cache = .empty) := by
  cases e with
  | files store => exact Or.inr (Or.inl ⟨rfl, rfl⟩)
  | environment given home => exact Or.inr (Or.inl ⟨rfl, rfl⟩)
  | clear => exact Or.inr (Or.inr ⟨rfl, rfl, rfl⟩)
  | get directory =>
      rcases hs.get_cases s.reader s.workspace s.environment (s.key directory) with
        ⟨l, hl, hget⟩ | ⟨f, -, -, hget⟩
      · refine Or.inl ⟨s.key directory, l, ?_, ?_, ?_⟩
        · simp [got?, answer, ask, hget, Except.isOk, Except.toBool]
        · simp [step, ask, hget]
        · intro l' hl'
          rcases hl with hl | ⟨hnone, -⟩
          · exact Option.some.inj (hl.symm.trans hl')
          · rw [hnone] at hl'
            cases hl'
      · refine Or.inr (Or.inl ⟨?_, ?_⟩)
        · simp [got?, answer, ask, hget, Except.isOk, Except.toBool]
        · simp [step, ask, hget]

theorem sound_step (hs : s.cache.Sound) (e : Event) : (s.step e).cache.Sound := by
  rcases step_cases hs e with ⟨d, l, -, hcache, -⟩ | ⟨-, hcache⟩ | ⟨-, -, hcache⟩
  · rw [hcache]
    exact hs.after d l
  · rwa [hcache]
  · rw [hcache]
    exact Cache.sound_empty

theorem sound_run (hs : s.cache.Sound) (es : List Event) : (s.run es).cache.Sound := by
  induction es generalizing s with
  | nil => exact hs
  | cons e es ih => exact ih (sound_step hs e)

/-- What is held is answered, and what is not is loaded. -/
theorem answer_eq (s : Session) (directory : Path) :
    s.answer directory =
      match Table.get? (s.key directory) s.cache with
      | some l => .ok l
      | none => s.fresh directory := by
  rw [answer, ask, Cache.get, fresh]
  cases Table.get? (s.key directory) s.cache with
  | some l => rfl
  | none => cases load s.reader s.workspace s.environment (s.key directory) <;> rfl

/-- The settings of a directory are kept while fewer than eight others are got. -/
theorem kept_run (hs : s.cache.Sound) (hheld : Table.get? d s.cache = some l) (others : Finset Path)
    (hahead : ∀ p ∈ s.cache.ahead d, p ∈ others) {es : List Event} (hclear : .clear ∉ es)
    (hcard : (others ∪ (s.got es).toFinset.erase d).card < Cache.capacity) :
    Table.get? d (s.run es).cache = some l := by
  induction es generalizing s others with
  | nil => exact hheld
  | cons e es ih =>
      rw [List.mem_cons, not_or] at hclear
      rw [got, List.toFinset_append, Finset.erase_union_distrib] at hcard
      have hsound := sound_step hs e
      rcases step_cases hs e with ⟨p, l', hgot, hcache, hsame⟩ | ⟨hgot, hcache⟩ | ⟨-, rfl, -⟩
      · rw [hgot] at hcard
        by_cases hp : p = d
        · -- the directory itself is got: nothing is ahead of it any more
          subst hp
          obtain rfl := hsame l hheld
          refine ih hsound ?_ ∅ ?_ hclear.2 ?_
          · rw [hcache, Cache.get?_after_self]
          · rw [hcache, Cache.ahead_after_self]
            simp
          · refine (Finset.card_le_card ?_).trans_lt hcard
            rw [Finset.empty_union]
            exact Finset.subset_union_right.trans Finset.subset_union_right
        · have hinsert : insert p others ∪ ((s.step e).got es).toFinset.erase d =
              others ∪ ((some p).toList.toFinset.erase d ∪
                ((s.step e).got es).toFinset.erase d) := by
            rw [Option.toList_some, List.toFinset_cons, List.toFinset_nil, insert_empty_eq,
              Finset.erase_eq_of_notMem (s := {p}) (by simpa using Ne.symm hp),
              ← Finset.union_assoc, Finset.union_comm others, ← Finset.insert_eq]
          rw [← hinsert] at hcard
          have hfew := (Finset.card_le_card Finset.subset_union_left).trans_lt hcard
          obtain ⟨hget, hsub⟩ := hs.get?_after_of_ne hp l' hahead hfew
          rw [← hcache] at hget hsub
          exact ih hsound (hget.trans hheld) _ hsub hclear.2 hcard
      · rw [hgot, Option.toList_none, List.toFinset_nil, Finset.erase_empty,
          Finset.empty_union] at hcard
        rw [← hcache] at hheld hahead
        exact ih hsound hheld others hahead hclear.2 hcard
      · exact absurd rfl hclear.1

/-- What a cache does not hold it does not hold until it is got. -/
theorem absent_run (hs : s.cache.Sound) (habsent : Table.get? d s.cache = none) {es : List Event}
    (hd : d ∉ s.got es) : Table.get? d (s.run es).cache = none := by
  induction es generalizing s with
  | nil => exact habsent
  | cons e es ih =>
      rw [got, List.mem_append, not_or] at hd
      refine ih (sound_step hs e) ?_ hd.2
      rcases step_cases hs e with ⟨p, l, hgot, hcache, -⟩ | ⟨-, hcache⟩ | ⟨-, -, hcache⟩
      · rw [hcache]
        rw [hgot, Option.toList_some, List.mem_singleton] at hd
        exact Cache.get?_after_eq_none (Ne.symm hd.1) l habsent
      · rwa [hcache]
      · rw [hcache]
        rfl

/-- All that is got comes ahead of a directory that is not, or the directory is dropped. -/
theorem ahead_run (hs : s.cache.Sound) {es : List Event} (hd : d ∉ s.got es)
    (hheld : Table.get? d (s.run es).cache ≠ none) {p : Path}
    (hp : p ∈ s.cache.ahead d ∨ p ∈ s.got es) : p ∈ (s.run es).cache.ahead d := by
  induction es generalizing s with
  | nil =>
      rcases hp with hp | hp
      · exact hp
      · simp [got] at hp
  | cons e es ih =>
      rw [got, List.mem_append, not_or] at hd
      rw [got, List.mem_append] at hp
      have hsound := sound_step hs e
      have hstep : Table.get? d (s.step e).cache ≠ none :=
        fun habsent => hheld (absent_run hsound habsent hd.2)
      refine ih hsound hd.2 hheld ?_
      -- one event moves a directory from those still to be got to those ahead
      rcases step_cases hs e with ⟨q, l, hgot, hcache, -⟩ | ⟨hgot, hcache⟩ | ⟨-, -, hcache⟩
      · rw [hgot, Option.toList_some, List.mem_singleton] at hd hp
        rcases hp with hp | rfl | hp
        · rw [hcache] at hstep ⊢
          exact Or.inl (Cache.mem_ahead_after (Ne.symm hd.1) l hstep (Or.inr hp))
        · rw [hcache] at hstep ⊢
          exact Or.inl (Cache.mem_ahead_after (Ne.symm hd.1) l hstep (Or.inl rfl))
        · exact Or.inr hp
      · rw [hcache]
        rw [hgot] at hp
        simpa using hp
      · exact absurd (by rw [hcache]; rfl) hstep

def others (d : Path) (ps : List Path) : Nat := (ps.toFinset.erase d).card

theorem sound_start (reader : Yaml.Reader) (w : Workspace) (environment : Environment) :
    (start reader w environment).cache.Sound :=
  Cache.sound_empty

/-- Settings that are got come first in the cache. -/
theorem cache_step_get (hs : s.cache.Sound) {directory : Path} (h : s.answer directory = .ok l) :
    (s.step (.get directory)).cache = s.cache.after (s.key directory) l := by
  rcases hs.get_cases s.reader s.workspace s.environment (s.key directory) with
    ⟨l', -, hget⟩ | ⟨f, -, -, hget⟩
  · rw [answer, ask, hget] at h
    obtain rfl := Except.ok.inj h
    rw [step, ask, hget]
  · rw [answer, ask, hget] at h
    cases h

/-- Asking in vain changes nothing. -/
theorem step_get_of_error (hs : s.cache.Sound) {directory : Path} {f : LoadError}
    (h : s.answer directory = .error f) : s.step (.get directory) = s := by
  rcases hs.get_cases s.reader s.workspace s.environment (s.key directory) with
    ⟨l, -, hget⟩ | ⟨f', -, -, hget⟩
  · rw [answer, ask, hget] at h
    cases h
  · rw [step, ask, hget]

theorem answer_of_absent {directory : Path}
    (h : Table.get? (s.key directory) s.cache = none) : s.answer directory = s.fresh directory := by
  rw [answer_eq, h]

/-- Once eight others were got, a directory is dropped. -/
theorem dropped_run (hs : s.cache.Sound) {es : List Event} (hd : d ∉ s.got es)
    (hmany : Cache.capacity ≤ others d (s.got es)) : Table.get? d (s.run es).cache = none := by
  by_contra hheld
  obtain ⟨l, hl⟩ := Option.ne_none_iff_exists'.1 hheld
  have hsound := sound_run hs es
  have hsub : (s.got es).toFinset.erase d ⊆ ((s.run es).cache.ahead d).toFinset := by
    intro p hp
    have hgot := List.mem_toFinset.1 (Finset.mem_of_mem_erase hp)
    exact List.mem_toFinset.2 (ahead_run hs hd hheld (Or.inr hgot))
  have hcard : others d (s.got es) ≤ ((s.run es).cache.ahead d).length :=
    (Finset.card_le_card hsub).trans (List.toFinset_card_le _)
  have hlength := Cache.length_ahead_lt hl
  have hbounded := hsound.bounded
  omega

/-- What is answered to whom asks for settings after a run. If they were got before, the cache was
not cleared since and fewer than eight other directories were got since, the answer is the one
from then. If they were not got since the cache was cleared, or since eight other directories
were, the answer is what the files and variables now give. Asking in vain changes nothing, and
there are never more than eight directories in the cache. -/
theorem answer_after_run (reader : Yaml.Reader) (w : Workspace) (environment : Environment)
    (es : List Event) (directory : Path) :
    let first := start reader w environment
    let now := first.run es
    (∀ before earlier between l, es = before ++ .get earlier :: between →
        (first.run before).key earlier = now.key directory →
        (first.run before).answer earlier = .ok l → .clear ∉ between →
        others (now.key directory) ((first.run (before ++ [.get earlier])).got between) < 8 →
        now.answer directory = .ok l) ∧
      (∀ before since, es = before ++ since → before = [] ∨ before.getLast? = some .clear →
        now.key directory ∉ (first.run before).got since →
        now.answer directory = now.fresh directory) ∧
      (∀ before since, es = before ++ since →
        now.key directory ∉ (first.run before).got since →
        8 ≤ others (now.key directory) ((first.run before).got since) →
        now.answer directory = now.fresh directory) ∧
      (∀ f, now.answer directory = .error f → now.step (.get directory) = now) ∧
      now.cache.length ≤ 8 := by
  intro first now
  have hstart := sound_start reader w environment
  have hnow : now.cache.Sound := sound_run hstart es
  have hrun : ∀ before since, es = before ++ since → now = (first.run before).run since := by
    rintro before since rfl
    exact run_append first before since
  refine ⟨?_, ?_, ?_, fun f hf => step_get_of_error hnow hf, hnow.bounded⟩
  · intro before earlier between l hes hkey hanswer hclear hfew
    have hbefore := sound_run hstart before
    have hcache := cache_step_get hbefore hanswer
    rw [hkey] at hcache
    rw [run_append] at hfew
    have hheld : Table.get? (now.key directory) now.cache = some l := by
      rw [show now.cache = _ from congrArg cache (hrun _ _ hes)]
      refine kept_run (sound_step hbefore (.get earlier)) ?_ ∅ ?_ hclear ?_
      · rw [hcache, Cache.get?_after_self]
      · rw [hcache, Cache.ahead_after_self]
        simp
      · rw [Finset.empty_union]
        exact hfew
    rw [answer_eq, hheld]
  · intro before since hes hcleared hd
    have hempty : (first.run before).cache = .empty := by
      rcases hcleared with rfl | hlast
      · rfl
      · obtain ⟨front, rfl⟩ := List.getLast?_eq_some_iff.1 hlast
        rw [run_append]
        rfl
    refine answer_of_absent ?_
    rw [show now.cache = _ from congrArg cache (hrun _ _ hes)]
    exact absent_run (sound_run hstart before) (by rw [hempty]; rfl) hd
  · intro before since hes hd hmany
    refine answer_of_absent ?_
    rw [show now.cache = _ from congrArg cache (hrun _ _ hes)]
    exact dropped_run (sound_run hstart before) hd hmany

/-- The number of workers is set after the settings were got: the answer stays until the cache is
cleared. -/
theorem answer_after_run_workers :
    let w : Workspace := ⟨.empty, ⟨"/", ["w"]⟩, ⟨"/", ["h"]⟩, []⟩
    let here : Path := ⟨"", []⟩
    let set : Event := .environment [("LOCALEFORGE_WORKERS".toList, "2".toList)] w.home
    let workers (r : Except LoadError Loaded) : Option Int := r.toOption.map (·.settings.workers)
    workers (((start Yaml.load w []).run [.get here, set]).answer here) = some 4 ∧
      workers (((start Yaml.load w []).run [.get here, set]).fresh here) = some 2 ∧
      workers (((start Yaml.load w []).run [.get here, set, .clear]).answer here) = some 2 := by
  intro w here set workers
  have hkept := (answer_after_run Yaml.load w [] [.get here, set] here).1
  have hcleared := (answer_after_run Yaml.load w [] [.get here, set, .clear] here).2.1
  have hworkers : workers ((start Yaml.load w []).answer here) = some 4 := by decide +kernel
  refine ⟨?_, by decide +kernel, ?_⟩
  · cases hfirst : (start Yaml.load w []).answer here with
    | error f =>
        rw [hfirst] at hworkers
        cases hworkers
    | ok l =>
        rw [hkept [] here [set] l rfl rfl hfirst (by simp [set]) (by decide), ← hfirst]
        exact hworkers
  · rw [hcleared [.get here, set, .clear] [] rfl (Or.inr rfl) (by simp [got])]
    decide +kernel

end Session

end Phrasebook.Settings

import Mathlib.Data.List.Basic
import Phrasebook.Project.Scan
import Phrasebook.Proofs.Outcome

/-!
What a scan reports. The answer of a pool of workers is that of a single worker who goes through
the files one after another, whatever the number of workers and the order in which they finish.
That answer is counted out: the candidates of the files that could be scanned, one record for each
of the others, and no answer at all once there are as many of these as the limit says.
-/

namespace Phrasebook.Project

open Source

/-! ### One file after another -/

/-- What one worker alone comes to, from a log and some candidates on. -/
def gather (work : Path → Outcome) (log : FailureLog) (found : List Candidate) :
    List Path → Except Aborted (List Candidate × List Failure)
  | [] => .ok (found, log.records)
  | file :: files =>
      match work file with
      | .ok cs => gather work log (found ++ cs) files
      | .error cause =>
          match log.record? (cause.failure file.toString) with
          | .ok log => gather work log found files
          | .error a => .error a

def failureOf? (work : Path → Outcome) (file : Path) : Option Failure :=
  match work file with
  | .ok _ => none
  | .error cause => some (cause.failure file.toString)

def candidatesOf (work : Path → Outcome) (file : Path) : List Candidate :=
  match work file with
  | .ok cs => cs
  | .error _ => []

namespace FailureLog

/-- The number of further failures at which the scan is given up. -/
def patience (log : FailureLog) (limit : Int) : Nat := max 1 (limit - log.total).toNat

theorem record?_eq (log : FailureLog) (f : Failure) :
    log.record? f =
      match log.limit with
      | none => .ok (log.add f)
      | some limit =>
          if log.patience limit = 1 then .error ⟨log.total + 1, limit⟩ else .ok (log.add f) := by
  have htotal : (log.add f).total = log.total + 1 := by simp [add, total]
  have hlimit : (log.add f).limit = log.limit := rfl
  rw [record?, aborted?, hlimit, htotal]
  cases log.limit with
  | none => rfl
  | some limit =>
      have hone : log.patience limit = 1 ↔ limit ≤ (log.total + 1 : Nat) := by
        simp only [patience]
        omega
      by_cases h : limit ≤ (log.total + 1 : Nat)
      · simp only [if_pos h, if_pos (hone.2 h)]
      · simp only [if_neg h, if_neg fun h' => h (hone.1 h')]

theorem patience_add (log : FailureLog) (f : Failure) {limit : Int}
    (h : log.patience limit ≠ 1) : (log.add f).patience limit + 1 = log.patience limit := by
  simp only [patience, add, total, List.length_append, List.length_singleton] at h ⊢
  omega

end FailureLog

/-- What one worker alone comes to, counted out. -/
theorem gather_eq (work : Path → Outcome) (log : FailureLog) (found : List Candidate)
    (files : List Path) :
    gather work log found files =
      match log.limit with
      | none =>
          .ok (found ++ files.flatMap (candidatesOf work),
            log.records ++ files.filterMap (failureOf? work))
      | some limit =>
          if log.patience limit ≤ (files.filterMap (failureOf? work)).length then
            .error ⟨log.total + log.patience limit, limit⟩
          else
            .ok (found ++ files.flatMap (candidatesOf work),
              log.records ++ files.filterMap (failureOf? work)) := by
  induction files generalizing log found with
  | nil =>
      cases hlimit : log.limit with
      | none => simp [gather]
      | some limit =>
          have hpos : ¬ log.patience limit ≤ 0 := by
            simp only [FailureLog.patience]
            omega
          simp [gather, hpos]
  | cons file files ih =>
      rw [gather]
      cases hwork : work file with
      | ok cs =>
          have hnone : failureOf? work file = none := by simp [failureOf?, hwork]
          have hcs : candidatesOf work file = cs := by simp [candidatesOf, hwork]
          simp only [List.filterMap_cons, hnone, List.flatMap_cons, hcs, ← List.append_assoc]
          exact ih log (found ++ cs)
      | error cause =>
          have hsome : failureOf? work file = some (cause.failure file.toString) := by
            simp [failureOf?, hwork]
          have hcs : candidatesOf work file = [] := by simp [candidatesOf, hwork]
          simp only [List.filterMap_cons, hsome, List.flatMap_cons, hcs, List.nil_append,
            FailureLog.record?_eq, List.length_cons]
          have hrecords : (log.add (cause.failure file.toString)).records =
              log.records ++ [cause.failure file.toString] := rfl
          have htotal : (log.add (cause.failure file.toString)).total = log.total + 1 := by
            simp [FailureLog.total, hrecords]
          have hlog : (log.add (cause.failure file.toString)).limit = log.limit := rfl
          cases hlimit : log.limit with
          | none =>
              simp only
              rw [ih, hlog, hlimit, hrecords]
              simp
          | some limit =>
              simp only
              by_cases hone : log.patience limit = 1
              · rw [if_pos hone, if_pos (by omega), hone]
              · have hpatience := log.patience_add (cause.failure file.toString) hone
                rw [if_neg hone]
                simp only [ih, hlog, hlimit, hrecords, htotal, List.append_assoc,
                  List.singleton_append]
                split
                · rw [if_pos (by omega)]
                  congr 2
                  omega
                · rw [if_neg (by omega)]

/-- As many failures as the limit says, one at least. -/
def LimitReached (limit : Option Int) (failures : Nat) : Prop :=
  ∃ m, limit = some m ∧ max 1 m ≤ failures

theorem gather_start_of_reached {work : Path → Outcome} {limit : Option Int} {files : List Path}
    (h : LimitReached limit (files.filterMap (failureOf? work)).length) :
    ∃ a, gather work (.start limit) [] files = .error a := by
  obtain ⟨m, rfl, hm⟩ := h
  have hpatience : (FailureLog.start (some m)).patience m ≤
      (files.filterMap (failureOf? work)).length := by
    simp only [FailureLog.patience, FailureLog.total, FailureLog.start, List.length_nil]
    omega
  rw [gather_eq]
  exact ⟨_, if_pos hpatience⟩

theorem gather_start_of_not_reached {work : Path → Outcome} {limit : Option Int}
    {files : List Path} (h : ¬ LimitReached limit (files.filterMap (failureOf? work)).length) :
    gather work (.start limit) [] files =
      .ok (files.flatMap (candidatesOf work), files.filterMap (failureOf? work)) := by
  rw [gather_eq]
  cases limit with
  | none => rfl
  | some m =>
      have hpatience : ¬ (FailureLog.start (some m)).patience m ≤
          (files.filterMap (failureOf? work)).length := by
        intro hle
        simp only [FailureLog.patience, FailureLog.total, FailureLog.start, List.length_nil] at hle
        exact h ⟨m, rfl, by omega⟩
      exact if_neg hpatience

/-! ### Many workers -/

theorem Job.file_advance (work : Path → Outcome) (j : Job) : (j.advance work).file = j.file := by
  unfold advance
  split <;> rfl

namespace Pool

variable {work : Path → Outcome}

def expected (work : Path → Outcome) (p : Pool) : Except Aborted (List Candidate × List Failure) :=
  match p.aborted with
  | some a => .error a
  | none => gather work p.log p.candidates (p.jobs.map Job.file)

/-- There is a worker, results are those of the work, and only a scan that was given up has
cancelled jobs. -/
structure Sound (work : Path → Outcome) (p : Pool) : Prop where
  worker : 0 < p.workers
  results : ∀ j ∈ p.jobs, ∀ o, j.stage = .done o → o = work j.file
  kept : p.aborted = none → ∀ j ∈ p.jobs, j.stage ≠ .cancelled

theorem sound_start (workers : Int) (limit : Option Int) (files : List Path) :
    (start workers limit files).Sound work := by
  refine ⟨?_, ?_, ?_⟩
  · simp only [start]
    omega
  · intro j hj o ho
    obtain ⟨file, -, rfl⟩ := List.mem_map.1 hj
    cases ho
  · intro _ j hj ho
    obtain ⟨file, -, rfl⟩ := List.mem_map.1 hj
    cases ho

theorem map_file_modify (jobs : List Job) (i : Nat) :
    (jobs.modify i (Job.advance work)).map Job.file = jobs.map Job.file := by
  induction jobs generalizing i with
  | nil => simp
  | cons j jobs ih =>
      cases i with
      | zero => simp [Job.file_advance]
      | succ i => simpa using ih i

theorem mem_modify {jobs : List Job} {i : Nat} {f : Job → Job} {j : Job}
    (h : j ∈ jobs.modify i f) : j ∈ jobs ∨ ∃ k ∈ jobs, j = f k := by
  induction jobs generalizing i with
  | nil => simp at h
  | cons first jobs ih =>
      cases i with
      | zero =>
          rw [List.modify_zero_cons] at h
          rcases List.mem_cons.1 h with rfl | h
          · exact Or.inr ⟨first, List.mem_cons_self, rfl⟩
          · exact Or.inl (List.mem_cons_of_mem _ h)
      | succ i =>
          rw [List.modify_succ_cons] at h
          rcases List.mem_cons.1 h with rfl | h
          · exact Or.inl List.mem_cons_self
          · rcases ih h with h | ⟨k, hk, rfl⟩
            · exact Or.inl (List.mem_cons_of_mem _ h)
            · exact Or.inr ⟨k, List.mem_cons_of_mem _ hk, rfl⟩

theorem Sound.advance {p : Pool} (h : p.Sound work) (i : Nat) :
    (p.take work (.advance i)).Sound work := by
  refine ⟨h.worker, ?_, ?_⟩
  · intro j hj o ho
    rcases mem_modify hj with hj | ⟨k, hk, rfl⟩
    · exact h.results j hj o ho
    · obtain ⟨file, stage⟩ := k
      cases stage with
      | waiting => cases ho
      | running => exact (Stage.done.inj ho).symm
      | done o' => exact h.results _ hk o ho
      | cancelled => cases ho
  · intro hnone j hj
    rcases mem_modify hj with hj | ⟨k, hk, rfl⟩
    · exact h.kept hnone j hj
    · obtain ⟨file, stage⟩ := k
      have hstage := h.kept hnone _ hk
      cases stage with
      | waiting => simp [Job.advance]
      | running => simp [Job.advance]
      | done o' => simp [Job.advance]
      | cancelled => exact absurd rfl hstage

theorem Sound.collect {p : Pool} (h : p.Sound work) {file : Path} {o : Outcome} {rest : List Job}
    (hjobs : p.jobs = ⟨file, .done o⟩ :: rest) : (p.collect file rest o).Sound work := by
  have hsub : ∀ j ∈ rest, j ∈ p.jobs := by
    intro j hj
    rw [hjobs]
    exact List.mem_cons_of_mem _ hj
  have hresults : ∀ j ∈ rest, ∀ o, j.stage = .done o → o = work j.file := fun j hj =>
    h.results j (hsub j hj)
  unfold Pool.collect
  split
  · exact ⟨h.worker, hresults, fun hnone j hj => h.kept hnone j (hsub j hj)⟩
  · split
    · exact ⟨h.worker, hresults, fun hnone j hj => h.kept hnone j (hsub j hj)⟩
    · refine ⟨h.worker, ?_, fun hnone => by cases hnone⟩
      intro j hj o ho
      obtain ⟨k, hk, rfl⟩ := List.mem_map.1 hj
      obtain ⟨name, stage⟩ := k
      cases stage with
      | waiting => cases ho
      | running => cases ho
      | done o' => exact hresults _ hk o ho
      | cancelled => cases ho

theorem sound_take {p : Pool} (h : p.Sound work) {turn : Turn} (hturn : turn ∈ p.turns) :
    (p.take work turn).Sound work := by
  cases turn with
  | collect =>
      obtain ⟨-, file, o, rest, hjobs⟩ := mem_turns_collect hturn
      simp only [take, hjobs]
      exact h.collect hjobs
  | advance i => exact h.advance i

/-- No turn changes the answer that a pool is on its way to. -/
theorem expected_take {p : Pool} (h : p.Sound work) {turn : Turn} (hturn : turn ∈ p.turns) :
    (p.take work turn).expected work = p.expected work := by
  cases turn with
  | collect =>
      obtain ⟨hnone, file, o, rest, hjobs⟩ := mem_turns_collect hturn
      have hwork : work file = o :=
        (h.results ⟨file, .done o⟩ (by rw [hjobs]; exact List.mem_cons_self) o rfl).symm
      have hbefore : p.expected work =
          gather work p.log p.candidates (file :: rest.map Job.file) := by
        simp only [expected, hnone, hjobs, List.map_cons]
      rw [hbefore, gather, hwork]
      simp only [take, hjobs]
      cases o with
      | ok cs => simp [Pool.collect, expected, hnone]
      | error cause =>
          cases hrecord : p.log.record? (cause.failure file.toString) with
          | ok log => simp [Pool.collect, hrecord, expected, hnone]
          | error a => simp [Pool.collect, hrecord, expected]
  | advance i => simp only [take, expected, map_file_modify]

/-- While there are jobs to collect, something may happen. -/
theorem exists_turn {p : Pool} (h : p.Sound work) (hnone : p.aborted = none)
    (hjobs : p.jobs ≠ []) : p.turns ≠ [] := by
  obtain ⟨j, rest, hcons⟩ := List.exists_cons_of_ne_nil hjobs
  have hj : j ∈ p.jobs := by
    rw [hcons]
    exact List.mem_cons_self
  intro hturns
  obtain ⟨hfront, hfinish⟩ := List.append_eq_nil_iff.1 hturns
  obtain ⟨hcollect, hstart⟩ := List.append_eq_nil_iff.1 hfront
  have hidle : ∀ k ∈ p.jobs, k.isRunning = false := by
    intro k hk
    obtain ⟨i, hi⟩ := List.mem_iff_getElem?.1 hk
    have hnil := List.filter_eq_nil_iff.1 (List.map_eq_nil_iff.1 hfinish)
    simpa using hnil (k, i) (List.mem_zipIdx_iff_getElem?.2 hi)
  cases hstage : j.stage with
  | waiting =>
      -- all workers are free, so the first job that waits may start
      have hrunning : p.running = 0 := by
        rw [running, List.countP_eq_zero]
        intro k hk
        simp [hidle k hk]
      have hwaiting : p.jobs.any Job.isWaiting = true :=
        List.any_eq_true.2 ⟨j, hj, by simp [Job.isWaiting, hstage]⟩
      have hworker := h.worker
      simp [mayStart, hrunning, hwaiting, hworker] at hstart
  | running =>
      have := hidle j hj
      simp [Job.isRunning, hstage] at this
  | done o =>
      obtain ⟨file, stage⟩ := j
      obtain rfl : stage = .done o := hstage
      simp [mayCollect, hnone, hcons] at hcollect
  | cancelled => exact h.kept hnone j hj hstage

theorem answer_of_turns_eq_nil {p : Pool} (h : p.Sound work) (hturns : p.turns = []) :
    p.answer = p.expected work := by
  unfold answer expected
  cases hnone : p.aborted with
  | some a => rfl
  | none =>
      have hjobs : p.jobs = [] := by
        by_contra hjobs
        exact exists_turn h hnone hjobs hturns
      simp [hjobs, gather]

/-- A pool comes to the answer that it is on its way to, however its workers are scheduled. -/
theorem answer_run (schedule : Schedule) {p : Pool} (h : p.Sound work) :
    (p.run work schedule).answer = p.expected work := by
  induction p using run.induct work schedule with
  | case1 p hturns =>
      rw [run, dif_pos hturns]
      exact answer_of_turns_eq_nil h hturns
  | case2 p hturns ih =>
      have hmem := List.get_mem p.turns
        ⟨schedule p % p.turns.length, Nat.mod_lt _ (List.length_pos_iff.2 hturns)⟩
      rw [run, dif_neg hturns, ih (sound_take h hmem), expected_take h hmem]

theorem expected_start (workers : Int) (limit : Option Int) (files : List Path) :
    (start workers limit files).expected work = gather work (.start limit) [] files := by
  have hfiles : (files.map fun file => Job.mk file .waiting).map Job.file = files := by
    simp [Function.comp_def]
  simp only [start, expected, hfiles]

end Pool

/-! ### Reports -/

/-- The step at which the scan of a file fails: the file cannot be read, is not text, does not
parse, or the candidates cannot be told. -/
def failing? (store : Store) (root : Path) (functions : List (List Char)) (file : Path) :
    Option Category :=
  match store.readText (root.join file) with
  | .error (.store _) => some .fileAccess
  | .error (.notText _) => some .decoding
  | .ok text =>
      match Document.parse (some file.toString) text with
      | .error _ => some .parsing
      | .ok d =>
          match d.candidates file.toString.toList functions with
          | .error _ => some .other
          | .ok _ => none

def failingFiles (store : Store) (root : Path) (functions : List (List Char))
    (files : List Path) : List (Option String × Category) :=
  files.filterMap fun file =>
    (failing? store root functions file).map fun category => (some file.toString, category)

def candidatesIn (store : Store) (root : Path) (functions : List (List Char)) (file : Path) :
    List Candidate :=
  match store.readText (root.join file) with
  | .error _ => []
  | .ok text => (scanText text file.toString.toList functions).toOption.getD []

theorem failureOf?_scanFile (store : Store) (root : Path) (functions : List (List Char))
    (file : Path) :
    (failureOf? (scanFile store root functions) file).map (fun f => (f.path, f.category)) =
      (failing? store root functions file).map fun category => (some file.toString, category) := by
  unfold failureOf? failing? scanFile scanText
  cases hread : store.readText (root.join file) with
  | error f => cases f <;> simp [hread, Cause.failure]
  | ok text =>
      simp only [hread, String.ofList_toList]
      cases Document.parse (some file.toString) text with
      | error e => rfl
      | ok d =>
          simp only
          cases d.candidates file.toString.toList functions with
          | error f => rfl
          | ok cs => rfl

theorem candidatesOf_scanFile (store : Store) (root : Path) (functions : List (List Char))
    (file : Path) :
    candidatesOf (scanFile store root functions) file = candidatesIn store root functions file := by
  unfold candidatesOf candidatesIn scanFile
  cases hread : store.readText (root.join file) with
  | error f => cases f <;> simp [hread]
  | ok text =>
      simp only [hread]
      cases scanText text file.toString.toList functions with
      | error f => cases f <;> rfl
      | ok cs => rfl

theorem map_failures (store : Store) (root : Path) (functions : List (List Char))
    (files : List Path) :
    (files.filterMap (failureOf? (scanFile store root functions))).map
        (fun f => (f.path, f.category)) = failingFiles store root functions files := by
  rw [List.map_filterMap, failingFiles]
  congr 1
  funext file
  exact failureOf?_scanFile store root functions file

/-- The report on some files tells all candidates, and all files whose scan fails. -/
structure Report.Exact (store : Store) (functions : List (List Char)) (base : Path)
    (set : FileSet) (r : Report) : Prop where
  root : r.root = base
  filesScanned : r.filesScanned = set.files.length
  warnings : r.warnings = set.warnings
  candidates : r.candidates = set.files.flatMap (candidatesIn store base functions)
  failures :
    r.failures.map (fun f => (f.path, f.category)) = failingFiles store base functions set.files

/-- What a scan comes to, in the terms of a single worker. -/
theorem scanVia_eq (schedule : Pool.Schedule) (w : Workspace) (root : Path) (o : Options) :
    scanVia schedule w root o =
      (do
        let home ← (w.expandHome root).mapError .home
        let root ← (w.locate home).mapError fun f => .files (.refused f home)
        let set ← (files w.store root o.extensions o.ignore o.directories).mapError .files
        let (candidates, failures) ←
          (gather (scanFile w.store root o.functions) (.start o.maxFailures) [] set.files).mapError
            .aborted
        return ⟨root, candidates, set.files.length, failures, set.warnings⟩) := by
  simp only [scanVia, Pool.answer_run schedule (Pool.sound_start _ _ _), Pool.expected_start]

/-- A scan is given up exactly if there is a limit and as many files as it says fail, one at
least. Otherwise its report is exact. Neither the number of workers nor their schedule matters. -/
theorem scanVia_exact (schedule : Pool.Schedule) (w : Workspace) (root : Path) (o : Options) :
    (match w.expandHome root with
      | .error u => scanVia schedule w root o = .error (.home u)
      | .ok home =>
          match w.locate home with
          | .error f => scanVia schedule w root o = .error (.files (.refused f home))
          | .ok base =>
              match files w.store base o.extensions o.ignore o.directories with
              | .error e => scanVia schedule w root o = .error (.files e)
              | .ok set =>
                  let failing := failingFiles w.store base o.functions set.files
                  (LimitReached o.maxFailures failing.length ∧
                      ∃ a, scanVia schedule w root o = .error (.aborted a)) ∨
                    (¬ LimitReached o.maxFailures failing.length ∧
                      ∃ r, scanVia schedule w root o = .ok r ∧
                        r.Exact w.store o.functions base set)) ∧
      ∀ (other : Pool.Schedule) (workers : Int),
        scanVia other w root { o with workers } = scanVia schedule w root o := by
  refine ⟨?_, fun other workers => by simp only [scanVia_eq]⟩
  rw [scanVia_eq]
  cases w.expandHome root with
  | error u => rfl
  | ok home =>
      simp only [mapError_ok, bind, Except.bind]
      cases w.locate home with
      | error f => rfl
      | ok base =>
          simp only [mapError_ok]
          cases files w.store base o.extensions o.ignore o.directories with
          | error e => rfl
          | ok set =>
              simp only [mapError_ok, ← map_failures, List.length_map]
              by_cases hreached : LimitReached o.maxFailures (set.files.filterMap
                  (failureOf? (scanFile w.store base o.functions))).length
              · obtain ⟨a, ha⟩ := gather_start_of_reached hreached
                exact Or.inl ⟨hreached, a, by simp only [ha, mapError_error]⟩
              · refine Or.inr ⟨hreached, ?_⟩
                simp only [gather_start_of_not_reached hreached, mapError_ok]
                refine ⟨_, rfl, rfl, rfl, rfl, ?_, map_failures _ _ _ _⟩
                exact congrArg (set.files.flatMap ·)
                  (funext fun file => candidatesOf_scanFile _ _ _ file)

end Phrasebook.Project

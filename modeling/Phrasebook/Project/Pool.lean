import Phrasebook.Project.Failure

/-!
Workers. Every file is a job. Workers take the jobs in order, as many at a time as there are
workers, and may finish them in any order. The results are collected in the order of the files.
When there is one failure too many the jobs that no worker has taken are cancelled, and those that
are running come to their end.
-/

namespace Phrasebook.Project

open Source

/-- What the scan of a file gave. -/
abbrev Outcome := Except Cause (List Candidate)

inductive Stage where
  | waiting
  | running
  | done (o : Outcome)
  | cancelled

structure Job where
  file : Path
  stage : Stage

namespace Job

def isWaiting (j : Job) : Bool :=
  match j.stage with
  | .waiting => true
  | _ => false

def isRunning (j : Job) : Bool :=
  match j.stage with
  | .running => true
  | _ => false

/-- A job taken by a worker, or finished by the worker that has it. -/
def advance (work : Path → Outcome) (j : Job) : Job :=
  match j.stage with
  | .waiting => { j with stage := .running }
  | .running => { j with stage := .done (work j.file) }
  | _ => j

def cancel (j : Job) : Job :=
  match j.stage with
  | .waiting => { j with stage := .cancelled }
  | _ => j

/-- The steps that a job has before it. -/
def weight (j : Job) : Nat :=
  match j.stage with
  | .waiting => 3
  | .running => 2
  | .done _ => 1
  | .cancelled => 0

theorem weight_advance_lt {j : Job} (h : j.isWaiting ∨ j.isRunning) (work : Path → Outcome) :
    (j.advance work).weight < j.weight := by
  obtain ⟨file, stage⟩ := j
  cases stage <;> simp_all [isWaiting, isRunning, advance, weight]

theorem weight_cancel_le (j : Job) : j.cancel.weight ≤ j.weight := by
  obtain ⟨file, stage⟩ := j
  cases stage <;> simp [cancel, weight]

end Job

/-- The jobs that are not collected yet, and what was collected. -/
structure Pool where
  workers : Nat
  jobs : List Job
  log : FailureLog
  candidates : List Candidate
  aborted : Option Aborted

/-- What may happen next: the first job is collected, or a job advances. -/
inductive Turn where
  | collect
  | advance (i : Nat)
  deriving DecidableEq, Repr

namespace Pool

/-- All jobs wait. There is always a worker. -/
def start (workers : Int) (limit : Option Int) (files : List Path) : Pool :=
  ⟨(max 1 workers).toNat, files.map fun file => ⟨file, .waiting⟩, .start limit, [], none⟩

def running (p : Pool) : Nat := p.jobs.countP Job.isRunning

def mayCollect (p : Pool) : Bool :=
  match p.aborted, p.jobs with
  | none, ⟨_, .done _⟩ :: _ => true
  | _, _ => false

/-- A job may start if it is the first that waits and a worker is free. -/
def mayStart (p : Pool) : Bool := p.jobs.any Job.isWaiting && p.running < p.workers

/-- All that may happen next. -/
def turns (p : Pool) : List Turn :=
  (if p.mayCollect then [.collect] else []) ++
    (if p.mayStart then [.advance (p.jobs.findIdx Job.isWaiting)] else []) ++
    (p.jobs.zipIdx.filter fun j => j.1.isRunning).map fun j => .advance j.2

/-- Collects the result of a file. -/
def collect (p : Pool) (file : Path) (rest : List Job) : Outcome → Pool
  | .ok cs => { p with jobs := rest, candidates := p.candidates ++ cs }
  | .error cause =>
      match p.log.record? (cause.failure file.toString) with
      | .ok log => { p with jobs := rest, log := log }
      | .error a => { p with jobs := rest.map Job.cancel, aborted := some a }

def take (work : Path → Outcome) (p : Pool) : Turn → Pool
  | .collect =>
      match p.jobs with
      | ⟨file, .done o⟩ :: rest => p.collect file rest o
      | _ => p
  | .advance i => { p with jobs := p.jobs.modify i (Job.advance work) }

/-! ### Every turn leaves less to do -/

def weight (p : Pool) : Nat := addUp (p.jobs.map Job.weight)

theorem addUp_modify_lt {jobs : List Job} {i : Nat} {j : Job} (hj : jobs[i]? = some j)
    {f : Job → Job} (hf : (f j).weight < j.weight) :
    addUp ((jobs.modify i f).map Job.weight) < addUp (jobs.map Job.weight) := by
  induction jobs generalizing i with
  | nil => simp at hj
  | cons first jobs ih =>
      cases i with
      | zero =>
          obtain rfl := Option.some.inj hj
          simpa [addUp_cons] using hf
      | succ i =>
          have hrest := ih (i := i) hj
          simpa [addUp_cons] using hrest

theorem addUp_cancel_le (jobs : List Job) :
    addUp ((jobs.map Job.cancel).map Job.weight) ≤ addUp (jobs.map Job.weight) := by
  induction jobs with
  | nil => simp
  | cons j jobs ih =>
      have hj := j.weight_cancel_le
      simp only [List.map_cons, addUp_cons]
      omega

theorem weight_collect_le (p : Pool) (file : Path) (rest : List Job) (o : Outcome) :
    (p.collect file rest o).weight ≤ addUp (rest.map Job.weight) := by
  unfold collect
  split
  · exact Nat.le_refl _
  · split
    · exact Nat.le_refl _
    · exact addUp_cancel_le rest

/-- The job that a turn advances waits or is running. -/
theorem mem_turns_advance {p : Pool} {i : Nat} (h : .advance i ∈ p.turns) :
    ∃ j, p.jobs[i]? = some j ∧ (j.isWaiting ∨ j.isRunning) := by
  rw [turns, List.mem_append, List.mem_append] at h
  rcases h with (h | h) | h
  · split at h <;> simp at h
  · split at h
    · next hstart =>
      obtain rfl := Turn.advance.inj (List.mem_singleton.1 h)
      have hany : ∃ j ∈ p.jobs, j.isWaiting = true := by
        rw [mayStart, Bool.and_eq_true] at hstart
        exact List.any_eq_true.1 hstart.1
      have hlt := List.findIdx_lt_length.2 hany
      exact ⟨_, List.getElem?_eq_getElem hlt, Or.inl (List.findIdx_getElem (w := hlt))⟩
    · simp at h
  · obtain ⟨⟨j, k⟩, hj, hk⟩ := List.mem_map.1 h
    obtain rfl := Turn.advance.inj hk
    obtain ⟨hmem, hrunning⟩ := List.mem_filter.1 hj
    exact ⟨j, List.mem_zipIdx_iff_getElem?.1 hmem, Or.inr hrunning⟩

theorem mem_turns_collect {p : Pool} (h : .collect ∈ p.turns) :
    p.aborted = none ∧ ∃ file o rest, p.jobs = ⟨file, .done o⟩ :: rest := by
  have hmay : p.mayCollect = true := by
    cases hmay : p.mayCollect with
    | true => rfl
    | false =>
        exfalso
        simp only [turns, hmay, Bool.false_eq_true, if_false, List.nil_append] at h
        split at h <;> simp at h
  unfold mayCollect at hmay
  split at hmay
  · next hnone hjobs => exact ⟨hnone, _, _, _, hjobs⟩
  · cases hmay

theorem weight_take_lt {p : Pool} {turn : Turn} (h : turn ∈ p.turns) (work : Path → Outcome) :
    (p.take work turn).weight < p.weight := by
  cases turn with
  | collect =>
      obtain ⟨-, file, o, rest, hjobs⟩ := mem_turns_collect h
      have hle := p.weight_collect_le file rest o
      simp only [take, hjobs, weight, List.map_cons, addUp_cons, Job.weight] at hle ⊢
      omega
  | advance i =>
      obtain ⟨j, hj, hstage⟩ := mem_turns_advance h
      exact addUp_modify_lt hj (Job.weight_advance_lt hstage work)

/-! ### Runs -/

/-- Which of the things that may happen next does happen. -/
abbrev Schedule := Pool → Nat

/-- Goes on until nothing is left to happen. -/
def run (work : Path → Outcome) (schedule : Schedule) (p : Pool) : Pool :=
  if h : p.turns = [] then p
  else
    run work schedule (p.take work (p.turns.get
      ⟨schedule p % p.turns.length, Nat.mod_lt _ (List.length_pos_iff.2 h)⟩))
termination_by p.weight
decreasing_by exact weight_take_lt (List.get_mem _ _) work

/-- What the scan of all files comes to. -/
def answer (p : Pool) : Except Aborted (List Candidate × List Failure) :=
  match p.aborted with
  | some a => .error a
  | none => .ok (p.candidates, p.log.records)

end Pool

end Phrasebook.Project

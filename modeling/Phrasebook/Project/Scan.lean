import Phrasebook.Project.Files
import Phrasebook.Project.Pool

/-!
Scans. The files of a project are scanned by a pool of workers; their candidates and failures are
reported in the order of the files.
-/

namespace Phrasebook.Project

open Text

structure Options where
  extensions : List (List Char)
  ignore : List (List Char)
  directories : List (List Char)
  functions : List (List Char)
  maxFailures : Option Int
  workers : Int := 4
  deriving DecidableEq, Repr

def defaultExtensions : List (List Char) :=
  [".tsx".toList, ".jsx".toList, ".ts".toList, ".js".toList]

def Options.default : Options := ⟨defaultExtensions, [], [], defaultFunctions, none, 4⟩

structure Report where
  root : Path
  candidates : List Candidate
  filesScanned : Nat
  failures : List Failure
  warnings : List Warning

def Report.localizedCount (r : Report) : Nat := r.candidates.countP (·.localized)

/-- Why there is no report. -/
inductive ScanError where
  | home (u : Workspace.UnknownHome)
  | files (e : FilesError)
  | aborted (a : Aborted)
  deriving DecidableEq, Repr

/-- The candidates of one file, by its path from the root on. -/
def scanFile (store : Store) (root : Path) (functions : List (List Char)) (file : Path) :
    Outcome :=
  let path := root.join file
  match store.readText path with
  | .error (.store f) => .error (.unreadable f path)
  | .error (.notText f) => .error (.notText f)
  | .ok text =>
      match scanText text file.toString.toList functions with
      | .ok cs => .ok cs
      | .error (.malformed e) => .error (.malformed e)
      | .error (.candidate f) => .error (.candidate f)

/-- Scans a project, the workers taking turns as scheduled. -/
def scanVia (schedule : Pool.Schedule) (w : Workspace) (root : Path) (o : Options) :
    Except ScanError Report := do
  let home ← (w.expandHome root).mapError .home
  let root ← (w.locate home).mapError fun f => .files (.refused f home)
  let set ← (files w.store root o.extensions o.ignore o.directories).mapError .files
  let pool := Pool.start o.workers o.maxFailures set.files
  let ended := pool.run (scanFile w.store root o.functions) schedule
  let (candidates, failures) ← ended.answer.mapError .aborted
  return ⟨root, candidates, set.files.length, failures, set.warnings⟩

/-- Scans a project. Whatever can be collected is collected first, and workers never idle. -/
def scan (w : Workspace) (root : Path) (o : Options) : Except ScanError Report :=
  scanVia (fun _ => 0) w root o

end Phrasebook.Project

import Phrasebook.Candidate
import Phrasebook.Store

/-!
Files that could not be scanned. Each leaves a record, and a log of records may have a limit at
which the scan is given up.
-/

namespace Phrasebook.Project

open Text

inductive Category where
  | fileAccess
  | decoding
  | parsing
  | other
  deriving DecidableEq, Repr

structure Failure where
  category : Category
  message : String
  path : Option String
  details : Option String
  deriving DecidableEq, Repr

/-- The line that a failure leaves in the log. -/
def Failure.notice (f : Failure) : String :=
  let place := match f.path with
    | none | some "" => "unknown file"
    | some path => path
  s!"{f.message} ({place})"

/-! ### The limit -/

structure FailureLog where
  limit : Option Int
  records : List Failure
  deriving DecidableEq, Repr

/-- A scan that was given up after so many failures. -/
structure Aborted where
  total : Nat
  limit : Int
  deriving DecidableEq, Repr

def Aborted.message (a : Aborted) : String :=
  s!"{a.total} file(s) could not be scanned; " ++
    s!"stopping after reaching the limit of {a.limit}."

namespace FailureLog

def start (limit : Option Int) : FailureLog := ⟨limit, []⟩

def total (log : FailureLog) : Nat := log.records.length

/-- Why the scan has to stop, if it has to. -/
def aborted? (log : FailureLog) : Option Aborted :=
  match log.limit with
  | some limit => if limit ≤ log.total then some ⟨log.total, limit⟩ else none
  | none => none

def add (log : FailureLog) (f : Failure) : FailureLog := { log with records := log.records ++ [f] }

/-- The log after one more failure, unless that was one too many. -/
def record? (log : FailureLog) (f : Failure) : Except Aborted FailureLog :=
  match (log.add f).aborted? with
  | some a => .error a
  | none => .ok (log.add f)

end FailureLog

/-! ### Causes -/

/-- Why a file could not be scanned. -/
inductive Cause where
  | unreadable (f : Store.Fault) (path : Path)
  | notText (f : Utf8.Fault)
  | malformed (e : Source.SyntaxError)
  | candidate (f : Candidate.Fault)
  deriving DecidableEq, Repr

/-- What is wrong with a text that holds surrogates. -/
def surrogateMessage (payload : Points) (start count : Nat) : String :=
  let place :=
    if count == 1 then
      let code := ((payload[start]?).map fun p => String.ofList (Quoted.escaped p.val)).getD ""
      s!"character '{code}' in position {start}"
    else s!"characters in position {start}-{start + count - 1}"
  s!"'utf-8' codec can't encode {place}: surrogates not allowed"

/-- The message and the full form of an unusual failure. -/
def unusual : Candidate.Fault → String × String
  | .escape f =>
      let kind := match f with
        | .outOfRange => "ValueError"
        | .overflow => "OverflowError"
      (f.message, s!"{kind}({shownString f.message})")
  | .surrogate payload start count =>
      (surrogateMessage payload start count,
        s!"UnicodeEncodeError('utf-8', {String.ofList (shown payload)}, {start}, " ++
          s!"{start + count}, 'surrogates not allowed')")

/-- The record of a file that could not be scanned. -/
def Cause.failure (file : String) : Cause → Failure
  | .unreadable f path =>
      ⟨.fileAccess, s!"Could not read {file}.", some file, some (f.message path)⟩
  | .notText f =>
      ⟨.decoding, s!"Could not decode {file} as UTF-8.", some file, some f.message⟩
  | .malformed e => ⟨.parsing, s!"Could not parse {file}: {e.message}", some file, none⟩
  | .candidate f =>
      ⟨.other, s!"Unexpected error while scanning {file}: {(unusual f).1}", some file,
        some (unusual f).2⟩

end Phrasebook.Project

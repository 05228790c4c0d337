import Phrasebook.Path
import Phrasebook.Text.Quoted
import Phrasebook.Text.Utf8
import Phrasebook.Tree

/-!
The store of source files: a tree of directories with files at its leaves. A file is replaced as
a whole or not at all, and replacing it touches nothing else.
-/

namespace Phrasebook

open Text

/-- What stands at a leaf: a file, or a link that leads nowhere. A link is listed like a file,
but there is nothing to read behind it. -/
inductive Content where
  | file (bytes : Utf8.Bytes)
  | dangling
  deriving DecidableEq, Repr

abbrev Entry := Tree String Content

structure Store where
  /-- What is in the root directory. -/
  root : Table String Entry

namespace Store

inductive Fault where
  | missing
  | notDirectory
  | isDirectory
  /-- The place of a directory cannot be taken through its own double dot. -/
  | busy
  | tooLong
  | embeddedNull
  deriving DecidableEq, Repr

namespace Fault

/-- The number that the system gives a fault. Null characters do not get that far. -/
def number? : Fault → Option Nat
  | missing => some 2
  | busy => some 16
  | notDirectory => some 20
  | isDirectory => some 21
  | tooLong => some 36
  | embeddedNull => none

def description : Fault → String
  | missing => "No such file or directory"
  | notDirectory => "Not a directory"
  | isDirectory => "Is a directory"
  | busy => "Device or resource busy"
  | tooLong => "File name too long"
  | embeddedNull => "embedded null byte"

def message (f : Fault) (p : Path) : String :=
  match f.number? with
  | some number => s!"[Errno {number}] {f.description}: {shownString p.toString}"
  | none => f.description

/-- The fault that is told of a path. What is wrong with the path as a whole comes first. -/
def told (f : Fault) (p : Path) : Fault :=
  if p.hasNull then embeddedNull else if 4095 < p.toString.utf8ByteSize then tooLong else f

end Fault

def empty : Store := ⟨[]⟩

/-! ### Finding entries -/

/-- The entry under a path without double dots. -/
def entry? (s : Store) (parts : List String) : Option Entry := Tree.get? parts (.branch s.root)

/-- Why nothing stands at a place in a directory. -/
def absence (place : List String) : Fault :=
  if place.getLast?.any fun name => 255 < name.utf8ByteSize then .tooLong else .missing

/-- Follows a path from a directory on, name by name. Only a directory can be gone through. -/
def follow (s : Store) (here : List String) : List String → Except Fault (List String)
  | [] => .ok here
  | name :: rest =>
      match s.entry? here with
      | none => .error (absence here)
      | some (.leaf .dangling) => .error .missing
      | some (.leaf (.file _)) => .error .notDirectory
      | some (.branch _) => s.follow (if name == ".." then here.dropLast else here ++ [name]) rest

/-- What stands where names lead from a directory on. -/
def lookUp (s : Store) (here names : List String) : Except Fault Entry := do
  let place ← s.follow here names
  match s.entry? place with
  | none => throw (absence place)
  | some (.leaf .dangling) => throw .missing
  | some e => return e

/-- What stands at the end of a path. -/
def find (s : Store) (p : Path) : Except Fault Entry :=
  (s.lookUp [] p.parts).mapError (·.told p)

/-- Whether a path is too long to be looked up. -/
def refuses (s : Store) (p : Path) : Bool :=
  match s.find p with
  | .error .tooLong => true
  | _ => false

def isDirectory (s : Store) (p : Path) : Bool :=
  match s.find p with
  | .ok (.branch _) => true
  | _ => false

/-- The names in a directory. -/
def children (s : Store) (p : Path) : Table String Entry :=
  match s.find p with
  | .ok e => e.children
  | .error _ => []

/-- All files with the names that lead to them. -/
def files (s : Store) : List (List String × Content) := Tree.leaves (.branch s.root)

/-! ### Reading and writing -/

def read (s : Store) (p : Path) : Except Fault Utf8.Bytes := do
  match ← s.find p with
  | .leaf (.file bytes) => return bytes
  | .leaf .dangling => throw .missing
  | .branch _ => throw .isDirectory

inductive ReadFault where
  | store (f : Fault)
  | notText (f : Utf8.Fault)
  deriving DecidableEq, Repr

/-- The text of a file, line ends as they are. -/
def readText (s : Store) (p : Path) : Except ReadFault (List Char) :=
  match s.read p with
  | .error f => .error (.store f)
  | .ok bytes => (Utf8.decode bytes).mapError .notText

/-- Puts an entry at a path, directories on the way included. -/
def place (s : Store) (parts : List String) (e : Entry) : Store :=
  ⟨(Tree.graft e parts (.branch s.root)).children⟩

/-- Takes the entry at a path away. -/
def remove (s : Store) (parts : List String) : Store :=
  ⟨(Tree.prune parts (.branch s.root)).children⟩

/-- Puts an entry at a path unless there is one. -/
def placeNew (s : Store) (parts : List String) (e : Entry) : Store :=
  if (s.entry? parts).isSome then s else s.place parts e

inductive WriteFault where
  | store (f : Fault)
  /-- The text holds half of a surrogate pair, which no file can. -/
  | unencodable
  deriving DecidableEq, Repr

/-- Whether a new file can have this path. A temporary file beside it, whose name is longer by
fourteen bytes, comes first. -/
def leavesRoom (p : Path) : Bool :=
  !p.hasNull && (String.ofList p.name).utf8ByteSize + 14 ≤ 255 &&
    p.toString.utf8ByteSize + 14 ≤ 4095

/-- The directory that a path lies in, without double dots, if the path can be that of a file
there. -/
def roomFor (s : Store) (p : Path) : Except Fault (List String) := do
  let directory ← s.follow [] p.parent.parts
  match s.entry? directory with
  | none => throw (absence directory)
  | some (.leaf .dangling) => throw .missing
  | some (.leaf (.file _)) => throw .notDirectory
  | some (.branch _) =>
      if (s.entry? (directory ++ [String.ofList p.name])).isSome || leavesRoom p then
        return directory
      else throw .tooLong

def directoryOf (s : Store) (p : Path) : Except Fault (List String) :=
  (s.roomFor p).mapError (·.told p)

/-- The place that a file with this path takes. Directories keep theirs. -/
def placeFor (s : Store) (directory : List String) : Option String → Except Fault (List String)
  | none | some ".." => .error .busy
  | some name =>
      match s.entry? (directory ++ [name]) with
      | some (.branch _) => .error .isDirectory
      | _ => .ok (directory ++ [name])

/-- Moves a file to a name in a directory, in place of the file of that name if there is one. -/
def rename (s : Store) (source directory : List String) (name : Option String) :
    Except Fault Store := do
  let target ← s.placeFor directory name
  match s.entry? source with
  | some e => return (s.remove source).place target e
  | none => throw .missing

/-! ### Temporary files -/

/-- A way to name temporary files: beside any file, a name that is free. -/
structure Scratch where
  name : Store → List String → String → String
  free : ∀ (s : Store) directory base, s.entry? (directory ++ [name s directory base]) = none

/-- The names in a directory without double dots. -/
def namesIn (s : Store) (directory : List String) : List String :=
  ((s.entry? directory).map fun e => e.children.map Prod.fst).getD []

/-- A name longer than all those in a directory. -/
def longName (s : Store) (directory : List String) (base : String) : String :=
  let longest := ((s.namesIn directory).map String.length).foldl max 0
  s!".{base}." ++ String.ofList (List.replicate longest '0') ++ ".tmp"

theorem le_foldl_max {n : Nat} {l : List Nat} {start : Nat} (h : n ≤ start ∨ n ∈ l) :
    n ≤ l.foldl max start := by
  induction l generalizing start with
  | nil => simpa using h
  | cons m l ih =>
      refine ih ?_
      rcases h with h | h
      · exact Or.inl (Nat.le_trans h (Nat.le_max_left _ _))
      · rcases List.mem_cons.1 h with rfl | h
        · exact Or.inl (Nat.le_max_right _ _)
        · exact Or.inr h

theorem longName_not_mem (s : Store) (directory : List String) (base : String) :
    s.longName directory base ∉ s.namesIn directory := by
  intro h
  have hmem := List.mem_map_of_mem (f := String.length) h
  have hle : _ ≤ ((s.namesIn directory).map String.length).foldl max 0 :=
    le_foldl_max (Or.inr hmem)
  have hlength : (s.longName directory base).length =
      base.length + ((s.namesIn directory).map String.length).foldl max 0 + 6 := by
    have hdot : ".".length = 1 := rfl
    have hend : ".tmp".length = 4 := rfl
    simp only [longName, String.length_append, String.length_ofList, List.length_replicate,
      toString, hdot, hend]
    omega
  omega

theorem entry?_concat (s : Store) (directory : List String) (name : String) :
    s.entry? (directory ++ [name]) =
      (s.entry? directory).bind fun e => e.children.get? name := by
  rw [Store.entry?, Store.entry?, Tree.get?_append]
  congr 1
  funext e
  simp only [Tree.get?]
  cases e.children.get? name <;> rfl

/-- Temporary files with the longest names. -/
def Scratch.longest : Scratch where
  name := longName
  free := by
    intro s directory base
    have hname := s.longName_not_mem directory base
    rw [entry?_concat]
    cases he : s.entry? directory with
    | none => rfl
    | some e =>
        rw [namesIn, he] at hname
        exact Table.get?_eq_none hname

/-- Gives a file a new text. The text is written to a temporary file beside it, which then takes
the place of the file; if either step fails the temporary file is taken away. -/
def writeVia (scratch : Scratch) (s : Store) (p : Path) (text : Points) :
    Except WriteFault Unit × Store :=
  match s.directoryOf p with
  | .error f => (.error (.store f), s)
  | .ok directory =>
      let temporary := directory ++ [scratch.name s directory (String.ofList p.name)]
      let reserved := s.place temporary (.leaf (.file []))
      match text.toChars? with
      | none => (.error .unencodable, reserved.remove temporary)
      | some cs =>
          let filled := reserved.place temporary (.leaf (.file (Utf8.encode cs)))
          match filled.rename temporary directory p.parts.getLast? with
          | .error f => (.error (.store f), filled.remove temporary)
          | .ok after => (.ok (), after)

def write (s : Store) (p : Path) (text : Points) : Except WriteFault Unit × Store :=
  s.writeVia .longest p text

/-! ### Sequences of steps -/

inductive Step where
  | read (p : Path)
  | write (p : Path) (text : Points)
  deriving DecidableEq, Repr

inductive Answer where
  | text (cs : List Char)
  | written
  | unread (f : ReadFault)
  | unwritten (f : WriteFault)
  deriving DecidableEq, Repr

/-- One step, with the store after it. -/
def step (s : Store) : Step → Answer × Store
  | .read p =>
      match s.readText p with
      | .ok cs => (.text cs, s)
      | .error f => (.unread f, s)
  | .write p text =>
      match s.write p text with
      | (.ok _, after) => (.written, after)
      | (.error f, after) => (.unwritten f, after)

end Store

end Phrasebook

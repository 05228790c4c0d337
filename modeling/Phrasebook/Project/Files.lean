import Phrasebook.Project.Ignore
import Phrasebook.Text.LowerCase
import Phrasebook.Workspace

/-!
The files of a project: those below its root, or below some of its directories, that have one of
the wanted extensions and are not ignored. Ignored directories are never gone into.
-/

namespace Phrasebook.Project

open Text

/-! ### Extensions -/

/-- An extension in lower case with a dot in front, or nothing for a blank one. -/
def extension? (raw : List Char) : Option (List Char) :=
  match lower (strip raw) with
  | [] => none
  | '.' :: rest => some ('.' :: rest)
  | text => some ('.' :: text)

/-- Extensions in plain form, each once. -/
def extensions (raw : List (List Char)) : List (List Char) := (raw.filterMap extension?).eraseDups

def hasExtension (extensions : List (List Char)) (name : String) : Bool :=
  let name := lower name.toList
  extensions.any fun e => e.isSuffixOf name

/-! ### Walking -/

structure Wanted where
  extensions : List (List Char)
  ignore : IgnoreList

mutual

/-- The wanted files at or below an entry whose path from the root of the project is `here`. -/
def Wanted.filesAt (w : Wanted) (here : Path) (name : String) : Entry → List Path
  | .leaf _ => if hasExtension w.extensions name && !w.ignore.hides here then [here] else []
  | .branch cs => if w.ignore.hides here then [] else filesBelow w here cs

def Wanted.filesBelow (w : Wanted) (here : Path) : List (String × Entry) → List Path
  | [] => []
  | (name, e) :: rest => filesAt w (here.child name) name e ++ filesBelow w here rest

end

/-! ### Directories to walk -/

inductive Warning where
  | outside (directory root : Path)
  | absent (directory : Path)
  deriving DecidableEq, Repr

def Warning.message : Warning → String
  | outside directory root =>
      s!"Include directory {directory.toString} is outside {root.toString}; skipping it."
  | absent directory =>
      s!"Include directory {directory.toString} does not exist; skipping it."

/-- Why the files of a project cannot be told. -/
inductive FilesError where
  | noRoot (root : Path)
  /-- A directory has a name that cannot be looked up. -/
  | refused (f : Store.Fault) (directory : Path)
  deriving DecidableEq, Repr

def FilesError.message : FilesError → String
  | noRoot root => s!"Scan root is not a directory: {root.toString}"
  | refused f directory => f.message directory

/-- The directory that an entry of the include list means, from the root on. It is passed over
with a warning if it is not there, but not if its name is impossible. -/
def includeDirectory (store : Store) (root : Path) (raw : List Char) :
    Except FilesError (Except Warning (List String)) :=
  let name := trimSlashes (slashed raw)
  let directory := if name.isEmpty then root else (root.join (.ofChars name)).normalize
  if name.contains '\x00' then .error (.refused .embeddedNull directory)
  else match root.relativeTo? directory with
    | none => .ok (.error (.outside directory root))
    | some parts =>
        if store.refuses directory then .error (.refused .tooLong directory)
        else if store.isDirectory directory then .ok (.ok parts)
        else .ok (.error (.absent directory))

structure FileSet where
  /-- Paths from the root of the project on. -/
  files : List Path
  warnings : List Warning
  deriving DecidableEq, Repr

/-- The directories to walk and what was wrong with those passed over. -/
def bases (store : Store) (root : Path) (directories : List (List Char)) :
    Except FilesError (List (List String) × List Warning) :=
  if directories.isEmpty then .ok ([[]], [])
  else do
    let found ← directories.mapM (includeDirectory store root)
    return ((found.filterMap Except.toOption).eraseDups,
      found.filterMap fun r => match r with | .error w => some w | .ok _ => none)

/-- The files of a project in order, each once. Without extensions there are none. -/
def files (store : Store) (root : Path) (raw ignore directories : List (List Char)) :
    Except FilesError FileSet :=
  if store.refuses root then .error (.refused .tooLong root)
  else if !store.isDirectory root then .error (.noRoot root)
  else
    let wanted : Wanted := ⟨extensions raw, .ofPatterns ignore⟩
    if wanted.extensions.isEmpty then .ok ⟨[], []⟩
    else do
      let (bases, warnings) ← bases store root directories
      let found := bases.flatMap fun parts =>
        wanted.filesBelow ⟨"", parts⟩ (store.children ⟨root.root, root.parts ++ parts⟩)
      return ⟨found.eraseDups.mergeSort Path.precedes, warnings⟩

end Phrasebook.Project

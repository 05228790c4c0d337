import Phrasebook.Target
import Phrasebook.Workspace

/-!
Patches. A patch puts the call that a target asks for in the place of a literal, makes sure of
its import and writes the file. If any step fails nothing is written.
-/

namespace Phrasebook

open Text Source

namespace Patch

inductive Fault where
  | lacks (r : Target.Requirement)
  | call (f : Call.Fault)
  | home (u : Workspace.UnknownHome)
  | unreadable (f : Store.Fault) (path : Path)
  | notText (path : Path)
  | malformed (e : SyntaxError) (path : Path)
  | escape (f : Escape.Fault)
  | stale (text : List Char) (line column : Int) (path : Path)
  | importKind (k : Target.UnknownKind)
  | edit (f : Edit.Fault)
  | unwritable (f : Store.WriteFault) (path : Path)
  deriving DecidableEq, Repr

def Fault.message : Fault → String
  | lacks r => r.message
  | call f => f.message
  | home _ => "Could not determine home directory."
  | unreadable f path => f.message path
  | notText path => s!"{path.toString} is not valid UTF-8 text."
  | malformed e _ => e.message
  | escape f => f.message
  | stale text line column path =>
      s!"Unable to locate '{String.ofList text}' at line {line}, column {column} of " ++
        s!"{path.toString}. Try rescanning to refresh line numbers."
  | importKind k => k.message
  | edit f => f.message
  | unwritable (.store f) path => f.message path
  | unwritable .unencodable _ => "surrogates not allowed"

/-- A file before and after a patch. -/
structure Rendering where
  path : Path
  before : List Char
  after : List Char
  importChanged : Bool
  deriving DecidableEq, Repr

/-- The file that a target means. An absolute path is taken as it is. -/
def locateFile (w : Workspace) (root : Option Path) (filePath : List Char) :
    Except Fault Path := do
  let path ← (w.expandHome (.ofChars filePath)).mapError .home
  let found :=
    if path.isAbsolute then Workspace.named path
    else match root with
      | none => w.locate path
      | some root => w.locate (root.join path)
  found.mapError (.unreadable · path)

/-- The edits of a target in a document. -/
def edits (d : Document) (path : Path) (t : Target) (call : List Char) :
    Except Fault (List Edit × Bool) := do
  match ← (d.locate t.text t.line t.column).mapError .escape with
  | none => throw (.stale (strip t.text) t.line t.column path)
  | some l =>
      match ← t.binding.mapError .importKind with
      | none => return ([Edit.ofLiteral l call], false)
      | some b =>
          match ← (d.ensureImport b).mapError .escape with
          | none => return ([Edit.ofLiteral l call], false)
          | some e => return ([Edit.ofLiteral l call, e], true)

/-- Patches a text. -/
def renderText (parse : Parser) (path : Path) (text : List Char) (t : Target) (call : List Char) :
    Except Fault Rendering := do
  match parse (some path.toString) text with
  | .error e => throw (.malformed e path)
  | .ok d =>
      let (edits, importChanged) ← edits d path t call
      let after ← (Edit.apply text edits).mapError .edit
      return ⟨path, text, after, importChanged⟩

/-- Works out a patch without writing it. -/
def renderBy (parse : Parser) (w : Workspace) (root : Option Path) (t : Target) :
    Except Fault Rendering := do
  let root ← (root.mapM w.expandHome).mapError .home
  match t.lacks? with
  | some r => throw (.lacks r)
  | none =>
      let call ← (Call.render t.functionName (strip t.key)).mapError .call
      let path ← locateFile w root t.filePath
      match w.store.readText path with
      | .error (.store f) => throw (.unreadable f path)
      | .error (.notText _) => throw (.notText path)
      | .ok text => renderText parse path text t call

def render (w : Workspace) (root : Option Path) (t : Target) : Except Fault Rendering :=
  renderBy Document.parse w root t

/-- Makes a patch, with the store after it. -/
def applyVia (scratch : Store.Scratch) (w : Workspace) (root : Option Path) (t : Target) :
    Except Fault Rendering × Store :=
  match render w root t with
  | .error f => (.error f, w.store)
  | .ok r =>
      match w.store.writeVia scratch r.path (.ofChars r.after) with
      | (.error f, store) => (.error (.unwritable f r.path), store)
      | (.ok _, store) => (.ok r, store)

def apply (w : Workspace) (root : Option Path) (t : Target) : Except Fault Rendering × Store :=
  applyVia .longest w root t

end Patch

end Phrasebook

import Phrasebook.Call
import Phrasebook.Import
import Phrasebook.Text.Quoted

/-!
Targets: requests to put a translation call in the place of one text of one file.
-/

namespace Phrasebook

open Text

structure Target where
  filePath : List Char
  text : List Char
  line : Int
  column : Int
  key : List Char
  functionName : List Char
  importSource : Option (List Char)
  /-- The kind of import by its name, which is looked at only when an import is asked for. -/
  importKind : List Char
  skipImport : Bool
  deriving DecidableEq, Repr

namespace Target

/-- What a target cannot do without. -/
inductive Requirement where
  | filePath
  | key
  | functionName
  | text
  deriving DecidableEq, Repr

def Requirement.message : Requirement → String
  | filePath => "File path is required."
  | key => "Translation key is required."
  | functionName => "Translation function name is required."
  | text => "Target text is required."

/-- The first requirement that is not met. -/
def lacks? (t : Target) : Option Requirement :=
  if isBlankText t.filePath then some .filePath
  else if isBlankText t.key then some .key
  else if isBlankText t.functionName then some .functionName
  else if isBlankText t.text then some .text
  else none

/-- A kind of import that does not exist. -/
structure UnknownKind where
  name : List Char
  deriving DecidableEq, Repr

def UnknownKind.message (k : UnknownKind) : String :=
  s!"{shownChars k.name} is not a valid ImportKind"

/-- The import that a target asks for, if any. -/
def binding (t : Target) : Except UnknownKind (Option ImportBinding) :=
  let source := strip (t.importSource.getD [])
  let symbol := strip ((Path.splitAt '.' t.functionName).headD [])
  if t.skipImport || source.isEmpty || symbol.isEmpty then .ok none
  else match ImportKind.ofString? (String.ofList t.importKind) with
    | some kind => .ok (some ⟨source, symbol, kind⟩)
    | none => .error ⟨t.importKind⟩

end Target

end Phrasebook

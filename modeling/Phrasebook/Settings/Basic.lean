import Phrasebook.Import
import Phrasebook.Project.Scan

/-!
The settings of a project, their defaults, and the places that a setting can come from.
-/

namespace Phrasebook

structure Settings where
  extensions : List (List Char)
  ignore : List (List Char)
  includeDirs : List (List Char)
  translationFunctions : List (List Char)
  /-- The namespace of keys when no file gives one. -/
  keyNamespace : List Char
  functionName : List Char
  importSource : Option (List Char)
  importKind : ImportKind
  workers : Int
  maxFailures : Option Int
  deriving DecidableEq, Repr

namespace Settings

def default : Settings where
  extensions := Project.defaultExtensions
  ignore :=
    ["node_modules", ".git", ".cache", "dist", "build", ".next", "coverage"].map String.toList
  includeDirs := []
  translationFunctions := defaultFunctions
  keyNamespace := "ui".toList
  functionName := "t".toList
  importSource := none
  importKind := .named
  workers := 4
  maxFailures := none

/-- The names of all settings, in order. -/
def fieldNames : List String :=
  ["extensions", "ignore", "include_dirs", "translation_functions", "namespace", "function_name",
    "import_source", "import_kind", "workers", "max_failures"]

/-- Where a setting comes from. -/
inductive Source where
  | file (path : Path)
  | envFile
  | process
  | default
  deriving DecidableEq, Repr

def Source.name : Source → String
  | file path => s!"file:{path.toString}"
  | envFile => "env:.env"
  | process => "env:process"
  | default => "default"

end Settings

end Phrasebook

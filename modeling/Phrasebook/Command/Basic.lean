import Phrasebook.Command.Switch
import Phrasebook.Import
import Phrasebook.Text.Space

/-!
The commands of the program and the arguments that call for them.
-/

namespace Phrasebook

open Text

structure ScanCommand where
  root : List Char
  extensions : Option (List (List Char))
  ignore : Option (List (List Char))
  directories : Option (List (List Char))
  keyNamespace : Option (List Char)
  workers : Option Int
  maxFailures : Option Int
  hideLocalized : Bool
  json : Bool
  deriving DecidableEq, Repr

structure WrapCommand where
  file : List Char
  line : Int
  column : Int
  text : List Char
  key : List Char
  functionName : Option (List Char)
  importSource : Option (List Char)
  importKind : Option ImportKind
  skipImport : Bool
  projectRoot : Option (List Char)
  dryRun : Bool
  deriving DecidableEq, Repr

structure SuggestCommand where
  text : List Char
  keyNamespace : Option (List Char)
  file : Option (List Char)
  deriving DecidableEq, Repr

inductive Command where
  | scan (c : ScanCommand)
  | wrap (c : WrapCommand)
  | suggest (c : SuggestCommand)
  | config
  deriving DecidableEq, Repr

namespace Command

/-! ### Usage -/

def flag (label : String) (names : List String) : Switch := ⟨label, names.map String.toList, false⟩

def option (label : String) (names : List String) : Switch := ⟨label, names.map String.toList, true⟩

def help : Switch := flag "help" ["-h", "--help"]

def programUsage : Usage := ⟨[help, flag "verbose" ["-v", "--verbose"]], 0⟩

def scanUsage : Usage where
  switches := [
    help,
    option "extension" ["-e", "--extension"],
    option "ignore" ["-i", "--ignore"],
    option "directory" ["-d", "--directory"],
    option "namespace" ["-n", "--namespace"],
    option "workers" ["--workers"],
    option "max-failures" ["--max-failures"],
    flag "no-localized" ["--no-localized"],
    flag "json" ["--json"]]
  words := 1

def wrapUsage : Usage where
  switches := [
    help,
    option "line" ["--line"],
    option "column" ["--column"],
    option "text" ["--text"],
    option "key" ["--key"],
    option "function" ["-f", "--function"],
    option "import-source" ["--import-source"],
    option "import-kind" ["--import-kind"],
    flag "skip-import" ["--skip-import"],
    option "project-root" ["--project-root"],
    flag "dry-run" ["--dry-run"]]
  words := 1

def suggestUsage : Usage where
  switches := [help, option "namespace" ["-n", "--namespace"], option "file" ["--file"]]
  words := 1

def configUsage : Usage := ⟨[help], 0⟩

/-! ### Values -/

/-- An integer, with blanks around it and a sign in front. -/
def integer (text : List Char) : Except Refusal Int :=
  let number := match strip text with
    | '-' :: rest => (decimalNumber? rest).map fun n => -(n : Int)
    | '+' :: rest => (decimalNumber? rest).map fun n => (n : Int)
    | rest => (decimalNumber? rest).map fun n => (n : Int)
  number.elim (.error .unclear) .ok

def kind (text : List Char) : Except Refusal ImportKind :=
  (ImportKind.ofString? (String.ofList text)).elim (.error .unclear) .ok

/-- The last of the values of a switch. All of them have to be right. -/
def checked {α : Type} (g : Given) (label : String) (check : List Char → Except Refusal α) :
    Except Refusal (Option α) := do
  return (← ((g.values? label).getD []).mapM check).getLast?

def required {α : Type} : Option α → Except Refusal α
  | some a => .ok a
  | none => .error .unclear

/-! ### Reading -/

def readScan (arguments : List (List Char)) : Except Refusal ScanCommand := do
  let g ← scanUsage.read arguments
  let workers ← checked g "workers" integer
  let maxFailures ← checked g "max-failures" integer
  return {
    root := g.words.headD []
    extensions := g.values? "extension"
    ignore := g.values? "ignore"
    directories := g.values? "directory"
    keyNamespace := g.value? "namespace"
    workers, maxFailures
    hideLocalized := g.has "no-localized"
    json := g.has "json" }

def readWrap (arguments : List (List Char)) : Except Refusal WrapCommand := do
  let g ← wrapUsage.read arguments
  let importKind ← checked g "import-kind" kind
  return {
    file := g.words.headD []
    line := ← required (← checked g "line" integer)
    column := ← required (← checked g "column" integer)
    text := ← required (g.value? "text")
    key := ← required (g.value? "key")
    functionName := g.value? "function"
    importSource := g.value? "import-source"
    importKind
    skipImport := g.has "skip-import"
    projectRoot := g.value? "project-root"
    dryRun := g.has "dry-run" }

def readSuggest (arguments : List (List Char)) : Except Refusal SuggestCommand := do
  let g ← suggestUsage.read arguments
  return ⟨g.words.headD [], g.value? "namespace", g.value? "file"⟩

/-- A command by its name and its arguments. -/
def readNamed (name : List Char) (arguments : List (List Char)) : Except Refusal Command :=
  match String.ofList name with
  | "scan" => (readScan arguments).map .scan
  | "wrap" => (readWrap arguments).map .wrap
  | "suggest" => (readSuggest arguments).map .suggest
  | "config" => (configUsage.read arguments).map fun _ => .config
  | _ => .error .unclear

/-- The command that arguments call for. Switches of the program itself come before its name. -/
def read : List (List Char) → Except Refusal Command
  | [] => .error .unclear
  | text :: rest => do
      match ← programUsage.argument text with
      | .plain name => readNamed name rest
      | .switch s name attached =>
          let _ ← Given.take programUsage .empty s name attached
          read rest
      | .hyphens | .unknown => throw .unclear

end Command

end Phrasebook

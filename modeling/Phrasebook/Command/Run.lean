import Phrasebook.Command.Basic
import Phrasebook.Diff
import Phrasebook.Key.Suggestion
import Phrasebook.Patch
import Phrasebook.Project.Scan
import Phrasebook.Settings.Layers

/-!
What the commands do and what they print.
-/

namespace Phrasebook.Command

open Text

/-- What goes wrong beyond what the program has an answer for. -/
inductive Crash where
  | settings (e : Settings.LoadError)
  | patch (f : Patch.Fault)
  | home (u : Workspace.UnknownHome)
  /-- A directory has a name that cannot be looked up. -/
  | refused (f : Store.Fault) (directory : Path)
  deriving DecidableEq, Repr

/-- How a scan is shown. -/
structure View where
  /-- The namespace of keys when the file gives none. -/
  keyNamespace : List Char
  hideLocalized : Bool
  json : Bool
  deriving DecidableEq, Repr

inductive Outcome where
  | refused (r : Refusal)
  | crashed (c : Crash)
  /-- An exit code and what is printed. -/
  | said (code : Nat) (text : List Char)
  | scanned (r : Project.Report) (v : View)

/-- The surroundings of a run. -/
structure Context where
  workspace : Workspace
  /-- The reader for settings files. -/
  reader : Yaml.Reader
  environment : Settings.Environment
  /-- The time, in milliseconds. -/
  clock : Nat

/-- The settings for the working directory. -/
def Context.settings (x : Context) : Except Settings.LoadError Settings.Loaded :=
  Settings.load x.reader x.workspace x.environment x.workspace.working

/-! ### Showing values -/

def shownTexts (l : List (List Char)) : String := "[" ++ ", ".intercalate (l.map shownChars) ++ "]"

/-- The settings by name, as they are shown. -/
def settingRows (s : Settings) : List (String × String) := [
  ("extensions", shownTexts s.extensions),
  ("ignore", shownTexts s.ignore),
  ("include_dirs", shownTexts s.includeDirs),
  ("translation_functions", shownTexts s.translationFunctions),
  ("namespace", shownChars s.keyNamespace),
  ("function_name", shownChars s.functionName),
  ("import_source", s.importSource.elim "None" shownChars),
  ("import_kind", shownString s.importKind.name),
  ("workers", toString s.workers),
  ("max_failures", s.maxFailures.elim "None" fun n => toString n)]

def padded (width : Nat) (name : String) : String :=
  name ++ String.ofList (List.replicate (width - name.length) ' ')

def configText (l : Settings.Loaded) : List Char :=
  (settingRows l.settings).flatMap fun (name, value) =>
    s!"{padded 22 name} {value}  ({(l.sourceOf name).name})\n".toList

/-! ### Scans -/

/-- The candidates that are shown. -/
def View.candidates (v : View) (r : Project.Report) : List Candidate :=
  r.candidates.filter fun c => !(c.localized && v.hideLocalized)

/-- The characters of a text, which in a candidate are always all of it. -/
def pointsText (p : Points) : List Char := p.toChars?.getD []

/-- The key that a candidate might get. -/
def suggestion (clock : Nat) (v : View) (c : Candidate) : List Char :=
  Key.suggest clock (pointsText c.text) (Key.fileNamespace c.file v.keyNamespace)

def candidateLine (clock : Nat) (v : View) (c : Candidate) : List Char :=
  c.file ++ s!":{c.position.line}:{c.position.column}  ".toList ++
    match c.localized, c.keyPath with
    | true, some key => "[localized] ".toList ++ pointsText key ++ ['\n']
    | _, _ => shown c.text ++ " -> ".toList ++ suggestion clock v c ++ ['\n']

/-- A time in hundredths of a second. -/
def seconds (hundredths : Nat) : String :=
  let rest := hundredths % 100
  s!"{hundredths / 100}.{rest / 10}{rest % 10}"

def summary (elapsed : Nat) (r : Project.Report) : List Char :=
  let plain := r.candidates.length - r.localizedCount
  let lines := [
    "",
    "Scan complete.",
    s!"  Root:            {r.root.toString}",
    s!"  Files scanned:   {r.filesScanned}",
    s!"  Candidates:      {plain} untranslated / {r.localizedCount} localized",
    s!"  Elapsed time:    {seconds elapsed} seconds"]
  let skipped :=
    if r.failures.isEmpty then []
    else "  Skipped files:" :: r.failures.map fun f => s!"    - {f.message}"
  (lines ++ skipped).flatMap fun line => line.toList ++ ['\n']

/-- The fields of a candidate, each as it is written in JSON. -/
def jsonFields (clock : Nat) (v : View) (c : Candidate) : List (String × List Char) :=
  [("id", Escape.quoted c.id.toList),
    ("text", Escape.quoted (pointsText c.text)),
    ("file", Escape.quoted c.file),
    ("line", (toString c.position.line).toList),
    ("column", (toString c.position.column).toList),
    ("context", Escape.quoted c.context),
    ("localized", (if c.localized then "true" else "false").toList),
    ("keyPath", c.keyPath.elim "null".toList fun k => Escape.quoted (pointsText k))] ++
    if c.localized then [] else [("keySuggestion", Escape.quoted (suggestion clock v c))]

def jsonObject (fields : List (String × List Char)) : List Char :=
  let entries := fields.map fun (name, value) =>
    "    ".toList ++ Escape.quoted name.toList ++ ": ".toList ++ value
  "  \x7b\n".toList ++ [',', '\n'].intercalate entries ++ "\n  \x7d".toList

def jsonText (clock : Nat) (v : View) (cs : List Candidate) : List Char :=
  if cs.isEmpty then "[]\n".toList
  else
    let objects := cs.map fun c => jsonObject (jsonFields clock v c)
    "[\n".toList ++ [',', '\n'].intercalate objects ++ "\n]\n".toList

def reportText (clock elapsed : Nat) (r : Project.Report) (v : View) : List Char :=
  let visible := v.candidates r
  if v.json then jsonText clock v visible
  else visible.flatMap (candidateLine clock v) ++ summary elapsed r

/-! ### Running -/

/-- A text that is not empty. -/
def nonEmpty? (text : Option (List Char)) : Option (List Char) := text.filter fun t => !t.isEmpty

/-- A number other than zero. -/
def nonZero? (n : Option Int) : Option Int := n.filter fun n => n != 0

def line (text : String) : List Char := text.toList ++ ['\n']

def runSuggest (clock : Nat) (s : Settings) (c : SuggestCommand) : Outcome :=
  let base := (nonEmpty? c.keyNamespace).getD s.keyNamespace
  let space := (nonEmpty? c.file).elim base fun file => Key.fileNamespace file base
  .said 0 (Key.suggest clock c.text space ++ ['\n'])

def scanOptions (s : Settings) (c : ScanCommand) : Project.Options where
  extensions := c.extensions.getD s.extensions
  ignore := c.ignore.getD s.ignore
  directories := c.directories.getD s.includeDirs
  functions := s.translationFunctions
  maxFailures := (nonZero? c.maxFailures).orElse fun _ => s.maxFailures
  workers := (nonZero? c.workers).getD s.workers

def runScan (w : Workspace) (s : Settings) (c : ScanCommand) : Outcome :=
  match Project.scan w (.ofChars c.root) (scanOptions s c) with
  | .error (.home u) => .crashed (.home u)
  | .error (.files (.refused f directory)) => .crashed (.refused f directory)
  | .error (.files e) => .said 1 (line e.message)
  | .error (.aborted a) => .said 2 (line a.message)
  | .ok r => .scanned r ⟨(nonEmpty? c.keyNamespace).getD s.keyNamespace, c.hideLocalized, c.json⟩

def wrapTarget (s : Settings) (c : WrapCommand) : Target where
  filePath := c.file
  text := c.text
  line := c.line
  column := c.column
  key := c.key
  functionName := (nonEmpty? c.functionName).getD s.functionName
  importSource := c.importSource.orElse fun _ => s.importSource
  importKind := (c.importKind.getD s.importKind).name.toList
  skipImport := c.skipImport

/-- The answer to a patch that fails. -/
def patchFailure (c : WrapCommand) (f : Patch.Fault) : Outcome :=
  let file := String.ofList c.file
  match f with
  | .stale _ _ _ _ => .said 2 (line f.message)
  | .lacks _ | .call _ | .edit .overlap => .said 1 (line f.message)
  | .notText path | .malformed _ path =>
      .said 1 (line s!"Could not parse {path.toString}: {f.message}")
  | .unreadable .embeddedNull _ | .unwritable (.store .embeddedNull) _ => .crashed (.patch f)
  | .unreadable .missing _ | .unwritable (.store .missing) _ =>
      .said 1 (line s!"Source file not found: {file}")
  | .unreadable _ _ | .unwritable (.store _) _ =>
      .said 1 (line s!"Could not update {file}: {f.message}")
  | .home _ | .escape _ | .importKind _ | .edit .notText | .unwritable .unencodable _ =>
      .crashed (.patch f)

/-- The differences that a patch makes. -/
def patchDiff (r : Patch.Rendering) : List Char :=
  Diff.unified r.path.toString (keptLines r.before) (keptLines r.after)

def runWrap (w : Workspace) (s : Settings) (c : WrapCommand) : Outcome × Store :=
  let root := (nonEmpty? c.projectRoot).map Path.ofChars
  let target := wrapTarget s c
  if c.dryRun then
    match Patch.render w root target with
    | .error f => (patchFailure c f, w.store)
    | .ok r =>
        let diff := patchDiff r
        (.said 0 (if diff.isEmpty then [] else diff ++ ['\n']), w.store)
  else
    match Patch.apply w root target with
    | (.error f, store) => (patchFailure c f, store)
    | (.ok r, store) =>
        let suffix := if r.importChanged then " (import updated)" else ""
        (.said 0 (line s!"Updated {r.path.toString}{suffix}"), store)

/-- The answer to settings that do not load. -/
def settingsFailure (e : Settings.LoadError) : Outcome :=
  match e with
  | .notText _ _ | .notYaml _ (.impossible _) | .refused _ => .crashed (.settings e)
  | .notYaml _ _ | .notMapping _ | .invalid _ => .said 1 (line e.message)

/-- Runs a command. The store is the one after it. -/
def run (x : Context) (c : Command) : Outcome × Store :=
  let w := x.workspace
  match x.settings with
  | .error e => (settingsFailure e, w.store)
  | .ok loaded =>
      let s := loaded.settings
      match c with
      | .config => (.said 0 (configText loaded), w.store)
      | .suggest c => (runSuggest x.clock s c, w.store)
      | .scan c => (runScan w s c, w.store)
      | .wrap c => runWrap w s c

/-- Runs the command that arguments call for. -/
def execute (x : Context) (arguments : List (List Char)) : Outcome × Store :=
  match read arguments with
  | .ok c => run x c
  | .error r => (.refused r, x.workspace.store)

/-! ### Answers -/

def usageText : String :=
  "usage: localeforge [-h] [-v] (scan | wrap | suggest | config) ...\n"

/-- The exit code of a run, unless it crashed. -/
def Outcome.code? : Outcome → Option Nat
  | refused .unclear => some 2
  | refused .help => some 0
  | crashed _ => none
  | said code _ => some code
  | scanned _ _ => some 0

/-- What is printed, given the hundredths of a second that the run took. -/
def Outcome.text (clock elapsed : Nat) : Outcome → List Char
  | refused .unclear => []
  | refused .help => usageText.toList
  | crashed _ => []
  | said _ text => text
  | scanned r v => reportText clock elapsed r v

end Phrasebook.Command

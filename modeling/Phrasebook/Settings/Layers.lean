import Phrasebook.EnvFile
import Phrasebook.Settings.Validation
import Phrasebook.Text.Line

/-!
Where settings come from: the file of the user, the file of the project, the environment file of
the project and the environment of the process. Each layer goes over those before it.
-/

namespace Phrasebook.Settings

open Text Yaml

/-- Names and texts, as an environment has them. -/
abbrev Environment := Table (List Char) (List Char)

inductive LoadError where
  | notYaml (path : Path) (f : Yaml.Fault)
  | notMapping (path : Path)
  | notText (path : Path) (f : Utf8.Fault)
  /-- The path of a file cannot be looked up. -/
  | refused (path : Path)
  | invalid (issues : List Issue)
  deriving DecidableEq, Repr

def LoadError.message : LoadError → String
  | notYaml path f => s!"Configuration file {path.toString} is not valid YAML: {f.message}"
  | notMapping path =>
      s!"Invalid configuration file {path.toString}: expected a mapping at the root."
  | notText _ f => f.message
  | refused path => Store.Fault.tooLong.message path
  | invalid issues =>
      "Configuration validation errors detected:\n" ++ "\n".intercalate (issues.map Issue.message)

/-- Settings and the place that each given one comes from. -/
structure Loaded where
  settings : Settings
  sources : Table String Source
  deriving DecidableEq, Repr

def Loaded.sourceOf (l : Loaded) (name : String) : Source := (l.sources.get? name).getD .default

/-! ### Layers -/

/-- Whether a file is there can be told of all paths but those that are too long. -/
def probe (store : Store) (path : Path) : Except LoadError Unit :=
  if store.refuses path then .error (.refused path) else .ok ()

/-- A file written in YAML, with underscores for the hyphens in its names. -/
def yamlLayer (reader : Yaml.Reader) (store : Store) (path : Path) :
    Except LoadError (Table String Value) :=
  match store.readText path with
  | .error (.store _) => .ok []
  | .error (.notText f) => .error (.notText path f)
  | .ok text =>
      match reader (feedLines text) with
      | .error f => .error (.notYaml path f)
      | .ok (.scalar .null) => .ok []
      | .ok (.mapping entries) =>
          .ok (entries.foldl (fun t (key, value) =>
            let name := key.spelling.map fun c => if c == '-' then '_' else c
            t.put (String.ofList name) value) [])
      | .ok _ => .error (.notMapping path)

/-- What the names of variables that hold settings begin with. -/
def marker : List Char := "LOCALEFORGE_".toList

/-- The setting that a variable stands for. -/
def settingOf? (variableName : List Char) : Option String :=
  if marker.isPrefixOf variableName then
    let name := String.ofList (lower (variableName.drop marker.length))
    if fieldNames.contains name then some name else none
  else none

/-- The settings among variables, in the order of their names. -/
def environmentLayer (environment : Table (List Char) (Option (List Char))) : Table String Value :=
  (environment.mergeSort fun a b => !decide (b.1 < a.1)).foldl (fun t (name, value) =>
    match settingOf? name, value with
    | some setting, some text => t.put setting (.scalar (.text text))
    | _, _ => t) []

def envFileLayer (store : Store) (environment : Environment) (path : Path) :
    Except LoadError (Table String Value) :=
  match store.readText path with
  | .error (.store _) => .ok []
  | .error (.notText f) => .error (.notText path f)
  | .ok text => .ok (environmentLayer (EnvFile.load environment (feedLines text)))

/-- Puts a layer over what is given so far. -/
def overlay (given : Layered) (source : Source) (layer : Table String Value) : Layered :=
  given.merge (layer.map fun (name, value) => (name, value, source))

def userFile (home : Path) : Path :=
  ((home.child ".config").child "localeforge").child "config.yaml"

def projectFile (directory : Path) : Path := directory.child "localeforge.yaml"

def envFile (directory : Path) : Path := directory.child ".env"

/-- All layers for a directory. The files are looked for before any is read. -/
def layers (reader : Yaml.Reader) (w : Workspace) (environment : Environment) (directory : Path) :
    Except LoadError Layered := do
  let user := userFile w.home
  let project := projectFile directory
  probe w.store user
  probe w.store project
  let given := overlay [] (.file user) (← yamlLayer reader w.store user)
  let given := overlay given (.file project) (← yamlLayer reader w.store project)
  probe w.store (envFile directory)
  let given := overlay given .envFile (← envFileLayer w.store environment (envFile directory))
  return overlay given .process (environmentLayer (environment.map fun (n, v) => (n, some v)))

/-- The settings for a directory, with a reader for the files written in YAML. -/
def load (reader : Yaml.Reader) (w : Workspace) (environment : Environment) (directory : Path) :
    Except LoadError Loaded := do
  let given ← layers reader w environment directory
  let settings ← (validate given).mapError .invalid
  return ⟨settings, given.map fun (name, _, source) => (name, source)⟩

end Phrasebook.Settings

import Phrasebook.Command.Run
import Std.Time.DateTime.Timestamp

/-!
The program. It takes what a command needs out of the file system, runs the command, prints what
the command says and writes the files that it changed.
-/

namespace Phrasebook.Program

open Text

/-! ### Reading files -/

/-- What stands at a path. A link that leads nowhere counts as nothing. -/
inductive Sighting where
  | directory
  | file
  | nothing
  deriving DecidableEq

def look (path : String) : IO Sighting := do
  try
    let data ← ((← IO.currentDir) / path).metadata
    return match data.type with
      | .dir => .directory
      | _ => .file
  catch _ => return .nothing

def readBytes (path : String) : IO Utf8.Bytes := do
  return (← IO.FS.readBinFile ((← IO.currentDir) / path)).toList

/-- The names in a directory. -/
def names (path : String) : IO (List String) := do
  return (← ((← IO.currentDir) / path).readDir).toList.map fun entry => entry.fileName

/-- Puts what stands at a path into a store, with the directories that lead there. -/
def loadPath (store : Store) (path : Path) : IO Store := do
  let mut store := store
  for p in path.normalize.lineage do
    match ← look p.toString with
    | .directory => store := store.placeNew p.parts (.branch [])
    | .file => store := store.place p.parts (.leaf (.file (← readBytes p.toString)))
    | .nothing => return store
  return store

/-- The entries of a directory. Files that nobody asks for stay empty, and directories that
nobody goes into stay closed. -/
partial def loadTree (wanted : Project.Wanted) (directory here : Path) :
    IO (Table String Entry) := do
  (← names directory.toString).mapM fun name => do
    let path := directory.child name
    let below := here.child name
    match ← look path.toString with
    | .directory =>
        if wanted.ignore.hides below then return (name, .branch [])
        else return (name, .branch (← loadTree wanted path below))
    | .file =>
        let bytes ←
          if Project.hasExtension wanted.extensions name then readBytes path.toString else pure []
        return (name, .leaf (.file bytes))
    | .nothing => return (name, .leaf .dangling)

/-- Puts the files of a project into a store. -/
def loadProject (w : Workspace) (root : Path) (o : Project.Options) : IO Store := do
  match w.expandHome root with
  | .error _ => return w.store
  | .ok root =>
      let root := w.resolve root
      let store ← loadPath w.store root
      if !store.isDirectory root then return store
      let wanted : Project.Wanted := ⟨Project.extensions o.extensions, .ofPatterns o.ignore⟩
      return store.place root.parts (.branch (← loadTree wanted root ⟨"", []⟩))

/-! ### Surroundings -/

/-- The words of a text that may be names of variables. -/
def variableNames (text : List Char) : List String :=
  let isName (c : Char) : Bool := c.isAlphanum || c == '_'
  let spaced := String.ofList (text.map fun c => if isName c then c else ' ')
  (spaced.splitOn " ").eraseDups.filter fun name => !name.isEmpty

/-- The variables that hold settings, and those that an environment file speaks of. -/
def environment (text : List Char) : IO Settings.Environment := do
  let marker := String.ofList Settings.marker
  let settings := Settings.fieldNames.map fun name => marker ++ name.toUpper
  let found ← (settings ++ variableNames text).eraseDups.filterMapM fun name => do
    return (← IO.getEnv name).map fun value => (name.toList, value.toList)
  return found

/-- The users of the machine with their home directories. -/
def homes : IO (Table String Path) := do
  let lines ← try IO.FS.lines ((← IO.currentDir) / "/etc/passwd") catch _ => pure #[]
  return lines.toList.filterMap fun line =>
    match line.splitOn ":" with
    | user :: _ :: _ :: _ :: _ :: home :: _ => some (user, Path.ofString home)
    | _ => none

/-- The working directory and the home directory, with the settings files in them. -/
def context : IO Command.Context := do
  let working := Path.ofString (← IO.currentDir).toString
  let home := Path.ofString ((← IO.getEnv "HOME").getD "/")
  let mut store := Store.empty
  for path in [working, Settings.userFile home, Settings.projectFile working,
      Settings.envFile working] do
    store ← loadPath store path
  let text := (store.readText (Settings.envFile working)).toOption.getD []
  let clock := (← Std.Time.Timestamp.now).toMillisecondsSinceUnixEpoch.val.toNat
  return ⟨⟨store, working, home, ← homes⟩, Yaml.load, ← environment text, clock⟩

/-- The context with the files that a command works on. -/
def prepare (x : Command.Context) (c : Command) : IO Command.Context := do
  let w := x.workspace
  match x.settings, c with
  | .ok loaded, .scan c =>
      let store ← loadProject w (.ofChars c.root) (Command.scanOptions loaded.settings c)
      return { x with workspace := { w with store } }
  | .ok _, .wrap c =>
      let root := (Command.nonEmpty? c.projectRoot).map Path.ofChars
      match (root.mapM w.expandHome).mapError .home >>= (Patch.locateFile w · c.file) with
      | .ok path => return { x with workspace := { w with store := ← loadPath w.store path } }
      | .error _ => return x
  | _, _ => return x

/-! ### Writing files -/

/-- Replaces a file in one step. -/
def replaceFile (path : Path) (bytes : Utf8.Bytes) : IO Unit := do
  let here ← IO.currentDir
  let draft := path.parent.child s!".{String.ofList path.name}.tmp"
  IO.FS.writeBinFile (here / draft.toString) ⟨bytes.toArray⟩
  IO.FS.rename (here / draft.toString) (here / path.toString)

/-- Writes the files of a store that another one does not have. -/
def save (before after : Store) : IO Unit := do
  let known := before.files
  for (parts, content) in after.files do
    match content with
    | .file bytes =>
        if known.lookup parts != some content then replaceFile ⟨"/", parts⟩ bytes
    | .dangling => pure ()

/-! ### Running -/

/-- The warnings of a scan. -/
def warnings : Command.Outcome → List String
  | .scanned r _ => r.warnings.map Project.Warning.message ++ r.failures.map Project.Failure.notice
  | _ => []

def crashMessage : Command.Crash → String
  | .settings e => e.message
  | .patch f => f.message
  | .home _ => "Could not determine home directory."
  | .refused f directory => f.message directory

def run (arguments : List String) : IO UInt32 := do
  let started ← IO.monoMsNow
  let x ← context
  let x ← match Command.read (arguments.map String.toList) with
    | .ok c => prepare x c
    | .error _ => pure x
  let (outcome, store) := Command.execute x (arguments.map String.toList)
  for w in warnings outcome do
    IO.eprintln s!"WARNING: {w}"
  save x.workspace.store store
  let elapsed := ((← IO.monoMsNow) - started) / 10
  IO.print (String.ofList (outcome.text x.clock elapsed))
  match outcome with
  | .refused .unclear => IO.eprint Command.usageText
  | .crashed c => IO.eprintln (crashMessage c)
  | _ => pure ()
  return (outcome.code?.getD 1).toUInt32

end Phrasebook.Program

def main (arguments : List String) : IO UInt32 := Phrasebook.Program.run arguments

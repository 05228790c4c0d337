import Phrasebook.Source.Callee
import Phrasebook.Text.Digest

/-!
Candidates: the texts of a file that a user may see. A plain candidate is a run of markup text on
one line; a localized one is the key of a call to a translation function.
-/

namespace Phrasebook

open Text Source

structure Candidate where
  id : String
  text : Points
  file : List Char
  position : Position
  /-- The line of the candidate, trimmed. -/
  context : List Char
  localized : Bool
  /-- The key as the call gives it, before trimming. -/
  keyPath : Option Points
  deriving DecidableEq, Repr

namespace Candidate

/-- Why a file that parses still gives no candidates. -/
inductive Fault where
  | escape (f : Escape.Fault)
  /-- The text to hash holds surrogates: the whole of it, where they begin and how many. -/
  | surrogate (payload : Points) (start count : Nat)
  deriving DecidableEq, Repr

/-- What the identity of a candidate is the hash of. -/
def payload (text : Points) (file : List Char) (line column : Int) (localized : Bool) : Points :=
  text ++ Points.ofChars ('-' :: file) ++ Points.ofString s!"-{line}-{column}-" ++
    Points.ofString (if localized then "localized" else "plain")

def identity (text : Points) (file : List Char) (line column : Int) (localized : Bool) :
    Except Fault String :=
  let p := payload text file line column localized
  match p.toChars? with
  | some cs => .ok (Digest.hex cs)
  | none => let (start, count) := p.surrogates?.getD (0, 0); .error (.surrogate p start count)

end Candidate

/-- The functions whose calls count as translated, unless others are named. -/
def defaultFunctions : List (List Char) :=
  ["t".toList, "translate".toList, "formatMessage".toList, "intl.formatMessage".toList]

namespace Source.Node

/-- The value of an entry of an object, if its key is `id` and its value a string. -/
def entryKey : Node → Option (Except Escape.Fault Points)
  | branch .pair _ (leaf .property _ key :: following) =>
      match following.getLast? with
      | some (leaf (.string place) _ raw) =>
          if key == "id".toList then some (stringValue place raw) else none
      | _ => none
  | _ => none

/-- The `id` of a message descriptor such as `{ id: "greeting" }`, by the entries of the
descriptor. -/
def descriptorKey (entries : List Node) : Option (Except Escape.Fault Points) :=
  entries.findSome? entryKey

/-- The key of a call to one of the functions: its first argument, if that is a string, a
template without substitutions or a message descriptor. -/
def localizedKey (functions : List (List Char)) (call : Node) :
    Option (Except Escape.Fault Points) :=
  match call.callee, call.firstArgument with
  | some name, some first =>
      if name.isEmpty || !functions.contains name then none
      else match first with
        | leaf (.string place) _ raw => some (stringValue place raw)
        | branch .template _ parts =>
            if parts.any isSubstitution then none else some (templateValue parts)
        | branch .object _ entries => descriptorKey entries
        | _ => none
  | _, _ => none

end Source.Node

namespace Source.Document

/-- A candidate for a text at an offset, unless the text is blank. -/
def candidate (d : Document) (file : List Char) (offset : Nat) (text : Points) (localized : Bool)
    (keyPath : Option Points) : Except Candidate.Fault (Option Candidate) :=
  let value := Points.strip text
  if value.isEmpty then .ok none
  else
    let position := d.position offset
    match Candidate.identity value file position.line position.column localized with
    | .ok id =>
        .ok (some { id, text := value, file, position,
                    context := strip (lineText d.text position.line), localized, keyPath })
    | .error f => .error f

/-- Runs with line feeds or tabs inside are layout rather than text. -/
def isOneLine (text : Points) : Bool := !text.any fun p => p.val == 0x0a || p.val == 0x09

/-- The candidate that a node is, if it is one. -/
def candidateAt (d : Document) (file : List Char) (functions : List (List Char)) (n : Node) :
    Except Candidate.Fault (Option Candidate) :=
  match n with
  | .run start raw =>
      let value := Points.strip (d.runLiteral start raw).value
      if isOneLine value then d.candidate file start value false none else .ok none
  | .branch .call span _ =>
      match n.localizedKey functions with
      | some (.ok key) => d.candidate file span.start key true (some key)
      | some (.error f) => .error (.escape f)
      | none => .ok none
  | _ => .ok none

/-- All candidates in reading order. -/
def candidates (d : Document) (file : List Char) (functions : List (List Char)) :
    Except Candidate.Fault (List Candidate) :=
  (d.all.mapM (d.candidateAt file functions)).map (·.filterMap id)

end Source.Document

inductive ScanFault where
  | malformed (e : SyntaxError)
  | candidate (f : Candidate.Fault)
  deriving DecidableEq, Repr

/-- The candidates of a source text. -/
def scanText (text file : List Char) (functions : List (List Char)) :
    Except ScanFault (List Candidate) :=
  match Document.parse (some (String.ofList file)) text with
  | .error e => .error (.malformed e)
  | .ok d => (d.candidates file functions).mapError .candidate

end Phrasebook

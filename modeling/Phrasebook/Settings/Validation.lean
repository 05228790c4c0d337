import Phrasebook.Settings.Basic
import Phrasebook.Text.LowerCase
import Phrasebook.Yaml.Value

/-!
Checking settings. Each setting has a type of its own; some take a text in the place of a list or
of a number. All problems are reported together, those of known settings first.
-/

namespace Phrasebook.Settings

open Text Yaml

/-- Named values, each with the place that it comes from. -/
abbrev Layered := Table String (Value × Source)

inductive Problem where
  | notText
  | notList
  | notInteger
  | unreadableInteger
  | fraction
  | infinite
  | tooLarge
  | belowOne
  | notKind
  | unknown
  deriving DecidableEq, Repr

def Problem.message : Problem → String
  | notText => "Input should be a valid string"
  | notList => "Input should be a valid list"
  | notInteger => "Input should be a valid integer"
  | unreadableInteger => "Input should be a valid integer, unable to parse string as an integer"
  | fraction => "Input should be a valid integer, got a number with a fractional part"
  | infinite => "Input should be a finite number"
  | tooLarge => "Unable to parse input string as an integer, exceeded maximum size"
  | belowOne => "Input should be greater than or equal to 1"
  | notKind => "Input should be 'named' or 'default'"
  | unknown => "Extra inputs are not permitted"

/-- A problem with a setting, or with one item of a list. -/
structure Issue where
  name : String
  item : Option Nat
  problem : Problem
  source : Source
  deriving DecidableEq, Repr

def Issue.message (i : Issue) : String :=
  let place := match i.item with
    | none => if i.name == "" then "" else s!"{i.name}: "
    | some n => s!"{i.name}.{n}: "
  s!"- {place}{i.problem.message} (source: {i.source.name})"

/-! ### Integers in texts -/

/-- White space that may stand around a number. -/
def isMargin (c : Char) : Bool := isSpace c && !(0x1c ≤ c.toNat && c.toNat ≤ 0x1f)

/-- Cuts off a point with nothing but zeros after it. -/
def cutZeroFraction (text : List Char) : List Char :=
  let whole := text.takeWhile (· != '.')
  if (text.drop (whole.length + 1)).all (· == '0') then whole else text

/-- A number without zeros in front; underscores among the zeros go with them. -/
def cutLeadingZeros (text : List Char) : Option (List Char) :=
  match text with
  | '0' :: rest =>
      let more := rest.dropWhile fun c => c == '0' || c == '_'
      match more with
      | [] => text.getLast?.map ([·])
      | '.' :: _ => (text.take (text.length - more.length)).getLast?.map (· :: more)
      | c :: _ => if c.isDigit then some more else none
  | c :: _ => if c.isDigit || c == '-' then some text else none
  | [] => none

/-- Takes out underscores, if they stand one by one and between other characters. -/
def cutUnderscores (text : List Char) : List Char :=
  if text.head? == some '_' || text.getLast? == some '_' || doubled text then text
  else text.filter (· != '_')
where
  doubled : List Char → Bool
    | '_' :: '_' :: _ => true
    | _ :: rest => doubled rest
    | [] => false

def digits? : List Char → Option Nat
  | [] => none
  | ['0'] => some 0
  | '0' :: _ => none
  | text => if text.all Char.isDigit then some (numeral 10 text) else none

/-- The integer that a text spells. -/
def integerText? (text : List Char) : Option Int :=
  let text := trim isMargin text
  let unsigned := match text with
    | '+' :: '-' :: _ => none
    | '+' :: rest => some rest
    | _ => some text
  match (unsigned.map cutZeroFraction).bind cutLeadingZeros with
  | none => none
  | some text =>
      match cutUnderscores text with
      | '-' :: rest => (digits? rest).map fun n => -(n : Int)
      | rest => (digits? rest).map fun n => (n : Int)

/-! ### Types -/

def asText : Value → Except Problem (List Char)
  | .scalar (.text t) => .ok t
  | _ => .error .notText

/-- The parts of a text between commas, without blank ones. -/
def commaParts (text : List Char) : List (List Char) :=
  ((Path.splitAt ',' text).map strip).filter fun part => !part.isEmpty

/-- The texts of a list and the problems with its items. -/
def itemTexts (start : Nat) : List Value → List (List Char) × List (Nat × Problem)
  | [] => ([], [])
  | v :: rest =>
      let (texts, problems) := itemTexts (start + 1) rest
      match asText v with
      | .ok t => (t :: texts, problems)
      | .error p => (texts, (start, p) :: problems)

/-- A list of texts; one text stands for the list of its parts. -/
def asTexts : Value → Except (List (Option Nat × Problem)) (List (List Char))
  | .scalar (.text t) => .ok (commaParts t)
  | .list items =>
      match itemTexts 0 items with
      | (texts, []) => .ok texts
      | (_, problems) => .error (problems.map fun (n, p) => (some n, p))
  | _ => .error [(none, .notList)]

def largest : Int := 9223372036854775808

def asInteger : Value → Except Problem Int
  | .scalar (.int n) => .ok n
  | .scalar (.bool b) => .ok (if b then 1 else 0)
  | .scalar (.text t) => (integerText? t).elim (.error .unreadableInteger) .ok
  | .scalar (.float (.finite d)) =>
      match d.toInt? with
      | none => .error .fraction
      | some n => if n < largest && -largest < n then .ok n else .error .tooLarge
  | .scalar (.float _) => .error .infinite
  | _ => .error .notInteger

/-- An integer from one on. -/
def asCount (v : Value) : Except Problem Int :=
  match asInteger v with
  | .ok n => if n < 1 then .error .belowOne else .ok n
  | .error p => .error p

def asKind : Value → Except Problem ImportKind
  | .scalar (.text t) =>
      match ImportKind.ofString? (String.ofList (lower (strip t))) with
      | some k => .ok k
      | none => .error .notKind
  | _ => .error .notKind

/-- Nothing and blank text stand for no value. -/
def optional {α : Type} (check : Value → Except Problem α) (v : Value) :
    Except Problem (Option α) :=
  match v with
  | .scalar .null => .ok none
  | .scalar (.text t) => if isBlankText t then .ok none else (check v).map some
  | _ => (check v).map some

/-! ### All settings -/

/-- The value of a setting, its default if it is not given or wrong, and what is wrong with it. -/
def field {α : Type} (given : Layered) (name : String) (fallback : α)
    (check : Value → Except (List (Option Nat × Problem)) α) : α × List Issue :=
  match given.get? name with
  | none => (fallback, [])
  | some (v, source) =>
      match check v with
      | .ok a => (a, [])
      | .error problems => (fallback, problems.map fun (item, p) => ⟨name, item, p, source⟩)

def single {α : Type} (check : Value → Except Problem α) (v : Value) :
    Except (List (Option Nat × Problem)) α :=
  (check v).mapError fun p => [(none, p)]

/-- Names that are no settings. -/
def unknownIssues (given : Layered) : List Issue :=
  (given.filter fun e => !fieldNames.contains e.1).map fun (name, _, source) =>
    ⟨name, none, .unknown, source⟩

def validate (given : Layered) : Except (List Issue) Settings :=
  let d := Settings.default
  let (extensions, e1) := field given "extensions" d.extensions asTexts
  let (ignore, e2) := field given "ignore" d.ignore asTexts
  let (includeDirs, e3) := field given "include_dirs" d.includeDirs asTexts
  let (translationFunctions, e4) :=
    field given "translation_functions" d.translationFunctions asTexts
  let (keyNamespace, e5) := field given "namespace" d.keyNamespace (single asText)
  let (functionName, e6) := field given "function_name" d.functionName (single asText)
  let (importSource, e7) := field given "import_source" d.importSource (single (optional asText))
  let (importKind, e8) := field given "import_kind" d.importKind (single asKind)
  let (workers, e9) := field given "workers" d.workers (single asCount)
  let (maxFailures, e10) := field given "max_failures" d.maxFailures (single (optional asCount))
  let issues := e1 ++ e2 ++ e3 ++ e4 ++ e5 ++ e6 ++ e7 ++ e8 ++ e9 ++ e10 ++ unknownIssues given
  if issues.isEmpty then
    .ok { extensions, ignore, includeDirs, translationFunctions, keyNamespace, functionName,
          importSource, importKind, workers, maxFailures }
  else .error issues

end Phrasebook.Settings

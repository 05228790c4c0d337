import Phrasebook.Yaml.Moment
import Phrasebook.Yaml.Node
import Phrasebook.Yaml.Number

/-!
The values that a YAML text stands for. What a plain scalar means follows from how it is written:
`yes` is a truth value, `010` the number eight, `~` nothing at all, and what looks like nothing
else is a text. Quoted scalars are always texts.
-/

namespace Phrasebook.Yaml

inductive Scalar where
  | null
  | bool (b : Bool)
  | int (n : Int)
  | float (x : Number)
  | date (text : List Char)
  | text (t : List Char)
  deriving DecidableEq, Repr

inductive Value where
  | scalar (s : Scalar)
  | list (items : List Value)
  /-- Entries in the order in which their keys first came. -/
  | mapping (entries : List (Scalar × Value))

/-! ### Plain scalars -/

def truth? (text : List Char) : Option Bool :=
  let word := String.ofList text
  if ["yes", "Yes", "YES", "true", "True", "TRUE", "on", "On", "ON"].contains word then some true
  else if ["no", "No", "NO", "false", "False", "FALSE", "off", "Off", "OFF"].contains word then
    some false
  else none

def isNull (text : List Char) : Bool :=
  ["", "~", "null", "Null", "NULL"].contains (String.ofList text)

/-- What a plain scalar means. -/
def plainValue (t : List Char) : Except Fault Scalar :=
  if t == ['='] || t == ['<', '<'] then .error (.unsupported t)
  else if isNull t then .ok .null
  else match truth? t, number? t, integer? t with
    | some b, _, _ => .ok (.bool b)
    | _, some x, _ => .ok (.float x)
    | _, _, some n =>
        match emptyBase? t with
        | some base => .error (.impossible (.noDigits base))
        | none => .ok (.int n)
    | _, _, _ =>
        match Moment.read? t with
        | some m => match m.fault? with
          | some why => .error (.impossible why)
          | none => .ok (.date t)
        | none => .ok (.text t)

/-! ### Keys -/

namespace Scalar

/-- Truth values and whole fractions are the same keys as their integers. -/
def identity : Scalar → Scalar
  | bool b => int (if b then 1 else 0)
  | float (.finite d) =>
      match d.toInt? with
      | some n => int n
      | none => float (.finite d.normalize)
  | s => s

/-- How a key is spelled as text. -/
def spelling : Scalar → List Char
  | null => "None".toList
  | bool b => (if b then "True" else "False").toList
  | int n => (toString n).toList
  | float x => x.toString.toList
  | date t => t
  | text t => t

end Scalar

/-- Adds an entry; a key that came before keeps its place and its spelling. -/
def addEntry (key : Scalar) (value : Value) : List (Scalar × Value) → List (Scalar × Value)
  | [] => [(key, value)]
  | (k, v) :: rest =>
      if k.identity = key.identity then (k, value) :: rest else (k, v) :: addEntry key value rest

/-! ### Nodes -/

def keyOf : Node → Except Fault Scalar
  | .scalar t plain => if plain then plainValue t else .ok (.text t)
  | _ => .error .collectionKey

mutual

def Node.value : Node → Except Fault Value
  | .scalar t plain => (keyOf (.scalar t plain)).map .scalar
  | .sequence items => (valueList items).map .list
  | .mapping entries => (valueEntries entries []).map .mapping

def valueList : List Node → Except Fault (List Value)
  | [] => .ok []
  | n :: rest =>
      match n.value, valueList rest with
      | .ok v, .ok vs => .ok (v :: vs)
      | .error f, _ | _, .error f => .error f

def valueEntries : List (Node × Node) → List (Scalar × Value) → Except Fault (List (Scalar × Value))
  | [], known => .ok known
  | (k, v) :: rest, known =>
      match keyOf k, v.value with
      | .ok key, .ok value => valueEntries rest (addEntry key value known)
      | .error f, _ | _, .error f => .error f

end

/-- What gives the values of texts. -/
abbrev Reader := List Char → Except Fault Value

/-- The value of a text; an empty text stands for nothing. -/
def load (text : List Char) : Except Fault Value := do
  match ← parse text with
  | some n => n.value
  | none => return .scalar .null

end Phrasebook.Yaml

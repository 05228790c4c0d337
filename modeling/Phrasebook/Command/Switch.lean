import Phrasebook.Text.Digit

/-!
Switches of a command line. A switch has a short or a long name, and long names may be cut short
as long as it stays clear which one is meant. Its value follows it as a word of its own, or
attached to it. After two hyphens every word is plain.
-/

namespace Phrasebook.Command

open Text

structure Switch where
  /-- What the switch is called inside the program. -/
  label : String
  names : List (List Char)
  takesValue : Bool
  deriving DecidableEq, Repr

/-- What a command understands: its switches, and how many plain words it takes. -/
structure Usage where
  switches : List Switch
  words : Nat
  deriving DecidableEq, Repr

/-- Why arguments lead to no command. -/
inductive Refusal where
  | unclear
  | help
  deriving DecidableEq, Repr

inductive Argument where
  | plain (text : List Char)
  | hyphens
  /-- A switch by one of its names, perhaps with a value attached. -/
  | switch (s : Switch) (name : List Char) (attached : Option (List Char))
  | unknown
  deriving DecidableEq, Repr

/-! ### Recognizing switches -/

def isLong (text : List Char) : Bool := ['-', '-'].isPrefixOf text

/-- Cuts a text at its first equals sign. -/
def atEquals (text : List Char) : List Char × Option (List Char) :=
  let head := text.takeWhile (· != '=')
  match text.drop head.length with
  | _ :: tail => (head, some tail)
  | [] => (head, none)

def Usage.named? (u : Usage) (name : List Char) : Option Switch :=
  u.switches.find? (·.names.contains name)

/-- The switches that a text may be short for, with what is attached to it. -/
def Usage.candidates (u : Usage) (text : List Char) : List Argument :=
  let names := u.switches.flatMap fun s => s.names.map fun name => (s, name)
  if isLong text then
    let (head, attached) := atEquals text
    (names.filter fun e => head.isPrefixOf e.2).map fun (s, name) => .switch s name attached
  else
    names.filterMap fun (s, name) =>
      if name == text.take 2 then some (.switch s name (some (text.drop 2)))
      else if text.isPrefixOf name then some (.switch s name none)
      else none

/-- A number below zero, which is a plain word although it begins with a hyphen. -/
def isNegative : List Char → Bool
  | '-' :: rest =>
      let whole := rest.takeWhile isDecimal
      match rest.drop whole.length with
      | [] => !whole.isEmpty
      | '.' :: fraction => !fraction.isEmpty && fraction.all isDecimal
      | _ => false
  | _ => false

def Usage.argument (u : Usage) (text : List Char) : Except Refusal Argument :=
  if text.head? != some '-' then .ok (.plain text)
  else match u.named? text with
    | some s => .ok (.switch s text none)
    | none =>
        let (head, attached) := atEquals text
        if text == ['-'] then .ok (.plain text)
        else match attached, u.named? head with
          | some _, some s => .ok (.switch s head attached)
          | _, _ =>
              match u.candidates text with
              | [a] => .ok a
              | _ :: _ :: _ => .error .unclear
              | [] =>
                  if isNegative text || text.contains ' ' then .ok (.plain text) else .ok .unknown

/-- All arguments; after two hyphens they are plain. -/
def Usage.arguments (u : Usage) : List (List Char) → Except Refusal (List Argument)
  | [] => .ok []
  | text :: rest =>
      if text == ['-', '-'] then .ok (.hyphens :: rest.map .plain)
      else do return (← u.argument text) :: (← u.arguments rest)

/-! ### Reading arguments -/

structure Given where
  /-- Labels of switches with their values, in order. -/
  switches : List (String × Option (List Char))
  words : List (List Char)
  deriving DecidableEq, Repr

namespace Given

def empty : Given := ⟨[], []⟩

def add (g : Given) (s : Switch) (value : Option (List Char)) : Except Refusal Given :=
  if s.label == "help" then .error .help
  else .ok { g with switches := g.switches ++ [(s.label, value)] }

/-- Short switches that are written together, the last of which may take a value. -/
def cluster (u : Usage) (g : Given) (s : Switch) :
    List Char → Except Refusal (Given × Option Switch)
  | [] => if s.takesValue then .ok (g, some s) else return (← g.add s none, none)
  | c :: rest =>
      if s.takesValue then return (← g.add s (some (c :: rest)), none)
      else do
        let g ← g.add s none
        match u.named? ['-', c] with
        | some next => cluster u g next rest
        | none => throw .unclear

/-- A switch with what is attached to it; it may be left waiting for a value. -/
def take (u : Usage) (g : Given) (s : Switch) (name : List Char) :
    Option (List Char) → Except Refusal (Given × Option Switch)
  | none => if s.takesValue then .ok (g, some s) else return (← g.add s none, none)
  | some attached =>
      if s.takesValue then return (← g.add s (some attached), none)
      else if isLong name || attached.isEmpty then .error .unclear
      else cluster u g s attached

/-- Reads arguments one by one; a switch may be waiting for its value. -/
def read (u : Usage) (g : Given) : Option Switch → List Argument → Except Refusal Given
  | none, [] => .ok g
  | some _, [] => .error .unclear
  | some s, .plain text :: rest => do read u (← g.add s (some text)) none rest
  | some _, _ :: _ => .error .unclear
  | none, .plain text :: .hyphens :: rest =>
      if g.words.length < u.words then read u { g with words := g.words ++ [text] } none rest
      else .error .unclear
  | none, .plain text :: rest =>
      if g.words.length < u.words then read u { g with words := g.words ++ [text] } none rest
      else .error .unclear
  | none, .hyphens :: .plain text :: rest =>
      if g.words.length < u.words then read u { g with words := g.words ++ [text] } none rest
      else .error .unclear
  | none, .hyphens :: _ => .error .unclear
  | none, .unknown :: _ => .error .unclear
  | none, .switch s name attached :: rest => do
      let (g, waiting) ← take u g s name attached
      read u g waiting rest

/-- The last value of a switch. -/
def value? (g : Given) (label : String) : Option (List Char) :=
  g.switches.reverse.findSome? fun (l, v) => if l == label then v else none

/-- All values of a switch that may be repeated; nothing if it was never given. -/
def values? (g : Given) (label : String) : Option (List (List Char)) :=
  match g.switches.filterMap fun (l, v) => if l == label then v else none with
  | [] => none
  | vs => some vs

def has (g : Given) (label : String) : Bool := g.switches.any (·.1 == label)

end Given

/-- The arguments of a command, if they suit its usage. -/
def Usage.read (u : Usage) (arguments : List (List Char)) : Except Refusal Given := do
  let g ← Given.read u .empty none (← u.arguments arguments)
  if g.words.length == u.words then return g else throw .unclear

end Phrasebook.Command

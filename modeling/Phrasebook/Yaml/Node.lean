import Phrasebook.Yaml.Token

/-!
The nodes of a YAML text: scalars, sequences and mappings, read from its tokens. A text holds one
document at most.
-/

namespace Phrasebook.Yaml

inductive Node where
  | scalar (text : List Char) (plain : Bool)
  | sequence (items : List Node)
  | mapping (entries : List (Node × Node))

namespace Node

/-- What stands where nothing is written. -/
def empty : Node := scalar [] true

/-- A node, or nothing if the tokens do not make one, with the tokens after it. -/
abbrev Reading (α : Type) := Option (α × List Token)

mutual

/-- A node. Blocks may begin only outside of brackets, and a sequence without indentation only
as the value or key of a mapping. -/
def read (block indentless : Bool) : Nat → List Token → Reading Node
  | 0, _ => none
  | fuel + 1, ts =>
      match ts with
      | .scalar text plain :: rest => some (scalar text plain, rest)
      | .sequenceStart :: rest => (flowItems true fuel rest).map fun (l, r) => (sequence l, r)
      | .mappingStart :: rest => (flowEntries true fuel rest).map fun (l, r) => (mapping l, r)
      | .blockSequenceStart :: rest =>
          if block then (blockItems fuel rest).map fun (l, r) => (sequence l, r) else none
      | .blockMappingStart :: rest =>
          if block then (blockEntries fuel rest).map fun (l, r) => (mapping l, r) else none
      | .blockEntry :: _ =>
          if indentless then (plainItems fuel ts).map fun (l, r) => (sequence l, r) else none
      | _ => none

/-- A node unless one of some tokens follows, before which nothing is written. -/
def readUnless (stops : List Token) (block indentless : Bool) : Nat → List Token → Reading Node
  | 0, _ => none
  | fuel + 1, ts =>
      if ts.head?.any stops.contains then some (empty, ts) else read block indentless fuel ts

/-- The items of an indented sequence. -/
def blockItems : Nat → List Token → Reading (List Node)
  | 0, _ => none
  | fuel + 1, ts =>
      match ts with
      | .blockEntry :: rest =>
          (readUnless [.blockEntry, .blockEnd] true false fuel rest).bind fun (n, rest) =>
            (blockItems fuel rest).map fun (l, r) => (n :: l, r)
      | .blockEnd :: rest => some ([], rest)
      | _ => none

/-- The items of a sequence that is indented no further than the mapping around it. -/
def plainItems : Nat → List Token → Reading (List Node)
  | 0, _ => none
  | fuel + 1, ts =>
      match ts with
      | .blockEntry :: rest =>
          (readUnless [.blockEntry, .key, .value, .blockEnd] true false fuel rest).bind
            fun (n, rest) => (plainItems fuel rest).map fun (l, r) => (n :: l, r)
      | _ => some ([], ts)

/-- The value of an entry of a mapping, if it has one. -/
def readValue (stops : List Token) (block : Bool) : Nat → List Token → Reading Node
  | 0, _ => none
  | fuel + 1, ts =>
      match ts with
      | .value :: rest => readUnless stops block block fuel rest
      | _ => some (empty, ts)

/-- The entries of an indented mapping. -/
def blockEntries : Nat → List Token → Reading (List (Node × Node))
  | 0, _ => none
  | fuel + 1, ts =>
      let stops := [Token.key, .value, .blockEnd]
      match ts with
      | .key :: rest =>
          (readUnless stops true true fuel rest).bind fun (k, rest) =>
            (readValue stops true fuel rest).bind fun (v, rest) =>
              (blockEntries fuel rest).map fun (l, r) => ((k, v) :: l, r)
      | .blockEnd :: rest => some ([], rest)
      | _ => none

/-- The items between brackets. A key among them makes a mapping of one entry. -/
def flowItems (first : Bool) : Nat → List Token → Reading (List Node)
  | 0, _ => none
  | fuel + 1, ts =>
      match ts, first with
      | .sequenceEnd :: rest, _ => some ([], rest)
      | .flowEntry :: _, true => none
      | .flowEntry :: .sequenceEnd :: rest, false => some ([], rest)
      | .flowEntry :: rest, false => flowItem fuel rest
      | _, true => flowItem fuel ts
      | _, false => none

def flowItem : Nat → List Token → Reading (List Node)
  | 0, _ => none
  | fuel + 1, ts =>
      let item : Reading Node := match ts with
        | .key :: rest =>
            (readUnless [.value, .flowEntry, .sequenceEnd] false false fuel rest).bind
              fun (k, rest) =>
                (readValue [.flowEntry, .sequenceEnd] false fuel rest).map
                  fun (v, rest) => (mapping [(k, v)], rest)
        | _ => read false false fuel ts
      item.bind fun (n, rest) => (flowItems false fuel rest).map fun (l, r) => (n :: l, r)

/-- The entries between braces. -/
def flowEntries (first : Bool) : Nat → List Token → Reading (List (Node × Node))
  | 0, _ => none
  | fuel + 1, ts =>
      match ts, first with
      | .mappingEnd :: rest, _ => some ([], rest)
      | .flowEntry :: _, true => none
      | .flowEntry :: .mappingEnd :: rest, false => some ([], rest)
      | .flowEntry :: rest, false => flowMapEntry fuel rest
      | _, true => flowMapEntry fuel ts
      | _, false => none

def flowMapEntry : Nat → List Token → Reading (List (Node × Node))
  | 0, _ => none
  | fuel + 1, ts =>
      let entry : Reading (Node × Node) := match ts with
        | .key :: rest =>
            (readUnless [.value, .flowEntry, .mappingEnd] false false fuel rest).bind
              fun (k, rest) =>
                (readValue [.flowEntry, .mappingEnd] false fuel rest).map
                  fun (v, rest) => ((k, v), rest)
        | _ => (read false false fuel ts).map fun (k, rest) => ((k, empty), rest)
      entry.bind fun (e, rest) => (flowEntries false fuel rest).map fun (l, r) => (e :: l, r)

end

/-! ### Documents -/

def isDocumentMark (t : Token) : Bool := t == .documentStart || t == .documentEnd

/-- The content of a document, which may be nothing at all. -/
def content (ts : List Token) : Reading Node :=
  if ts.head?.all isDocumentMark then some (empty, ts) else read true false (4 * ts.length + 4) ts

/-- The one document of a text, or nothing for an empty text. -/
def document (ts : List Token) : Option (Option Node) :=
  match ts with
  | [] => some none
  | .documentStart :: rest => (content rest).bind finish
  | _ => (read true false (4 * ts.length + 4) ts).bind finish
where
  /-- After the document there may be nothing but its end. -/
  finish : Node × List Token → Option (Option Node)
    | (n, rest) => if rest.all (· == .documentEnd) then some (some n) else none

end Node

def parse (text : List Char) : Except Fault (Option Node) :=
  match tokens text with
  | .error f => .error f
  | .ok ts =>
      match Node.document ts with
      | some n => .ok n
      | none => .error .misplaced

end Phrasebook.Yaml

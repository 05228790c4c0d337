import Phrasebook.Yaml.Scalar

/-!
The tokens of a YAML text. Indentation opens and closes blocks, and a scalar or a bracketed
collection turns out to be a key only when a colon follows it on the same line; the tokens that
say so are then put in front of it.

Anchors, aliases, tags, block scalars and directives are no part of settings files and are
refused.
-/

namespace Phrasebook.Yaml

inductive Token where
  | documentStart
  | documentEnd
  | blockSequenceStart
  | blockMappingStart
  | blockEnd
  | sequenceStart
  | sequenceEnd
  | mappingStart
  | mappingEnd
  | blockEntry
  | flowEntry
  | key
  | value
  | scalar (text : List Char) (plain : Bool)
  deriving DecidableEq, Repr

/-- Something that is a key if a colon follows. -/
structure PossibleKey where
  /-- The number of tokens before it. -/
  number : Nat
  /-- It stands where only a key can stand. -/
  required : Bool
  offset : Nat
  line : Nat
  column : Nat
  deriving DecidableEq, Repr

structure Scanner where
  cursor : Cursor
  tokens : List Token
  /-- How many brackets are open. -/
  flow : Nat
  indent : Int
  /-- The indentation of the blocks around this one. -/
  indents : List Int
  /-- Whether a key may begin here. -/
  keyAllowed : Bool
  /-- The possible key at each level of brackets, innermost first. -/
  keys : List (Option PossibleKey)

namespace Scanner

def start (text : List Char) : Scanner :=
  let cursor := Cursor.start text
  { cursor := if text.head? == some '\ufeff' then cursor.next else cursor
    tokens := [], flow := 0, indent := -1, indents := [], keyAllowed := true, keys := [none] }

def fault {α : Type} (s : Scanner) : Except Fault α := .error s.cursor.fault

def emit (s : Scanner) (t : Token) : Scanner := { s with tokens := s.tokens ++ [t] }

def insertAt (s : Scanner) (n : Nat) (t : Token) : Scanner :=
  { s with tokens := s.tokens.take n ++ t :: s.tokens.drop n }

def move (s : Scanner) (c : Cursor) : Scanner := { s with cursor := c }

/-! ### Indentation -/

/-- Closes blocks that are indented further than a column. -/
def unwindTo (column : Int) : List Int → Scanner → Scanner
  | [], s => s
  | outer :: indents, s =>
      if column < s.indent then
        unwindTo column indents { s.emit .blockEnd with indent := outer, indents := indents }
      else s

def unwind (s : Scanner) (column : Int) : Scanner :=
  if s.flow == 0 then unwindTo column s.indents s else s

/-- Whether a block begins at a column, and the scanner inside of it. -/
def indentTo (s : Scanner) (column : Nat) : Bool × Scanner :=
  if s.indent < column then
    (true, { s with indent := column, indents := s.indent :: s.indents })
  else (false, s)

/-! ### Possible keys -/

/-- A possible key goes stale at the end of its line, or after 1024 characters. -/
def isStale (s : Scanner) (k : PossibleKey) : Bool :=
  k.line != s.cursor.line || k.offset + 1024 < s.cursor.offset

def dropStale (s : Scanner) : Except Fault Scanner :=
  if s.keys.any fun k => k.any fun k => s.isStale k && k.required then s.fault
  else .ok { s with keys := s.keys.map fun k => k.filter fun k => !s.isStale k }

/-- Gives up the possible key at this level. -/
def dropKey (s : Scanner) : Except Fault Scanner :=
  match s.keys with
  | some k :: outer => if k.required then s.fault else .ok { s with keys := none :: outer }
  | _ => .ok s

/-- Notes that what comes next may be a key. -/
def saveKey (s : Scanner) : Except Fault Scanner :=
  if !s.keyAllowed then .ok s
  else do
    let s ← s.dropKey
    let c := s.cursor
    let key : PossibleKey :=
      ⟨s.tokens.length, s.flow == 0 && s.indent == c.column, c.offset, c.line, c.column⟩
    return { s with keys := some key :: s.keys.tail }

/-! ### Single tokens -/

/-- Passes over blanks, comments and line ends. After a line end a key may begin, except inside
brackets. -/
def skipGap : Nat → Scanner → Scanner
  | 0, s => s
  | fuel + 1, s =>
      let c := s.cursor.skipWhile (· == ' ')
      let c := if c.head? == some '#' then c.skipWhile fun ch => !isBreak ch else c
      match c.lineBreak? with
      | some (_, c) => skipGap fuel { s.move c with keyAllowed := s.keyAllowed || s.flow == 0 }
      | none => s.move c

/-- The mark of a document's beginning or end. -/
def separator (s : Scanner) (t : Token) : Except Fault Scanner := do
  let s ← (s.unwind (-1)).dropKey
  return { s.emit t with keyAllowed := false, cursor := s.cursor.skip 3 }

def openFlow (s : Scanner) (t : Token) : Except Fault Scanner := do
  let s ← s.saveKey
  return { s.emit t with
    flow := s.flow + 1, keys := none :: s.keys, keyAllowed := true, cursor := s.cursor.next }

def closeFlow (s : Scanner) (t : Token) : Except Fault Scanner := do
  let s ← s.dropKey
  if s.flow == 0 then s.fault
  else return { s.emit t with
    flow := s.flow - 1, keys := s.keys.tail, keyAllowed := false, cursor := s.cursor.next }

def flowEntry (s : Scanner) : Except Fault Scanner := do
  let s ← s.dropKey
  return { s.emit .flowEntry with keyAllowed := true, cursor := s.cursor.next }

/-- Opens a block at the cursor where one may begin. -/
def openBlock (s : Scanner) (t : Token) : Except Fault Scanner :=
  if s.flow != 0 then .ok s
  else if !s.keyAllowed then s.fault
  else
    let (opened, s) := s.indentTo s.cursor.column
    .ok (if opened then s.emit t else s)

def blockEntry (s : Scanner) : Except Fault Scanner := do
  let s ← (← s.openBlock .blockSequenceStart).dropKey
  return { s.emit .blockEntry with keyAllowed := true, cursor := s.cursor.next }

def explicitKey (s : Scanner) : Except Fault Scanner := do
  let s ← (← s.openBlock .blockMappingStart).dropKey
  return { s.emit .key with keyAllowed := s.flow == 0, cursor := s.cursor.next }

/-- A colon makes a key of the possible key before it, or else stands by itself. -/
def colon (s : Scanner) : Except Fault Scanner := do
  match s.keys with
  | some k :: outer =>
      let s := { s with keys := none :: outer }.insertAt k.number .key
      let (opened, s) := if s.flow == 0 then s.indentTo k.column else (false, s)
      let s := if opened then s.insertAt k.number .blockMappingStart else s
      return { s.emit .value with keyAllowed := false, cursor := s.cursor.next }
  | _ =>
      let s ← (← s.openBlock .blockMappingStart).dropKey
      return { s.emit .value with keyAllowed := s.flow == 0, cursor := s.cursor.next }

def quoted (s : Scanner) (double : Bool) : Except Fault Scanner := do
  let s ← s.saveKey
  let (text, c) ← quotedScalar double s.cursor
  return { s.emit (.scalar text false) with keyAllowed := false, cursor := c }

def plain (s : Scanner) : Except Fault Scanner := do
  let s ← s.saveKey
  let (text, broken, c) := plainScalar (s.flow != 0) (s.indent + 1) s.cursor
  return { s.emit (.scalar text true) with keyAllowed := broken, cursor := c }

/-- Characters that cannot begin a plain scalar. -/
def isIndicator (c : Char) : Bool :=
  isFlowMark c || isWhite c ||
    ['-', '?', ':', '#', '&', '*', '!', '|', '>', '\'', '"', '%', '@', '\x60'].contains c

def beginsPlain (flow : Bool) (c : Char) (rest : List Char) : Bool :=
  !isIndicator c ||
    (!endsWord rest && (c == '-' || (!flow && (c == '?' || c == ':'))))

/-- One token, from a character on. -/
def token (s : Scanner) (c : Char) (rest : List Char) : Except Fault Scanner :=
  let inFlow := s.flow != 0
  if s.cursor.column == 0 && c == '-' && isSeparator (c :: rest) then s.separator .documentStart
  else if s.cursor.column == 0 && c == '.' && isSeparator (c :: rest) then s.separator .documentEnd
  else match c with
    | '[' => s.openFlow .sequenceStart
    | '\x7b' => s.openFlow .mappingStart
    | ']' => s.closeFlow .sequenceEnd
    | '\x7d' => s.closeFlow .mappingEnd
    | ',' => s.flowEntry
    | '\'' => s.quoted false
    | '"' => s.quoted true
    | _ =>
        if c == '-' && endsWord rest then s.blockEntry
        else if c == '?' && (inFlow || endsWord rest) then s.explicitKey
        else if c == ':' && (inFlow || endsWord rest) then s.colon
        else if beginsPlain inFlow c rest then s.plain
        else s.fault

/-! ### The whole text -/

def run : Nat → Scanner → Except Fault (List Token)
  | 0, s => s.fault
  | fuel + 1, s => do
      let s ← (s.skipGap (s.cursor.rest.length + 1)).dropStale
      let s := s.unwind s.cursor.column
      match s.cursor.rest with
      | [] => return (← (s.unwind (-1)).dropKey).tokens
      | c :: rest => run fuel (← s.token c rest)

end Scanner

/-- The characters that may stand in a YAML text. -/
def isAllowed (c : Char) : Bool :=
  let n := c.toNat
  n == 0x09 || n == 0x0a || n == 0x0d || (0x20 ≤ n && n ≤ 0x7e) || n == 0x85 ||
    (0xa0 ≤ n && n ≤ 0xfffd) || 0x10000 ≤ n

def tokens (text : List Char) : Except Fault (List Token) :=
  let s := Scanner.start text
  if text.all isAllowed then s.run (text.length + 1) else s.fault

end Phrasebook.Yaml

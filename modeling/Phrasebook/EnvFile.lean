import Phrasebook.Table
import Phrasebook.Text.Space

/-!
Files of environment variables. A line binds a name to a value, which may be plain or in quotes
and may name other variables; lines that make no sense are passed over.
-/

namespace Phrasebook.EnvFile

open Text

/-- A name and its value; a name may stand without one. -/
abbrev Binding := List Char × Option (List Char)

def isBlank (c : Char) : Bool := isSpace c && c != '\n' && c != '\r'

def skipBlanks (text : List Char) : List Char := text.dropWhile isBlank

/-- What follows the end of this line. -/
def skipLine (text : List Char) : List Char := (text.dropWhile (· != '\n')).drop 1

/-! ### Names -/

def skipExport (text : List Char) : List Char :=
  let rest := text.drop 6
  if "export".toList.isPrefixOf text && rest.head?.any isBlank then skipBlanks rest else text

/-- The name that begins a line, if it is one; a comment has none. -/
def name (text : List Char) : Except Unit (Option (List Char) × List Char) :=
  match text with
  | '#' :: _ => .ok (none, text)
  | '\'' :: rest =>
      let inside := rest.takeWhile (· != '\'')
      match rest.drop inside.length with
      | _ :: after => if inside.isEmpty then .error () else .ok (some inside, after)
      | [] => .error ()
  | _ =>
      let word := text.takeWhile fun c => c != '=' && c != '#' && !isSpace c
      if word.isEmpty then .error () else .ok (some word, text.drop word.length)

/-! ### Values -/

/-- How much of a text stands before the quote that closes it: the first one without a backslash
in front of it, or else the last one of all. -/
def insideLength? (quote : Char) : List Char → Option Nat
  | [] => none
  | c :: rest =>
      if c == quote then some 0
      else if c == '\\' && rest.head? == some quote then
        match insideEscaped rest with
        | some n => some (n + 1)
        | none => some 1
      else (insideLength? quote rest).map (· + 1)
where
  insideEscaped : List Char → Option Nat
    | [] => none
    | _ :: rest => (insideLength? quote rest).map (· + 1)

/-- The character that an escape between double quotes stands for. -/
def doubleEscape? : Char → Option Char
  | '\\' => some '\\'
  | '\'' => some '\''
  | '"' => some '"'
  | 'a' => some '\x07'
  | 'b' => some '\x08'
  | 'f' => some '\x0c'
  | 'n' => some '\n'
  | 'r' => some '\r'
  | 't' => some '\t'
  | 'v' => some '\x0b'
  | _ => none

/-- The character that an escape between single quotes stands for. -/
def singleEscape? : Char → Option Char
  | '\\' => some '\\'
  | '\'' => some '\''
  | _ => none

def unescape (escape? : Char → Option Char) : List Char → List Char
  | [] => []
  | ['\\'] => ['\\']
  | '\\' :: c :: rest =>
      match escape? c with
      | some d => d :: unescape escape? rest
      | none => '\\' :: unescape escape? (c :: rest)
  | c :: rest => c :: unescape escape? rest

def quoted (quote : Char) (text : List Char) : Except Unit (List Char × List Char) :=
  match insideLength? quote text with
  | none => .error ()
  | some n =>
      let escape? := if quote == '"' then doubleEscape? else singleEscape?
      .ok (unescape escape? (text.take n), text.drop (n + 1))

/-- Cuts off a comment: a hash sign with white space before it. -/
def cutComment : List Char → List Char
  | [] => []
  | c :: rest =>
      if isSpace c && (rest.dropWhile isSpace).head? == some '#' then []
      else c :: cutComment rest

def value (text : List Char) : Except Unit (List Char × List Char) :=
  match text with
  | '\'' :: rest => quoted '\'' rest
  | '"' :: rest => quoted '"' rest
  | _ =>
      let line := text.takeWhile (· != '\n')
      .ok (trimRight isSpace (cutComment line), text.drop line.length)

/-! ### Lines -/

/-- What follows the rest of a line that holds nothing but a comment. -/
def endLine (text : List Char) : Except (List Char) (List Char) :=
  let gap := skipBlanks text
  let rest := if gap.head? == some '#' then gap.dropWhile (· != '\n') else text
  match skipBlanks rest with
  | [] => .ok []
  | '\n' :: after => .ok after
  | _ => .error (skipLine rest)

/-- The binding of a line and the text after it, or only the text after a line without sense. -/
def binding (text : List Char) : Except (List Char) (Option Binding × List Char) :=
  let text := skipExport text
  match name text with
  | .error () => .error (skipLine text)
  | .ok (name, rest) =>
      match skipBlanks rest with
      | '=' :: after =>
          let after := skipBlanks after
          match value after with
          | .error () => .error (skipLine after)
          | .ok (v, rest) => (endLine rest).map fun rest => (name.map (·, some v), rest)
      | rest => (endLine rest).map fun rest => (name.map (·, none), rest)

def bindingsFrom : Nat → List Char → List Binding
  | 0, _ => []
  | fuel + 1, text =>
      match text.dropWhile isSpace with
      | [] => []
      | text =>
          match binding text with
          | .error rest => bindingsFrom fuel rest
          | .ok (some b, rest) => b :: bindingsFrom fuel rest
          | .ok (none, rest) => bindingsFrom fuel rest

def bindings (text : List Char) : List Binding := bindingsFrom (text.length + 1) text

/-! ### Variables -/

/-- A reference such as `NAME}` or `NAME:-default}`, without the dollar sign and the brace in
front of it: the name, the default and the length. -/
def reference? (text : List Char) : Option (List Char × List Char × Nat) :=
  let name := text.takeWhile fun c => c != '\x7d' && c != ':'
  match text.drop name.length with
  | '\x7d' :: _ => some (name, [], name.length + 1)
  | ':' :: '-' :: rest =>
      let default := rest.takeWhile (· != '\x7d')
      if default.length < rest.length then
        some (name, default, name.length + default.length + 3) else none
  | _ => none

/-- Puts the values of variables in the place of references, after passing over some characters. -/
def expandFrom (lookup : List Char → Option (Option (List Char))) : Nat → List Char → List Char
  | _, [] => []
  | n + 1, _ :: rest => expandFrom lookup n rest
  | 0, '$' :: '\x7b' :: rest =>
      match reference? rest with
      | some (name, default, n) =>
          ((lookup name).getD (some default)).getD [] ++ expandFrom lookup (n + 1) ('\x7b' :: rest)
      | none => '$' :: expandFrom lookup 0 ('\x7b' :: rest)
  | 0, c :: rest => c :: expandFrom lookup 0 rest

/-- The values of a file. A reference means what the name was last bound to above, or else the
variable of the environment around. -/
def resolve (environment : Table (List Char) (List Char)) (bs : List Binding) :
    Table (List Char) (Option (List Char)) :=
  bs.foldl (fun known b =>
    let lookup (name : List Char) : Option (Option (List Char)) :=
      (known.get? name).orElse fun _ => (environment.get? name).map some
    known.put b.1 (b.2.map (expandFrom lookup 0))) []

def load (environment : Table (List Char) (List Char)) (text : List Char) :
    Table (List Char) (Option (List Char)) :=
  resolve environment (bindings text)

end Phrasebook.EnvFile

import Phrasebook.Text.Digit
import Phrasebook.Yaml.Cursor

/-!
Scalars as they are written: plain, between single quotes and between double quotes. A line end
inside a scalar becomes a blank, and each empty line after it a line feed.
-/

namespace Phrasebook.Yaml

open Text

/-- What a line end and the empty lines after it stand for. -/
def foldBreaks (first : Char) (others : List Char) : List Char :=
  if first != '\n' then first :: others
  else if others.isEmpty then [' ']
  else others

/-! ### Quoted scalars -/

/-- Passes over indentation and empty lines inside quotes. -/
def quotedBreaks : Nat → Cursor → Except Fault (List Char × Cursor)
  | 0, c => .error c.fault
  | fuel + 1, c =>
      if isSeparator c.rest then .error c.fault
      else
        let c := c.skipWhile fun ch => ch == ' ' || ch == '\t'
        match c.lineBreak? with
        | some (b, c) => (quotedBreaks fuel c).map fun (bs, c) => (b :: bs, c)
        | none => .ok ([], c)

/-- Characters that one letter after a backslash stands for. -/
def simpleEscape? : Char → Option Char
  | '0' => some '\x00'
  | 'a' => some '\x07'
  | 'b' => some '\x08'
  | 't' | '\t' => some '\t'
  | 'n' => some '\n'
  | 'v' => some '\x0b'
  | 'f' => some '\x0c'
  | 'r' => some '\r'
  | 'e' => some '\x1b'
  | ' ' => some ' '
  | '"' => some '"'
  | '\\' => some '\\'
  | '/' => some '/'
  | 'N' => some '\x85'
  | '_' => some '\xa0'
  | 'L' => some '\u2028'
  | 'P' => some '\u2029'
  | _ => none

/-- How many digits follow a letter that begins a numeric escape. -/
def numericEscape? : Char → Option Nat
  | 'x' => some 2
  | 'u' => some 4
  | 'U' => some 8
  | _ => none

/-- An escape, from the character after the backslash on. -/
def escape (fuel : Nat) (c : Cursor) : Except Fault (List Char × Cursor) :=
  match c.rest with
  | [] => .error c.fault
  | ch :: rest =>
      match simpleEscape? ch, numericEscape? ch with
      | some r, _ => .ok ([r], c.next)
      | none, some n =>
          let digits := rest.take n
          let code := numeral 16 digits
          if digits.length == n && digits.all isHex then
            match Escape.codePoint code with
            | .error f => .error (.impossible (.character f))
            | .ok _ =>
                if code.isValidChar then .ok ([Char.ofNat code], c.skip (n + 1))
                else .error c.fault
          else .error c.fault
      | none, none =>
          match c.lineBreak? with
          | some (_, c) => quotedBreaks fuel c
          | none => .error c.fault

/-- The white space between two words inside quotes. -/
def quotedSpaces (fuel : Nat) (c : Cursor) : Except Fault (List Char × Cursor) :=
  let blanks := c.rest.takeWhile fun ch => ch == ' ' || ch == '\t'
  let c := c.skip blanks.length
  if c.rest.isEmpty then .error c.fault
  else match c.lineBreak? with
    | some (b, c) => (quotedBreaks fuel c).map fun (bs, c) => (foldBreaks b bs, c)
    | none => .ok (blanks, c)

/-- The inside of a quoted scalar up to and with its closing quote. -/
def quotedFrom (double : Bool) : Nat → Cursor → Except Fault (List Char × Cursor)
  | 0, c => .error c.fault
  | fuel + 1, c =>
      let quote := if double then '"' else '\''
      match c.rest with
      | [] => .error c.fault
      | ch :: rest =>
          if !double && ch == quote && rest.head? == some quote then
            (quotedFrom double fuel (c.skip 2)).map fun (t, c) => (quote :: t, c)
          else if ch == quote then .ok ([], c.next)
          else
            let piece :=
              if double && ch == '\\' then escape fuel c.next
              else if isWhite ch then quotedSpaces fuel c
              else .ok ([ch], c.next)
            match piece with
            | .error f => .error f
            | .ok (s, c) => (quotedFrom double fuel c).map fun (t, c) => (s ++ t, c)

/-- A quoted scalar, from its opening quote on. -/
def quotedScalar (double : Bool) (c : Cursor) : Except Fault (List Char × Cursor) :=
  quotedFrom double (c.rest.length + 1) c.next

/-! ### Plain scalars -/

def isFlowMark (c : Char) : Bool := [',', '[', ']', '\x7b', '\x7d'].contains c

/-- Whether a colon before this text ends a key. -/
def endsKey (flow : Bool) (text : List Char) : Bool :=
  endsWord text || (flow && text.head?.any isFlowMark)

/-- How far a plain scalar goes without white space. -/
def plainLength (flow : Bool) : List Char → Nat
  | [] => 0
  | c :: rest =>
      if isWhite c || (c == ':' && endsKey flow rest) || (flow && (isFlowMark c || c == '?')) then 0
      else plainLength flow rest + 1

/-- Passes over empty lines and indentation; nothing if a document ends there. -/
def plainBreaks : Nat → Cursor → Option (List Char) × Cursor
  | 0, c => (none, c)
  | fuel + 1, c =>
      if c.head? == some ' ' then plainBreaks fuel c.next
      else match c.lineBreak? with
        | none => (some [], c)
        | some (b, c) =>
            if isSeparator c.rest then (none, c)
            else
              let (bs, c) := plainBreaks fuel c
              (bs.map (b :: ·), c)

/-- The white space after a word of a plain scalar: what it stands for if more follows, whether
it goes over a line end, and where it ends. -/
def plainSpaces (c : Cursor) : Option (List Char) × Bool × Cursor :=
  let blanks := c.rest.takeWhile (· == ' ')
  let c := c.skip blanks.length
  match c.lineBreak? with
  | none => (if blanks.isEmpty then none else some blanks, false, c)
  | some (b, c) =>
      if isSeparator c.rest then (none, true, c)
      else
        let (bs, c) := plainBreaks (c.rest.length + 1) c
        (bs.map (foldBreaks b), true, c)

/-- A plain scalar from a word on, given the white space before the word. It ends at a comment,
and outside of brackets at a line that is not indented enough. -/
def plainFrom (flow : Bool) (indent : Int) :
    Nat → List Char → Bool → Cursor → List Char × Bool × Cursor
  | 0, _, broken, c => ([], broken, c)
  | fuel + 1, spaces, broken, c =>
      let n := plainLength flow c.rest
      if c.head? == some '#' || n == 0 then ([], broken, c)
      else
        let word := spaces ++ c.rest.take n
        let (more, broken, c) := plainSpaces (c.skip n)
        match more with
        | none => (word, broken, c)
        | some spaces =>
            if c.head? == some '#' || (!flow && (c.column : Int) < indent) then (word, broken, c)
            else
              let (text, broken, c) := plainFrom flow indent fuel spaces broken c
              (word ++ text, broken, c)

/-- A plain scalar, and whether a line end was passed after its last word. -/
def plainScalar (flow : Bool) (indent : Int) (c : Cursor) : List Char × Bool × Cursor :=
  plainFrom flow indent (c.rest.length + 1) [] false c

end Phrasebook.Yaml

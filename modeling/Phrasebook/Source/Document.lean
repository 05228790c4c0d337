import Phrasebook.Path
import Phrasebook.Source.Grammar
import Phrasebook.Source.Position

/-!
A source file that has been read: its text and its tree. A file with a syntax error is never
one; the error says where the text stops making sense.
-/

namespace Phrasebook.Source

/-- The last of the file name decides: plain files cannot hold markup. -/
def Dialect.ofPath (path : String) : Dialect :=
  let suffix := (Path.ofString path).suffix.map Char.toLower
  if [".ts".toList, ".mts".toList, ".cts".toList].contains suffix then .plain else .markup

structure SyntaxError where
  /-- A block was never closed, rather than something being in the wrong place. -/
  unclosed : Bool
  position : Position
  deriving DecidableEq, Repr

namespace SyntaxError

def ofFault (text : List Char) (f : Fault) : SyntaxError :=
  match f.unclosed with
  | some offset => ⟨true, .ofOffset text offset⟩
  | none => ⟨false, .ofOffset text f.reach⟩

def message (e : SyntaxError) : String :=
  let what := if e.unclosed then "Missing token" else "Syntax error"
  s!"{what} at line {e.position.line}, column {e.position.column}."

end SyntaxError

structure Document where
  text : List Char
  nodes : List Node

namespace Document

def parse (path : Option String) (text : List Char) : Except SyntaxError Document :=
  let dialect := match path with
    | some p => Dialect.ofPath p
    | none => .markup
  match Source.parse dialect text with
  | .ok nodes => .ok ⟨text, nodes⟩
  | .error f => .error (.ofFault text f)

def excerpt (d : Document) (span : Span) : List Char := Source.excerpt d.text span

def position (d : Document) (offset : Nat) : Position := .ofOffset d.text offset

end Document

/-- What reads files: the end of the name may decide how the text is read. -/
abbrev Parser := Option String → List Char → Except SyntaxError Document

end Phrasebook.Source

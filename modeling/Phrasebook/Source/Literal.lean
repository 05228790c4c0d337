import Phrasebook.Source.Document
import Phrasebook.Text.CharacterReference
import Phrasebook.Text.Escape

/-!
Literals: runs of markup text, quoted strings and templates without substitutions, each with its
decoded value. They are listed in reading order.
-/

namespace Phrasebook.Source

open Text

inductive LiteralKind where
  | text
  | string
  | template
  deriving DecidableEq, Repr

structure Literal where
  kind : LiteralKind
  value : Points
  position : Position
  span : Span
  /-- What a translation call replaces: all of a string or template, a run without the white
  space around it. -/
  content : Span
  inAttribute : Bool
  isKey : Bool
  deriving DecidableEq, Repr

/-- A quoted text without its quotes. -/
def unquoted (text : List Char) : List Char := text.tail.dropLast

namespace Node

def isSubstitution (n : Node) : Bool := n.isBranch .substitution

/-- The value of a string with its quotes, by where it stands. -/
def stringValue (place : Place) (quoted : List Char) : Except Escape.Fault Points :=
  if place = .attribute then .ok (Points.ofChars (CharacterReference.decode (unquoted quoted)))
  else Escape.decode (unquoted quoted)

/-- The value of a template with the given parts. -/
def templateValue (parts : List Node) : Except Escape.Fault Points :=
  Escape.decode (Escape.unifyLineEnds (parts.flatMap text))

end Node

namespace Document

/-- All nodes in reading order. -/
def all (d : Document) : List Node := Node.preorderAll d.nodes

def runLiteral (d : Document) (start : Nat) (raw : List Char) : Literal :=
  let margin := byteLength (leftMargin isSpace raw)
  { kind := .text, value := Points.ofChars (CharacterReference.decode raw),
    position := d.position start, span := ⟨start, start + byteLength raw⟩,
    content := ⟨start + margin, start + margin + byteLength (strip raw)⟩,
    inAttribute := false, isKey := false }

/-- A string or template. -/
def quotedLiteral (d : Document) (kind : LiteralKind) (span : Span) (inAttribute isKey : Bool)
    (value : Points) : Literal :=
  { kind, value, position := d.position span.start, span, content := span, inAttribute, isKey }

/-- The literal that a node is, if it is one; decoding its escapes may fail. The type keyword
`string` reads like a quoted string of its inner letters. -/
def literalAt (d : Document) (n : Node) : Option (Except Escape.Fault Literal) :=
  match n with
  | .run start raw => some (.ok (d.runLiteral start raw))
  | .leaf (.string place) _ raw =>
      if place = .specifier then none
      else some ((Node.stringValue place raw).map
        (d.quotedLiteral .string n.span (place = .attribute) (place = .key)))
  | .leaf .stringKeyword _ raw =>
      some ((Node.stringValue .value raw).map (d.quotedLiteral .string n.span false false))
  | .branch .template span parts =>
      if parts.any Node.isSubstitution then none
      else some ((Node.templateValue parts).map (d.quotedLiteral .template span false false))
  | _ => none

/-- All literals in reading order, each with the outcome of decoding it. -/
def literals (d : Document) : List (Except Escape.Fault Literal) := d.all.filterMap d.literalAt

/-- The first literal at a position whose text is the given one but for white space around it.
Literals before it must decode. -/
def locate (d : Document) (text : List Char) (line column : Int) :
    Except Escape.Fault (Option Literal) :=
  search d.literals
where
  search : List (Except Escape.Fault Literal) → Except Escape.Fault (Option Literal)
    | [] => .ok none
    | .error f :: _ => .error f
    | .ok l :: following =>
        if l.position.line = line && l.position.column = column &&
            Points.strip l.value == Points.ofChars (strip text) then
          .ok (some l)
        else search following

end Document

end Phrasebook.Source

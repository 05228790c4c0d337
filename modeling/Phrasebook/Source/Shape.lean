import Phrasebook.Source.Lexeme
import Phrasebook.Source.Node
import Phrasebook.Source.Token

/-!
Shapes: trees of a source file that have no place in it yet. A shape keeps all its tokens, those
too that are no node, so the places of its nodes follow from where it begins.
-/

namespace Phrasebook.Source

inductive Shape where
  /-- A token, which may be a leaf. -/
  | token (kind : Option Leaf) (t : Token)
  /-- A run of element text. -/
  | run (t : Token)
  | node (kind : Construct) (parts : List Shape)
  deriving Repr

namespace Shape

mutual

def tokens : Shape → List Token
  | token _ t => [t]
  | run t => [t]
  | node _ parts => tokensAll parts

def tokensAll : List Shape → List Token
  | [] => []
  | s :: following => s.tokens ++ tokensAll following

end

def width (s : Shape) : Nat := addUp (s.tokens.map Token.width)

/-- The bytes of white space before a shape. -/
def lead (s : Shape) : Nat :=
  match s.tokens with
  | first :: _ => byteLength first.gap
  | [] => 0

mutual

/-- The nodes of a shape whose white space begins at an offset. -/
def nodes (offset : Nat) : Shape → List Node
  | token none _ => []
  | token (some kind) t => [.leaf kind (offset + byteLength t.gap) t.text]
  | run t => [.run (offset + byteLength t.gap) t.text]
  | node kind parts =>
      [.branch kind ⟨offset + (node kind parts).lead, offset + (node kind parts).width⟩
        (nodesAll offset parts)]

/-- The nodes of shapes in a row. -/
def nodesAll (offset : Nat) : List Shape → List Node
  | [] => []
  | s :: following => s.nodes offset ++ nodesAll (offset + s.width) following

end

mutual

/-- Puts in what stands for the parts that have been read on their own. -/
def fill (table : List (List Shape)) : Shape → List Shape
  | token kind t =>
      match t.kind with
      | .nested _ index => table.getD index []
      | _ => [token kind t]
  | run t => [run t]
  | node kind parts => [node kind (fillAll table parts)]

def fillAll (table : List (List Shape)) : List Shape → List Shape
  | [] => []
  | s :: following => s.fill table ++ fillAll table following

end

/-! ### Element text -/

/-- A stretch of element text in the given form, if there is any. -/
def stretch (form : Token → Shape) (text : List Char) : List Shape :=
  if text.isEmpty then [] else [form ⟨.text, [], text⟩]

/-- The run of an element text, with the layout around it. -/
def ofText (text : List Char) : List Shape :=
  let before := Lexeme.layoutBefore text
  let middle := Lexeme.textRun text
  stretch (token none) before ++ stretch run middle ++
    stretch (token none) (text.drop (before.length + middle.length))

end Shape

end Phrasebook.Source

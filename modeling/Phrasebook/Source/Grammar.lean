import Phrasebook.Source.Grammar.Markup
import Phrasebook.Source.Grammar.Statement
import Phrasebook.Source.Lexer
import Phrasebook.Source.Tree

/-!
The grammar as a whole: a rule for every goal, and reading a file by it.

The trees of a file are read from the inside out. Code is read from its outline, in which an
element is a single token; the content of an element is read part by part. So what is in an
element decides nothing about the code around it.
-/

namespace Phrasebook.Source

def grammar (dialect : Dialect) : Goal → Rule Goal
  | .section => Grammar.fileSection
  | .statement => Grammar.statement
  | .block => Grammar.block
  | .expression typed => Grammar.expression typed
  | .sequence => Grammar.sequence
  | .unary => Grammar.unary dialect
  | .primary => Grammar.primary
  | .arguments => Grammar.arguments
  | .template => Goal.quoted .template (.goal .sequence)
  | .object => Grammar.object
  | .functionExpression => Grammar.functionExpression
  | .classExpression => Grammar.classExpression
  | .pattern assigned => Grammar.pattern assigned
  | .parameters => Grammar.parameters
  | .type => Grammar.type
  | .typeOperand => Grammar.typeOperand
  | .typeArguments => Grammar.typeArguments
  | .typeParameters => Grammar.typeParameters
  | .objectType => Grammar.objectType
  | .openingTag => Grammar.openingTag
  | .closingTag => Grammar.closingTag
  | .hole => Grammar.hole

/-- More than the depth to which goals can nest in so many tokens: between two goals that begin at
the same place no goal comes twice. What is left at any place is more than the tokens left. -/
def depth (tokens : List Token) : Nat := 32 * (tokens.length + 1)

/-- Reads all of the tokens as a goal. -/
def readAll (dialect : Dialect) (goal : Goal) (tokens : List Token) : Except Stuck (List Shape) :=
  match read (grammar dialect) (depth tokens) goal (.start tokens) with
  | .ok s => .ok s.skip.shapes.reverse
  | .error f => .error f

/-- A place in a text, in bytes, where it stops making sense, and, if it ends inside a block, the
end of the last token of the block. -/
structure Fault where
  reach : Nat
  unclosed : Option Nat
  deriving DecidableEq, Repr, Inhabited

namespace Fault

/-- The same place, `bytes` further on. -/
def shift (bytes : Nat) (f : Fault) : Fault :=
  ⟨bytes + f.reach, f.unclosed.map (bytes + ·)⟩

/-- The first of two places. -/
def earlier (a b : Fault) : Fault := if b.reach < a.reach then b else a

/-- The fault of a token that cannot stand where it does. -/
def ofToken (t : Token) : Fault :=
  match t.kind with
  | .broken sound => ⟨byteLength t.gap + byteLength (t.text.take sound), none⟩
  | _ => ⟨byteLength t.gap, none⟩

/-- The place where reading got stuck in trees. -/
def ofStuck (trees : List Tree) (f : Stuck) : Fault :=
  let offset (n : Nat) : Nat := addUp ((trees.take n).map Tree.width)
  let found := match trees.drop f.reach with
    | .token t :: _ => ofToken t
    | t :: _ => ⟨byteLength t.gap, none⟩
    | [] => ⟨0, none⟩
  ⟨offset f.reach + found.reach, f.unclosed.map offset⟩

end Fault

/-- A tree with what it reads as on its own. -/
abbrev Part := Tree × Except Fault (List Shape)

namespace Part

def width (parts : List Part) : Nat := addUp (parts.map fun p => p.1.width)

/-- The shapes of parts in a row, or the first fault among them. -/
def shapes : List Part → Except Fault (List (List Shape))
  | [] => .ok []
  | (_, .error f) :: _ => .error f
  | (tree, .ok first) :: following =>
      match shapes following with
      | .ok others => .ok (first :: others)
      | .error f => .error (f.shift tree.width)

/-- Reads parts in a row as a goal: the goal is read from their outline, and where the outline
shows a part that is read on its own the shapes of the part are put in. -/
def readAs (dialect : Dialect) (goal : Goal) (parts : List Part) : Except Fault (List Shape) :=
  let trees := parts.map Prod.fst
  match readAll dialect goal (Tree.outline 0 trees), shapes parts with
  | .ok outline, .ok table => .ok (Shape.fillAll table outline)
  | .ok _, .error f => .error f
  | .error stuck, .ok _ => .error (.ofStuck trees stuck)
  | .error stuck, .error f => .error (.earlier (.ofStuck trees stuck) f)

/-- What may stand between the tags of an element. -/
def isContent (p : Part) : Bool :=
  match p.1 with
  | .token t => t.kind == .text
  | _ => true

/-- The shapes between the tags of an element and those of the closing tag. -/
def readContent (dialect : Dialect) (parts : List Part) : Except Fault (List Shape) :=
  let content := parts.takeWhile isContent
  match shapes content, readAs dialect .closingTag (parts.dropWhile isContent) with
  | .ok inner, .ok closing => .ok (inner.flatten ++ closing)
  | .error f, _ => .error f
  | .ok _, .error f => .error (f.shift (width content))

/-- Whether the content of an element begins after a part. -/
def endsTag (p : Part) : Bool := p.1.isToken .tagEnd

/-- The shape of an element. -/
def readElement (dialect : Dialect) (parts : List Part) : Except Fault (List Shape) :=
  let opening := parts.takeWhile (!endsTag ·)
  match parts.dropWhile (!endsTag ·) with
  | [] => (readAs dialect .openingTag opening).map fun tag => [.node .element tag]
  | tagEnd :: following =>
      match readAs dialect .openingTag (opening ++ [tagEnd]) with
      | .error f => .error f
      | .ok tag =>
          match readContent dialect following with
          | .ok content => .ok [.node .element (tag ++ content)]
          | .error f => .error (f.shift (width (opening ++ [tagEnd])))

end Part

namespace Tree

/-- The shapes of a token that is read on its own. -/
def tokenShapes (t : Token) : List Shape :=
  match t.kind with
  | .text => Shape.ofText t.chars
  | .attribute => [.token (some (.string .attribute)) t]
  | _ => [.token none t]

/-- A token among the parts that are read on their own. -/
def tokenPart (t : Token) : Part := (.token t, .ok (tokenShapes t))

/-- Parts with what opens and closes them. -/
def row (opening : Token) (parts : List Part) (ending : Option Token) : List Part :=
  tokenPart opening :: parts ++ ending.toList.map tokenPart

/-- Reads what a token opens, given its parts. -/
def readNested (dialect : Dialect) (opening : Token) (parts : List Part) (ending : Option Token) :
    Except Fault (List Shape) :=
  match opening.kind with
  | .hole _ => Part.readAs dialect .hole (row opening parts ending)
  | _ => Part.readElement dialect (row opening parts ending)

mutual

/-- Reads a tree on its own. -/
def read (dialect : Dialect) : Tree → Except Fault (List Shape)
  | token t => .ok (tokenShapes t)
  | nested opening parts ending => readNested dialect opening (readEach dialect parts) ending

/-- Reads each of some trees on its own. -/
def readEach (dialect : Dialect) : List Tree → List Part
  | [] => []
  | t :: following => (t, t.read dialect) :: readEach dialect following

end

/-! ### Sections -/

/-- Cuts trees before each import at the top of the file. -/
def sections : List Tree → List (List Tree)
  | [] => [[]]
  | t :: following =>
      match sections following with
      | first :: others =>
          if t.isToken .importWord then [] :: (t :: first) :: others else (t :: first) :: others
      | [] => [[t]]

/-- The end of a section before another. -/
def border : List (List Tree) → List Tree
  | (t :: _) :: _ => [.token ⟨.border, t.gap, []⟩]
  | _ => []

/-- The nodes of sections that begin at an offset. -/
def readSections (dialect : Dialect) (offset : Nat) : List (List Tree) → Except Fault (List Node)
  | [] => .ok []
  | first :: others =>
      match Part.readAs dialect .section (readEach dialect (first ++ border others)) with
      | .error f => .error (f.shift offset)
      | .ok shapes =>
          (readSections dialect (offset + addUp (first.map Tree.width)) others).map
            (Shape.nodesAll offset shapes ++ ·)

end Tree

/-- The statements and comments of a file. -/
def parse (dialect : Dialect) (text : List Char) : Except Fault (List Node) :=
  Tree.readSections dialect 0
    (Tree.sections (Tree.ofTokens (tokens (dialect == .markup) text)))

end Phrasebook.Source

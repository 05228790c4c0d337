import Phrasebook.Source.Token

/-!
The tree of a source file, cut down to what decides where interface text stands.

A leaf is a token that means something here, with its text; a run is a stretch of element text; a
branch is a construct with its parts in reading order. Constructs that matter to nobody here
(operators, control flow, types) are plain groups, so the tree keeps the nesting of the file without
naming all of its grammar. Comments are leaves too.
-/

namespace Phrasebook.Source

/-- A stretch of the file, as offsets into its UTF-8 bytes. -/
structure Span where
  start : Nat
  stop : Nat
  deriving DecidableEq, Repr, Inhabited

/-- Where a quoted string stands. A `specifier` names a module or is itself a type, so it is
never interface text. -/
inductive Place where
  | value
  | attribute
  | key
  | specifier
  deriving DecidableEq, Repr

inductive Leaf where
  | hashBang
  | comment
  /-- An identifier, or `this`. -/
  | name
  /-- The name of a property, in a member access or in a pair of an object. -/
  | property
  | privateName
  | string (place : Place)
  /-- The keyword `string` in a type. -/
  | stringKeyword
  /-- Characters of a template. -/
  | chunk
  /-- Anything else. -/
  | other
  deriving DecidableEq, Repr

/-- Whether a leaf can be made of a token. -/
def Leaf.admits (kind : Leaf) (t : Token) : Bool :=
  match kind with
  | hashBang => t.kind == .hashBang
  | comment => t.kind == .comment
  | name | property => t.kind == .word
  | privateName => t.kind == .privateWord
  | string .attribute => t.kind == .attribute
  | string _ => t.kind == .string
  | stringKeyword => t.isWord "string"
  | chunk => t.kind == .chunk
  | other => true

inductive Construct where
  /-- An expression that is a statement of its own. -/
  | expressionStatement
  | importDeclaration (typeOnly : Bool)
  | importClause
  | namedImports
  | namespaceImport
  | importSpecifier (typeOnly : Bool)
  | member
  /-- An index or non-null access. -/
  | indexed
  | parenthesized
  /-- A call or a tagged template: the callee comes first, the arguments or the template last. -/
  | call
  | arguments
  | object
  /-- A `key: value` entry of an object expression. -/
  | pair
  | template
  /-- The part of a template that is an expression. -/
  | substitution
  /-- A markup element: its tags, and between them its text and its other children. -/
  | element
  /-- Anything else. -/
  | group
  deriving DecidableEq, Repr

inductive Node where
  | leaf (kind : Leaf) (start : Nat) (text : List Char)
  /-- The characters, references and ampersands of an element from one tag or brace to the next,
  without the layout around them. -/
  | run (start : Nat) (text : List Char)
  | branch (kind : Construct) (span : Span) (children : List Node)
  deriving Repr

namespace Node

instance : Inhabited Node := ⟨leaf .other 0 []⟩

def span : Node → Span
  | leaf _ start text => ⟨start, start + byteLength text⟩
  | run start text => ⟨start, start + byteLength text⟩
  | branch _ span _ => span

def start (n : Node) : Nat := n.span.start

def stop (n : Node) : Nat := n.span.stop

def children : Node → List Node
  | branch _ _ children => children
  | _ => []

/-- The text of a leaf or a run. -/
def text : Node → List Char
  | leaf _ _ text => text
  | run _ text => text
  | branch _ _ _ => []

def isLeaf (kind : Leaf) : Node → Bool
  | leaf k _ _ => k == kind
  | _ => false

def isBranch (kind : Construct) : Node → Bool
  | branch k _ _ => k == kind
  | _ => false

mutual

/-- A node and all below it, in reading order, what contains before what it contains. -/
def preorder : Node → List Node
  | leaf kind start text => [leaf kind start text]
  | run start text => [run start text]
  | branch kind span children => branch kind span children :: preorderAll children

/-- The same for nodes in a row. -/
def preorderAll : List Node → List Node
  | [] => []
  | n :: following => n.preorder ++ preorderAll following

end

end Node

end Phrasebook.Source

import Phrasebook.Edit
import Phrasebook.Source.Document

/-!
Imports of the translation function. A binding is added to a declaration that already imports
from its module, or else written as a declaration of its own, in the style of the file, after
the directives and the detached comments at the top.
-/

namespace Phrasebook

open Text Source

inductive ImportKind where
  | named
  | default
  deriving DecidableEq, Repr

def ImportKind.ofString? : String → Option ImportKind
  | "named" => some .named
  | "default" => some .default
  | _ => none

def ImportKind.name : ImportKind → String
  | .named => "named"
  | .default => "default"

/-- A symbol to import from a module. -/
structure ImportBinding where
  source : List Char
  symbol : List Char
  kind : ImportKind
  deriving DecidableEq, Repr

/-- How the imports of a file are written. -/
structure ImportStyle where
  quote : Char
  semicolon : List Char
  padding : List Char
  newline : List Char
  deriving DecidableEq, Repr

def ImportStyle.standard : ImportStyle := ⟨'"', [';'], [' '], ['\n']⟩

namespace ImportBinding

/-- The part of a declaration that names the symbol. -/
def clause (b : ImportBinding) (style : ImportStyle) : List Char :=
  match b.kind with
  | .default => b.symbol
  | .named => '\x7b' :: style.padding ++ b.symbol ++ style.padding ++ ['\x7d']

/-- A declaration of its own, without a line end. -/
def render (b : ImportBinding) (style : ImportStyle) : List Char :=
  "import ".toList ++ b.clause style ++ " from ".toList ++
    style.quote :: Escape.specifierBody style.quote b.source ++ style.quote :: style.semicolon

end ImportBinding

namespace Source.Node

def isImport : Node → Bool
  | branch (.importDeclaration _) _ _ => true
  | _ => false

/-- The module that a declaration imports from, as it is quoted. A declaration that requires its
module instead has none. -/
def importSource? (n : Node) : Option Node := n.children.find? (·.isLeaf (.string .specifier))

def importClause? (n : Node) : Option Node := n.children.find? (·.isBranch .importClause)

/-- The name that a clause imports the module itself as. -/
def defaultName? (clause : Node) : Option Node := clause.children.find? (·.isLeaf .name)

def namedImports? (clause : Node) : Option Node :=
  clause.children.find? (·.isBranch .namedImports)

def namespaceImport? (clause : Node) : Option Node :=
  clause.children.find? (·.isBranch .namespaceImport)

def isSpecifier : Node → Bool
  | branch (.importSpecifier _) _ _ => true
  | _ => false

/-- A statement that is nothing but a string. -/
def isDirective : Node → Bool
  | branch .expressionStatement _ [leaf (.string _) _ _] => true
  | _ => false

def isComment (n : Node) : Bool := n.isLeaf .comment

/-- Whether a specifier imports a symbol under its own name. -/
def specifierBinds (symbol : List Char) (specifier : Node) : Bool :=
  specifier.isBranch (.importSpecifier false) &&
    match specifier.children.filter (!·.isComment) with
    | [name] => name.text == symbol
    | name :: other :: _ => name.text == symbol && other.text == symbol
    | [] => false

/-- Whether a declaration already has the binding. -/
def binds (b : ImportBinding) (declaration : Node) : Bool :=
  match declaration.importClause? with
  | none => false
  | some clause =>
      match b.kind with
      | .default => clause.defaultName?.any fun n => n.text == b.symbol
      | .named => clause.namedImports?.any fun named => named.children.any (specifierBinds b.symbol)

end Source.Node

namespace Source.Document

def newline (d : Document) : List Char :=
  if endsLinesTwice d.text then ['\r', '\n'] else ['\n']
where
  endsLinesTwice : List Char → Bool
    | '\r' :: '\n' :: _ => true
    | _ :: r => endsLinesTwice r
    | [] => false

/-- The style of one declaration. -/
def styleOf (d : Document) (declaration source : Node) : ImportStyle :=
  let text := trimRight isSpace (d.excerpt declaration.span)
  let named := declaration.importClause?.bind Node.namedImports?
  let tight := named.any fun n =>
    !n.children.isEmpty && !"\x7b ".toList.isPrefixOf (d.excerpt n.span)
  { quote := source.text.headD '"'
    semicolon := if text.getLast? == some ';' then [';'] else []
    padding := if tight then [] else [' ']
    newline := d.newline }

/-- The style of the first declaration that names a module. -/
def importStyle (d : Document) : ImportStyle :=
  (d.nodes.findSome? fun n =>
    if n.isImport then n.importSource?.map (d.styleOf n) else none).getD
    { ImportStyle.standard with newline := d.newline }

/-- Declarations that import values from a module, type imports left out. -/
def importsFrom (d : Document) (source : List Char) : Except Escape.Fault (List Node) :=
  d.nodes.filterM fun n =>
    match n.isBranch (.importDeclaration false), n.importSource? with
    | true, some module =>
        (Node.stringValue .specifier module.text).map (· == Points.ofChars source)
    | _, _ => .ok false

def insertion (offset : Nat) (text : List Char) : Edit := ⟨offset, offset, text⟩

/-- The edit that adds a binding to a declaration, if it has room for it. -/
def augment (b : ImportBinding) (style : ImportStyle) (declaration : Node) : Option Edit :=
  match declaration.importClause? with
  | none =>
      some (insertion (declaration.start + "import".length)
        (' ' :: b.clause style ++ " from".toList))
  | some clause =>
      let defaultName := clause.defaultName?
      match b.kind with
      | .default =>
          if defaultName.isSome then none
          else some (insertion clause.start (b.symbol ++ ", ".toList))
      | .named =>
          match clause.namedImports?, clause.namespaceImport?, defaultName with
          | some named, _, _ =>
              match (named.children.filter Node.isSpecifier).getLast? with
              | none => some ⟨named.start, named.stop, b.clause style⟩
              | some last => some (insertion last.stop (", ".toList ++ b.symbol))
          | none, some _, _ => none
          | none, none, some name => some (insertion name.stop (", ".toList ++ b.clause style))
          | none, none, none => none

/-- The number of the line that holds an offset. -/
def lineOf (d : Document) (offset : Nat) : Nat := (d.position offset).line

/-- How many of the statements after `before` are comments that a new declaration leaves above:
those at the end of a line with something on it, and those with a blank line below. -/
def headerLength (d : Document) (before : Option Node) : List Node → Nat
  | [] => 0
  | n :: following =>
      if !n.isComment then 0
      else
        let trailing := before.any fun p => d.lineOf n.start == d.lineOf p.stop
        let detached := following.head?.any fun f => d.lineOf n.stop + 2 ≤ d.lineOf f.start
        if trailing || detached then d.headerLength (some n) following + 1 else 0

def isPrologue (n : Node) : Bool := n.isLeaf .hashBang || n.isDirective

/-- The offset of the first character of a line. -/
def lineStart (d : Document) (offset : Nat) : Nat :=
  let line := (takeBytes offset d.text).reverse.takeWhile (· != '\n')
  offset - byteLength line

/-- How many statements a new declaration leaves above: the prologue, and the comments that belong
to no statement. -/
def aboveLength (d : Document) : Nat :=
  let prologue := d.nodes.takeWhile isPrologue
  prologue.length + d.headerLength prologue.getLast? (d.nodes.drop prologue.length)

/-- Puts a declaration below what it leaves above. -/
def insertDeclaration (d : Document) (style : ImportStyle) (text : List Char) : Edit :=
  match d.nodes.drop d.aboveLength, (d.nodes.take d.aboveLength).getLast? with
  | target :: _, _ =>
      let start := d.lineStart target.start
      if isBlankText (d.excerpt ⟨start, target.start⟩) then insertion start (text ++ style.newline)
      else insertion target.start (text ++ style.newline)
  | [], some anchor => insertion anchor.stop (style.newline ++ text)
  | [], none => insertion 0 (text ++ style.newline)

/-- The edit that makes sure of a binding, or nothing if the file has it. -/
def ensureImport (d : Document) (b : ImportBinding) : Except Escape.Fault (Option Edit) := do
  let matching ← d.importsFrom b.source
  if matching.any (Node.binds b) then return none
  let style := d.importStyle
  match matching.findSome? (augment b style), matching with
  | some edit, _ => return some edit
  | none, anchor :: _ => return some (insertion anchor.stop (style.newline ++ b.render style))
  | none, [] => return some (d.insertDeclaration style (b.render style))

end Source.Document

end Phrasebook

import Phrasebook.Source.Rule

/-!
The goals of the grammar, that is, the constructs that may nest in one another, with the short
rules that all parts of the grammar share: names, strings, templates and lists of arguments.
-/

namespace Phrasebook.Source

/-- Two kinds of source file. In `plain` files `<T>x` is a type assertion; in `markup` files the
angle bracket opens an element instead. -/
inductive Dialect where
  | plain
  | markup
  deriving DecidableEq, Repr

inductive Goal where
  /-- A stretch of a file up to the next import at its top. -/
  | section
  | statement
  | block
  /-- One expression. If `typed` is false, a colon after the parameters of an arrow function does
  not begin its result type, as in the middle of a conditional. -/
  | expression (typed : Bool)
  /-- Expressions with commas between them. -/
  | sequence
  | unary
  | primary
  | arguments
  | template
  | object
  | functionExpression
  | classExpression
  /-- A binding pattern; if `assigned`, also the target of an assignment. -/
  | pattern (assigned : Bool)
  | parameters
  | type
  | typeOperand
  | typeArguments
  | typeParameters
  | objectType
  | openingTag
  | closingTag
  /-- An expression in braces, in an element. -/
  | hole
  deriving DecidableEq, Repr

namespace Goal

open Rule

def expr : Rule Goal := .goal (.expression true)

def stringAt (place : Place) : Rule Goal := anyLeaf (.string place)

/-- A word as a leaf of the given kind. -/
def wordAs (kind : Leaf) (s : String) : Rule Goal := .leaf kind (·.isWord s)

def isIdentifier (t : Token) : Bool := t.kind == .word && !Lexeme.isReserved t.text

/-- An identifier, as declared. -/
def identifier : Rule Goal := .leaf .name isIdentifier

/-- An identifier, as used; `undefined` is a value and no name. -/
def usage : Rule Goal := .orElse (wordAs .other "undefined") identifier

/-- Any word, reserved or not. -/
def anyWord (kind : Leaf) : Rule Goal := .leaf kind (·.kind == .word)

def privateName : Rule Goal := anyLeaf .privateName

/-- What may stand after a member access. -/
def memberName : Rule Goal := .orElse (anyWord .property) privateName

def number : Rule Goal := .leaf .other (·.kind == .number)

def computedName : Rule Goal := .node .group (all [mark "[", .goal .sequence, mark "]"])

/-- The name of a property, with a string of that name at the given place. -/
def propertyName (place : Place) : Rule Goal :=
  any [anyWord .property, privateName, stringAt place, number, computedName]

def spread : Rule Goal := .node .group (all [mark "...", expr])

/-- The text between back quotes, with a rule for what a substitution may hold. -/
def quoted (kind : Construct) (inside : Rule Goal) : Rule Goal :=
  .node kind (all [
    mark "\x60",
    .many (.orElse
      (anyLeaf .chunk)
      (.node .substitution (all [plain .substitution, inside, mark "\x7d"]))),
    mark "\x60"])

/-- An element, which is read on its own. -/
def element : Rule Goal := one fun t => t.kind.isNested .element

def typeAnnotation : Rule Goal := all [mark ":", .goal .type]

def initializer : Rule Goal := all [operator "=", expr]

/-- A word that may begin a declaration or a name follows. -/
def nameAhead : Rule Goal :=
  ahead fun c => Lexeme.isWordPart c || ['"', '\'', '[', '#', '*', '\\'].contains c

/-- Words in front of a member, each only if a name comes after it. -/
def modifiers (words : List String) : Rule Goal := .many (all [wordIn words, nameAhead])

/-- A name with dots. -/
def dottedName : Rule Goal :=
  .node .group (all [identifier, .many (all [mark ".", anyWord .property])])

/-- The end of a statement whose last part may or may not be an operand. -/
def statementEnd : Rule Goal := .orElse (.semicolon true) (.semicolon false)

def condition : Rule Goal := .node .parenthesized (all [mark "(", .goal .sequence, mark ")"])

end Goal

end Phrasebook.Source

import Phrasebook.Source.Grammar.Type

/-!
Expressions. Which operator binds tighter decides nothing here, so operands are joined from the
left as they come; but every expression is one node, and a call is a node whose first child is
exactly its callee.
-/

namespace Phrasebook.Source.Grammar

open Rule Goal

/-! ### Patterns and parameters -/

def binding (assigned : Bool) : Rule Goal :=
  all [.goal (.pattern assigned), optional initializer]

def rest (assigned : Bool) : Rule Goal := all [mark "...", .goal (.pattern assigned)]

def patternProperty (assigned : Bool) : Rule Goal :=
  .orElse
    (all [propertyName .value, mark ":", binding assigned])
    (all [identifier, optional initializer])

/-- A variable or a member access that can be assigned to. -/
def target : Rule Goal :=
  all [any [wordAs .name "this", wordAs .other "super", usage],
    .many (any [
      .extend .member (all [mark ".", memberName]),
      .extend .indexed (all [mark "[", .goal .sequence, mark "]"]),
      .extend .indexed (all [sameLine, operator "!"])])]

def pattern (assigned : Bool) : Rule Goal :=
  any [
    .node .group (all [mark "\x7b",
      commas (.orElse (rest assigned) (patternProperty assigned)), mark "\x7d"]),
    .node .group (all [mark "[", commas (.orElse (rest assigned) (binding assigned)), mark "]"]),
    if assigned then target else identifier]

/-- What a decorator applies: a name, a member or a call of one, or an expression in
parentheses. -/
def decorator : Rule Goal :=
  .node .group (all [mark "@",
    .orElse condition
      (all [identifier,
        .many (.extend .member (all [mark ".", memberName])),
        optional (.extend .call (all [optional (.goal .typeArguments), .goal .arguments]))])])

def parameter : Rule Goal :=
  all [.many decorator,
    .many (all [wordIn ["public", "private", "protected", "readonly", "override"],
      ahead fun c => Lexeme.isWordPart c || c == '\x7b' || c == '[']),
    any [rest false, wordAs .other "this", .goal (.pattern false)],
    optional (mark "?"), optional typeAnnotation, optional initializer]

def parameters : Rule Goal := .node .group (all [mark "(", commas parameter, mark ")"])

/-! ### Functions and classes -/

def functionHead : Rule Goal :=
  all [optional (all [word "async", sameLine]), word "function", optional (mark "*")]

def functionExpression : Rule Goal :=
  .node .group (all [functionHead, optional identifier, callSignature, .goal .block])

def memberModifiers : List String :=
  ["public", "private", "protected", "static", "abstract", "override", "readonly", "declare",
    "accessor", "async", "get", "set"]

def memberEnd (operands : Bool) : Rule Goal := .orElse (mark ",") (.semicolon operands)

def field : Rule Goal :=
  all [optional typeAnnotation,
    .orElse (all [initializer, memberEnd true]) (memberEnd false)]

def classMember : Rule Goal :=
  any [
    mark ";",
    all [word "static", .goal .block],
    .node .group (all [.many decorator, modifiers memberModifiers, indexSignature,
      memberEnd false]),
    .node .group (all [.many decorator, modifiers memberModifiers, optional (mark "*"),
      propertyName .value, optional (.orElse (mark "?") (operator "!")),
      .orElse
        (all [opensSignature, callSignature, .orElse (.goal .block) (memberEnd false)])
        field])]

/-- From the keyword `class` on. -/
def classBody : Rule Goal :=
  all [word "class",
    optional (all [notAhead (·.isWord "implements"), identifier]),
    optional (.goal .typeParameters),
    .many (.orElse
      (all [word "extends", .goal .unary, optional (.goal .typeArguments)])
      (all [word "implements", separated (mark ",") (.goal .type)])),
    mark "\x7b", .many classMember, .blockEnd]

def classExpression : Rule Goal :=
  .node .group (all [.many decorator, optional (word "abstract"), classBody])

/-! ### Objects -/

def method : Rule Goal :=
  .node .group (all [modifiers ["async", "get", "set", "static"], optional (mark "*"),
    propertyName .value, opensSignature, callSignature, .goal .block])

def pair : Rule Goal := .node .pair (all [propertyName .key, mark ":", expr])

/-- An object up to the brace that closes it. -/
def objectTo (closing : Rule Goal) : Rule Goal :=
  .node .object (all [mark "\x7b", commas (any [spread, method, pair, usage]), closing])

def object : Rule Goal := objectTo (mark "\x7d")

/-! ### Operands -/

def array : Rule Goal := .node .group (all [mark "[", commas (.orElse spread expr), mark "]"])

def parenthesized : Rule Goal :=
  .node .parenthesized (all [mark "(", .goal .sequence, optional typeAnnotation, mark ")"])

/-- What `new` applies to: no call, since its arguments belong to `new`. -/
def constructed : Rule Goal :=
  all [.goal .primary,
    .many (.orElse
      (.extend .member (all [mark ".", memberName]))
      (.extend .indexed (all [mark "[", .goal .sequence, mark "]"])))]

def newExpression : Rule Goal :=
  .orElse
    (.node .group (all [word "new", mark ".", word "target"]))
    (.node .group (all [word "new", constructed,
      optional (all [.goal .typeArguments, ahead (· == '(')]), optional (.goal .arguments)]))

def importExpression : Rule Goal :=
  .orElse
    (.node .group (all [word "import", mark ".", word "meta"]))
    (all [wordAs .other "import", ahead (· == '(')])

def primary : Rule Goal :=
  any [
    stringAt .value,
    .goal .template,
    number,
    .leaf .other (·.kind == .regex),
    parenthesized,
    array,
    .goal .object,
    .goal .functionExpression,
    .goal .classExpression,
    newExpression,
    importExpression,
    wordAs .name "this",
    .leaf .other (fun t => ["super", "true", "false", "null"].any t.isWord),
    all [privateName, .look true fun ts => ts.head?.any (·.isWord "in")],
    element,
    usage]

/-- Characters that begin an operand, so that an angle bracket before them compares. -/
def opensOperand (c : Char) : Bool :=
  Lexeme.isWordPart c || ['"', '\'', '(', '[', '\\'].contains c

/-- What may follow an operand and be one with it. -/
def access : Rule Goal :=
  any [
    .extend .member (all [mark ".", memberName]),
    .extend .call (all [operator "?.", optional (.goal .typeArguments), .goal .arguments]),
    .extend .indexed (all [operator "?.", mark "[", .goal .sequence, mark "]"]),
    .extend .member (all [operator "?.", memberName]),
    .extend .indexed (all [mark "[", .goal .sequence, mark "]"]),
    .extend .call (.goal .arguments),
    .extend .call (.goal .template),
    .extend .call (all [.goal .typeArguments, .orElse (.goal .arguments) (.goal .template)]),
    .extend .indexed (all [sameLine, operator "!"]),
    .extend .group (all [.goal .typeArguments, notAhead fun t => t.text.head?.any opensOperand])]

def unary (dialect : Dialect) : Rule Goal :=
  any [
    .node .group (all [
      .orElse
        (operatorIn ["!", "~", "+", "-", "++", "--"])
        (wordIn ["typeof", "void", "delete", "await"]),
      .goal .unary]),
    if dialect = .plain then .node .group (all [mark "<", .goal .type, mark ">", .goal .unary])
    else .look true fun _ => false,
    all [.goal .primary, .many access,
      optional (.extend .group (all [sameLine, operatorIn ["++", "--"]]))]]

/-! ### Whole expressions -/

def isTarget : Shape → Bool
  | .token (some .name) _ => true
  | .node .member _ | .node .indexed _ | .node .parenthesized _ => true
  | _ => false

def binaryOperator : Rule Goal :=
  .orElse (wordIn ["in", "instanceof"]) (operatorIn Lexeme.binaryOperators)

def continuation (typed : Bool) : Rule Goal :=
  let branch (typed : Bool) := all [.goal (.expression typed), mark ":"]
  any [
    .extend .group (all [.last isTarget,
      operatorIn Lexeme.assignmentOperators, .goal (.expression typed)]),
    .extend .group (all [binaryOperator, .goal .unary]),
    .extend .group (all [sameLine, wordIn ["as", "satisfies"], .goal .type]),
    .extend .group (all [operator "?", .orElse (branch true) (branch false),
      .goal (.expression typed)])]

def arrowHead (typed : Bool) : Rule Goal :=
  let arrow := aheadMark "=>"
  let signature := all [optional (.goal .typeParameters), .goal .parameters,
    if typed then optional returnAnnotation else .done, arrow]
  any [
    all [identifier, arrow],
    all [word "async", sameLine, identifier, arrow],
    all [word "async", sameLine, signature],
    signature]

def arrowFunction (typed : Bool) : Rule Goal :=
  .node .group (all [
    ahead fun c => Lexeme.isWordPart c || c == '(' || c == '<' || c == '\\',
    arrowHead typed, mark "=>",
    .orElse
      (all [aheadMark "\x7b", .goal .block])
      (all [notAhead (·.isSign '\x7b'), .goal (.expression typed)])])

def yieldExpression : Rule Goal :=
  .node .group (all [word "yield",
    .orElse (all [mark "*", expr]) (optional (all [sameLine, expr]))])

/-- An assignment that takes a value apart. -/
def destructuring : Rule Goal :=
  .node .group (all [ahead fun c => c == '[' || c == '\x7b', .goal (.pattern true), operator "=",
    expr])

def expression (typed : Bool) : Rule Goal :=
  any [arrowFunction typed, yieldExpression, destructuring,
    all [.goal .unary, .many (continuation typed)]]

def sequence : Rule Goal :=
  all [expr, .many (.extend .group (all [mark ",", expr]))]

def arguments : Rule Goal :=
  .node .arguments (all [mark "(", commas (.orElse spread expr), mark ")"])

end Phrasebook.Source.Grammar

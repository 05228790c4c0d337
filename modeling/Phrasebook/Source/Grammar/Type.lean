import Phrasebook.Source.Goal

/-!
Types. A string in a type is a type itself, never text; the keyword `string` is kept as a node.
-/

namespace Phrasebook.Source.Grammar

open Rule Goal

/-- Reserved words that are types. -/
def typeWords : List String := ["void", "null", "true", "false", "this", "const"]

def typeName : Rule Goal :=
  .leaf .other fun t => t.kind == .word && (!Lexeme.isReserved t.text || typeWords.any t.isWord)

def opensSignature : Rule Goal := ahead fun c => c == '(' || c == '<'

/-- `x is T` and `asserts x is T`, the results of functions that test their argument. -/
def typePredicate : Rule Goal :=
  let subject := .orElse (wordAs .other "this") (.leaf .other isIdentifier)
  any [
    all [word "asserts", sameLine, subject, optional (all [sameLine, word "is", .goal .type])],
    all [subject, sameLine, word "is", .goal .type]]

def resultType : Rule Goal := .orElse typePredicate (.goal .type)

def returnAnnotation : Rule Goal := all [mark ":", resultType]

def callSignature : Rule Goal :=
  all [optional (.goal .typeParameters), .goal .parameters, optional returnAnnotation]

def functionType : Rule Goal :=
  all [opensSignature, optional (.goal .typeParameters), .goal .parameters, mark "=>", resultType]

def constructorType : Rule Goal :=
  all [optional (word "abstract"), word "new", optional (.goal .typeParameters), .goal .parameters,
    mark "=>", .goal .type]

/-- The module of a type, read as a call of `import`. -/
def importType : Rule Goal :=
  all [.node .call (all [wordAs .other "import", .goal .arguments]),
    .many (all [mark ".", anyWord .other])]

def tupleMember : Rule Goal :=
  .orElse
    (all [optional (mark "..."), anyWord .other, optional (mark "?"), mark ":", .goal .type])
    (all [optional (mark "..."), .goal .type, optional (mark "?")])

def tupleType : Rule Goal := all [mark "[", commas tupleMember, mark "]"]

def templateType : Rule Goal := quoted .group (.goal .type)

def typePrimary : Rule Goal :=
  any [
    stringAt .specifier,
    templateType,
    all [optional (mark "-"), number],
    all [mark "(", .goal .type, mark ")"],
    .goal .objectType,
    tupleType,
    all [importType, optional (all [sameLine, .goal .typeArguments])],
    wordAs .stringKeyword "string",
    all [typeName, .many (all [mark ".", anyWord .other]),
      optional (all [sameLine, .goal .typeArguments])]]

/-- An array type or an indexed access. -/
def typeIndex : Rule Goal := all [sameLine, mark "[", optional (.goal .type), mark "]"]

def typeQuery : Rule Goal :=
  all [word "typeof",
    .orElse importType
      (all [.orElse (wordAs .other "this") (.leaf .other isIdentifier),
        .many (all [mark ".", .orElse (anyWord .other) privateName])]),
    optional (all [sameLine, .goal .typeArguments])]

/-- Types with `|` and `&` between them. -/
def typeJoin : Rule Goal :=
  let joint := .orElse (operator "|") (operator "&")
  all [optional joint, separated joint (.goal .typeOperand)]

def typeOperand : Rule Goal :=
  any [
    all [wordIn ["keyof", "unique", "readonly"], .goal .typeOperand],
    all [word "infer", .leaf .other isIdentifier, optional (all [word "extends", typeJoin])],
    all [typeQuery, .many typeIndex],
    functionType,
    constructorType,
    all [typePrimary, .many typeIndex]]

def conditionalType : Rule Goal :=
  all [word "extends", .goal .type, mark "?", .goal .type, mark ":", .goal .type]

def type : Rule Goal := .node .group (all [typeJoin, optional conditionalType])

def typeArguments : Rule Goal :=
  .node .group (all [mark "<", separated (mark ",") (.goal .type), optional (mark ","), mark ">"])

def typeParameter : Rule Goal :=
  all [modifiers ["const", "in", "out"], identifier, optional (all [word "extends", .goal .type]),
    optional (all [operator "=", .goal .type])]

def typeParameters : Rule Goal :=
  .node .group (all [mark "<", separated (mark ",") typeParameter, optional (mark ","), mark ">"])

def readonlyMark : Rule Goal :=
  all [optional (.orElse (mark "+") (mark "-")), word "readonly"]

def optionalMark : Rule Goal :=
  all [optional (.orElse (mark "+") (mark "-")), mark "?"]

/-- `[k: K]: V` and `[K in T as U]?: V`. -/
def indexSignature : Rule Goal :=
  all [optional readonlyMark, mark "[", identifier,
    .orElse typeAnnotation
      (all [word "in", .goal .type, optional (all [word "as", .goal .type])]),
    mark "]", optional optionalMark, optional typeAnnotation]

def typeMember : Rule Goal :=
  any [
    all [opensSignature, callSignature],
    all [word "new", opensSignature, callSignature],
    indexSignature,
    all [modifiers ["readonly", "get", "set", "static"], propertyName .value, optional (mark "?"),
      .orElse (all [opensSignature, callSignature]) (optional typeAnnotation)]]

def objectType : Rule Goal :=
  .node .group (all [
    mark "\x7b",
    optional (.orElse (mark ",") (mark ";")),
    .many (all [typeMember, any [mark ",", .semicolon false, aheadMark "\x7d"]]),
    .blockEnd])

end Phrasebook.Source.Grammar

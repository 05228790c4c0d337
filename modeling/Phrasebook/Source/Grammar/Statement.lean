import Phrasebook.Source.Grammar.Expression

/-!
Statements and declarations. A statement is one node, whose span takes in its semicolon and the
comments before an implied one.
-/

namespace Phrasebook.Source.Grammar

open Rule Goal

def block : Rule Goal := .node .group (all [mark "\x7b", .many (.goal .statement), .blockEnd])

/-! ### Imports and exports -/

/-- The attributes of an import or export. At the top of a file their closing brace is a token of
its own kind. -/
def attributes (object : Rule Goal) : Rule Goal :=
  all [sameLine, wordIn ["with", "assert"], object]

def topAttributes : Rule Goal := attributes (objectTo (plain .attributesEnd))

def moduleMember : Rule Goal := .orElse (anyWord .name) (stringAt .value)

def importSpecifierBody : Rule Goal :=
  let atEnd := ahead fun c => c == ',' || c == '\x7d'
  .orElse
    (all [moduleMember, word "as", identifier, atEnd])
    (all [anyWord .name, atEnd])

def importSpecifier : Rule Goal :=
  .orElse
    (.node (.importSpecifier true) (all [wordIn ["type", "typeof"], importSpecifierBody]))
    (.node (.importSpecifier false) importSpecifierBody)

def namespaceImport : Rule Goal :=
  .node .namespaceImport (all [mark "*", word "as", identifier])

def namedImports : Rule Goal :=
  .node .namedImports (all [mark "\x7b", commas importSpecifier, mark "\x7d"])

def importClause : Rule Goal :=
  let listed := .orElse namespaceImport namedImports
  .node .importClause (.orElse listed (all [identifier, optional (all [mark ",", listed])]))

def requireClause : Rule Goal :=
  .node .group (all [identifier, operator "=", word "require", mark "(", stringAt .specifier,
    mark ")"])

/-- From after the keyword, and the word `type` if there is one. -/
def importBody (attributes : Rule Goal) : Rule Goal :=
  all [
    any [all [importClause, word "from", stringAt .specifier], requireClause],
    optional attributes, .semicolon false]

/-- A declaration from its keyword on, by the kind of its node. -/
def importFrom (keyword attributes : Rule Goal) (kind : Bool → Construct) : Rule Goal :=
  any [
    .node (kind true) (all [keyword, wordIn ["type", "typeof"], importBody attributes]),
    .node (kind false) (all [keyword, importBody attributes]),
    .node (kind false) (all [keyword, stringAt .specifier, optional attributes, .semicolon false]),
    .node .group (all [keyword, optional (word "type"), identifier, operator "=", dottedName,
      .semicolon false])]

def importDeclaration : Rule Goal :=
  importFrom (plain .importWord) topAttributes .importDeclaration

/-- An import that does not stand at the top of its file. -/
def innerImport : Rule Goal :=
  importFrom (word "import") (attributes (.goal .object)) fun _ => .group

def exportSpecifier : Rule Goal :=
  let atEnd := ahead fun c => c == ',' || c == '\x7d'
  let renamed := all [moduleMember, optional (all [word "as", moduleMember]), atEnd]
  .orElse (all [wordIn ["type", "typeof"], renamed]) renamed

def fromClause : Rule Goal :=
  all [word "from", stringAt .specifier,
    optional (.orElse topAttributes (attributes (.goal .object)))]

def exported : Rule Goal :=
  any [
    all [optional (word "type"), mark "*", optional (all [word "as", moduleMember]), fromClause,
      .semicolon false],
    all [optional (word "type"), mark "\x7b", commas exportSpecifier, mark "\x7d",
      optional fromClause, .semicolon false],
    all [operator "=", expr, .semicolon true],
    all [word "as", word "namespace", identifier, .semicolon false],
    all [word "default",
      any [
        .goal .functionExpression,
        .goal .classExpression,
        all [notAhead fun t => t.isWord "function" || t.isWord "class",
          expr, .semicolon true],
        .goal .statement]],
    all [ahead fun c => Lexeme.isWordPart c || c == '@', .goal .statement]]

def exportStatement : Rule Goal :=
  .node .group (all [.many decorator, word "export", exported])

/-! ### Declarations -/

def declarator : Rule Goal :=
  all [.goal (.pattern false), optional (operator "!"), optional typeAnnotation,
    optional initializer]

def opensPattern : Rule Goal :=
  ahead fun c => Lexeme.isWordPart c || c == '[' || c == '\x7b' || c == '\\'

def variableKeyword : Rule Goal :=
  .orElse (wordIn ["var", "const"]) (all [word "let", opensPattern])

def variableDeclaration : Rule Goal :=
  .node .group (all [variableKeyword, separated (mark ",") declarator, statementEnd])

def functionDeclaration : Rule Goal :=
  .node .group (all [functionHead, identifier, callSignature,
    .orElse (.goal .block) (.semicolon false)])

def typeAlias : Rule Goal :=
  .node .group (all [word "type", identifier, optional (.goal .typeParameters), operator "=",
    .goal .type, .semicolon false])

def interfaceDeclaration : Rule Goal :=
  .node .group (all [word "interface", identifier, optional (.goal .typeParameters),
    optional (all [word "extends", separated (mark ",") (.goal .type)]), .goal .objectType])

def enumDeclaration : Rule Goal :=
  .node .group (all [optional (word "const"), word "enum", identifier, mark "\x7b",
    commas (all [propertyName .value, optional initializer]), mark "\x7d"])

def moduleDeclaration : Rule Goal :=
  .orElse
    (.node .group (all [word "module", sameLine, .orElse (stringAt .specifier) dottedName,
      .orElse (.goal .block) (.semicolon false)]))
    (.node .group (all [word "namespace", sameLine, .orElse (stringAt .value) dottedName,
      .goal .block]))

def ambientDeclaration : Rule Goal :=
  .node .group (all [word "declare", ahead Lexeme.isWordPart,
    .orElse (all [word "global", .goal .block]) (.goal .statement)])

/-! ### Control flow -/

def ifStatement : Rule Goal :=
  .node .group (all [word "if", condition, .goal .statement,
    optional (all [word "else", .goal .statement])])

def forHead : Rule Goal :=
  let eachOf := all [wordIn ["of", "in"], .goal .sequence]
  let counted := all [mark ";", optional (.goal .sequence), mark ";", optional (.goal .sequence)]
  any [
    all [variableKeyword, .goal (.pattern false), optional typeAnnotation,
      .orElse eachOf
        (all [optional initializer, .many (all [mark ",", declarator]), counted])],
    all [.goal (.pattern true), eachOf],
    all [optional (.goal .sequence), counted]]

def forStatement : Rule Goal :=
  .node .group (all [word "for", optional (word "await"), mark "(", forHead, mark ")",
    .goal .statement])

def whileStatement : Rule Goal :=
  .node .group (all [wordIn ["while", "with"], condition, .goal .statement])

def doStatement : Rule Goal :=
  .node .group (all [word "do", .goal .statement, word "while", condition, optional (mark ";")])

def switchStatement : Rule Goal :=
  .node .group (all [word "switch", condition, mark "\x7b",
    .many (all [.orElse (all [word "case", .goal .sequence]) (word "default"), mark ":",
      .many (.goal .statement)]),
    .blockEnd])

def tryStatement : Rule Goal :=
  .node .group (all [word "try", .goal .block,
    optional (all [word "catch",
      optional (all [mark "(", .goal (.pattern false), optional typeAnnotation, mark ")"]),
      .goal .block]),
    optional (all [word "finally", .goal .block])])

def jump : Rule Goal :=
  .node .group (all [wordIn ["break", "continue", "debugger"],
    .orElse (.semicolon false) (all [identifier, .semicolon false])])

def returnStatement : Rule Goal :=
  .node .group (all [word "return",
    .orElse (.semicolon false) (all [.goal .sequence, .semicolon true])])

def throwStatement : Rule Goal :=
  .node .group (all [word "throw", .goal .sequence, .semicolon true])

def labelled : Rule Goal := .node .group (all [identifier, mark ":", .goal .statement])

def expressionStatement : Rule Goal :=
  .node .expressionStatement (all [notAhead (·.isSign '\x7b'), .goal .sequence,
    .semicolon true])

def statement : Rule Goal :=
  any [
    .goal .block,
    .node .group (mark ";"),
    innerImport,
    exportStatement,
    variableDeclaration,
    functionDeclaration,
    classExpression,
    typeAlias,
    interfaceDeclaration,
    enumDeclaration,
    moduleDeclaration,
    ambientDeclaration,
    ifStatement,
    forStatement,
    whileStatement,
    doStatement,
    switchStatement,
    tryStatement,
    jump,
    returnStatement,
    throwStatement,
    labelled,
    expressionStatement]

/-- A part of a file up to the next import: the first line of the file may name an interpreter,
and any part but the first begins with an import. -/
def fileSection : Rule Goal :=
  all [optional (anyLeaf .hashBang), optional importDeclaration,
    .many (.goal .statement), .look true atEnd]

end Phrasebook.Source.Grammar

import Phrasebook.Source.Goal

/-!
The tags of elements, and the expressions in braces between them. The names of the two tags of
an element are not compared.
-/

namespace Phrasebook.Source.Grammar

open Rule Goal

def tagPart : Rule Goal := anyWord .other

def tagName : Rule Goal :=
  all [tagPart, .many (all [.orElse (mark ".") (mark ":"), tagPart])]

def tagAttribute : Rule Goal :=
  .orElse
    (one fun t => t.kind.isNested .braces)
    (.node .group (all [tagPart, optional (all [mark ":", tagPart]),
      optional (all [mark "=", one fun t => t.kind.isNested .value])]))

def openingTag : Rule Goal :=
  all [
    one fun t => t.kind == .angle false || t.kind == .angle true,
    optional (all [tagName, optional (.goal .typeArguments), .many tagAttribute]),
    .orElse (all [mark "/", plain .elementEnd]) (plain .tagEnd),
    .look true atEnd]

def closingTag : Rule Goal :=
  all [plain .closing, optional tagName, plain .elementEnd, .look true atEnd]

/-- An expression in braces, which may be empty. -/
def hole : Rule Goal :=
  all [
    .node .group (all [
      one fun t => t.kind == .hole false || t.kind == .hole true,
      optional (.orElse spread (.goal .sequence)),
      plain .holeEnd]),
    .look true atEnd]

end Phrasebook.Source.Grammar

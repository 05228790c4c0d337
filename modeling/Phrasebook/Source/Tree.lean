import Phrasebook.Source.Token

/-!
Tokens nested by the elements and the expressions in braces that they belong to. Code around an
element need not know what is in it, and an element need not know what its expressions say: each
is a part of the other, and is read on its own.
-/

namespace Phrasebook.Source

inductive Tree where
  | token (t : Token)
  /-- An element, or an expression of one with its braces, from the token that opens it to the
  one that closes it, if there is one. -/
  | nested (opening : Token) (parts : List Tree) (ending : Option Token)
  deriving Repr

namespace Tree

mutual

def tokens : Tree → List Token
  | token t => [t]
  | nested opening parts ending => opening :: tokensAll parts ++ ending.toList

/-- The tokens of trees in a row. -/
def tokensAll : List Tree → List Token
  | [] => []
  | t :: following => t.tokens ++ tokensAll following

end

/-- The first token of a tree. -/
def first : Tree → Token
  | token t => t
  | nested opening _ _ => opening

/-- The white space before a tree. -/
def gap (t : Tree) : List Char := t.first.gap

/-- The number of bytes of a tree. -/
def width (t : Tree) : Nat := addUp (t.tokens.map Token.width)

/-- Whether a tree is a token of the given kind. -/
def isToken (kind : TokenKind) : Tree → Bool
  | token t => t.kind == kind
  | _ => false

/-- The role in which a tree is read on its own, if it is not a token like any other. -/
def role? : Tree → Option Role
  | token t => if t.kind == .attribute then some .value else none
  | nested opening _ _ =>
      match opening.kind with
      | .angle true | .hole true => some .value
      | .angle false => some .element
      | _ => some .braces

/-- What an outline shows of a tree. -/
def shown (index : Nat) (t : Tree) : Token :=
  match t.role? with
  | some role => ⟨.nested role index, t.gap, role.mark⟩
  | none => t.first

/-- Trees in a row as tokens, where each part that is read on its own becomes a single token
with its place in the row. -/
def outline (index : Nat) : List Tree → List Token
  | [] => []
  | t :: following => t.shown index :: outline (index + 1) following

end Tree

/-- Trees under way: the parts of the innermost one so far, last first, and around it, from
inside out, what opened each of the open trees and the parts before it. -/
structure Nesting where
  parts : List Tree
  outer : List (Token × List Tree)

namespace Nesting

def start : Nesting := ⟨[], []⟩

def push (n : Nesting) (t : Tree) : Nesting := { n with parts := t :: n.parts }

def opened (n : Nesting) (t : Token) : Nesting := ⟨[], (t, n.parts) :: n.outer⟩

/-- A token that closes something, where nothing is open, is like any other. -/
def closed (n : Nesting) (t : Token) : Nesting :=
  match n.outer with
  | (opening, before) :: outer => ⟨.nested opening n.parts.reverse (some t) :: before, outer⟩
  | [] => n.push (.token t)

def step (n : Nesting) (t : Token) : Nesting :=
  if t.kind.opens then n.opened t
  else if t.kind.closes then n.closed t
  else n.push (.token t)

/-- The trees, where what is still open ends with the text. -/
def finish (parts : List Tree) : List (Token × List Tree) → List Tree
  | [] => parts.reverse
  | (opening, before) :: outer => finish (.nested opening parts.reverse none :: before) outer

end Nesting

/-- The trees of the tokens of a text. -/
def Tree.ofTokens (tokens : List Token) : List Tree :=
  let n := tokens.foldl Nesting.step .start
  Nesting.finish n.parts n.outer

end Phrasebook.Source

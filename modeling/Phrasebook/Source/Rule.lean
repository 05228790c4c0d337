import Phrasebook.Source.Shape

/-!
Grammars as data, and the one interpreter that reads tokens by them.

A rule says what to read next: tokens, one rule after another, the first of two rules that fits,
a rule as often as it fits, or the rule of a named goal. Reading keeps the shapes of the construct
at hand and takes every token off the front, so that a shape has its tokens in order and none of
them twice, whatever the grammar says.

A choice that fails is undone, but the furthest place where reading got stuck is remembered:
when no choice is left, that place is the syntax error.
-/

namespace Phrasebook.Source

/-- Where reading got stuck: the number of tokens before the one that fits nowhere, and, if the
tokens end inside a block, the number of tokens up to its last. -/
structure Stuck where
  reach : Nat
  unclosed : Option Nat
  deriving DecidableEq, Repr, Inhabited

/-- The one further along; of two at the same place, the one that knows of an open block. -/
def Stuck.further (a b : Stuck) : Stuck :=
  if a.reach < b.reach then b
  else if b.reach < a.reach then a
  else if a.unclosed.isSome then a
  else b

/-- The tokens left, how many have been read, the shapes of the construct being read, last
first, and the furthest place where reading got stuck so far. -/
structure State where
  rest : List Token
  read : Nat
  shapes : List Shape
  furthest : Stuck

namespace State

def start (tokens : List Token) : State := ⟨tokens, 0, [], ⟨0, none⟩⟩

/-- Reads a token. -/
def advance (s : State) (kind : Option Leaf) : State :=
  match s.rest with
  | t :: rest => { s with rest, read := s.read + 1, shapes := .token kind t :: s.shapes }
  | [] => s

def advanceBy : Nat → State → State
  | 0, s => s
  | n + 1, s => advanceBy n (s.advance none)

def skipComments : List Token → State → State
  | [], s => s
  | t :: following, s =>
      if t.kind == .comment then skipComments following (s.advance (some .comment)) else s

/-- Reads comments; each becomes a leaf. -/
def skip (s : State) : State := skipComments s.rest s

/-- Stuck at the next token. -/
def stuck (s : State) (unclosed : Option Nat) : Stuck := s.furthest.further ⟨s.read, unclosed⟩

end State

abbrev Outcome := Except Stuck State

inductive Rule (Goal : Type) where
  /-- Reads nothing. -/
  | done
  /-- Punctuation after comments, as much of it as `count` says of the signs in front. -/
  | signs (count : List Char → Nat)
  /-- One token of the given kind after comments. -/
  | plain (kind : TokenKind)
  /-- One token after comments that passes the test. -/
  | one (test : Token → Bool)
  /-- The same, but the token becomes a leaf. -/
  | leaf (kind : Leaf) (test : Token → Bool)
  /-- Reads nothing, if what follows passes the test, after comments if `spaced`. -/
  | look (spaced : Bool) (test : List Token → Bool)
  /-- Reads nothing, if the last shape passes the test. -/
  | last (test : Shape → Bool)
  /-- The closing brace of a block. -/
  | blockEnd
  /-- A semicolon, or a place that implies one. -/
  | semicolon (operands : Bool)
  | andThen (first second : Rule Goal)
  | orElse (first second : Rule Goal)
  /-- As often as it fits. -/
  | many (rule : Rule Goal)
  /-- A node around what the rule reads. -/
  | node (kind : Construct) (rule : Rule Goal)
  /-- A node around the last shape and what the rule reads. -/
  | extend (kind : Construct) (rule : Rule Goal)
  | goal (goal : Goal)

/-! ### What stands in front -/

/-- The signs that follow without white space between. -/
def tightSigns : List Token → List Char
  | [] => []
  | t :: r => if t.kind == .sign && t.gap.isEmpty then t.text ++ tightSigns r else []

/-- The signs in front, up to the first white space. -/
def signs : List Token → List Char
  | [] => []
  | t :: r => if t.kind == .sign then t.text ++ tightSigns r else []

/-- A token that stands for the end of what is to be read. It is never read itself. -/
def isEnd (t : Token) : Bool := t.kind == .stop || t.kind == .border

def atEnd : List Token → Bool
  | [] => true
  | t :: _ => isEnd t

/-! ### Line ends that stand for a semicolon -/

/-- Whether a statement may end before a line that begins with this token. With `operands`, an
operand has just been read, so brackets continue it. -/
def endsBefore (operands : Bool) (tokens : List Token) : Bool :=
  match tokens with
  | [] => true
  | t :: following =>
      match t.text with
      | [] => true
      | c :: r =>
          if t.kind == .regex || "\x60,.;*%><=?^|&/:".toList.contains c then false
          else if c == '(' || c == '[' then !operands
          else if c == '+' || c == '-' then (tightSigns following).head? == some c
          else if c == '!' then (tightSigns following).head? != some '='
          else if c == 'i' then
            let isLetter (o : Option Char) : Bool := o.any fun d => d.isAlpha || 0x80 ≤ d.toNat
            match r with
            | 'n' :: r =>
                if !isLetter r.head? then false
                else if "stanceof".toList.isPrefixOf r then isLetter (r.drop 8).head?
                else true
            | _ => true
          else true

/-- Whether a statement may end after a line end, of which `gap` is left before the tokens. -/
def endsAfterLine (operands : Bool) (gap : List Char) : List Token → Bool
  | [] => true
  | t :: following =>
      if !gap.all Lexeme.isBreakingSpace then true
      else if t.kind == .comment then
        match following with
        | [] => true
        | next :: _ => endsAfterLine operands next.gap following
      else endsBefore operands (t :: following)

/-- Whether the end of the text, a closing brace or a line end here stands for a semicolon. -/
def impliesSemicolon (operands : Bool) : List Token → Bool
  | [] => true
  | t :: following =>
      match t.gap.dropWhile fun c => c != '\n' && Lexeme.isBreakingSpace c with
      | '\n' :: gap => endsAfterLine operands gap (t :: following)
      | _ :: _ => false
      | [] =>
          if t.closesBrace then
            match following with
            | next :: _ =>
                if next.isSign ':' && next.gap.all Lexeme.isBreakingSpace then operands else true
            | [] => true
          else t.kind == .stop

namespace Rule

variable {Goal : Type}

def runSigns (count : List Char → Nat) (s : State) : Outcome :=
  let s := s.skip
  let n := count (Source.signs s.rest)
  let taken := s.rest.take n
  if n == 0 || taken.length < n || !taken.all (·.kind == .sign) then .error (s.stuck none)
  else .ok (s.advanceBy n)

def runOne (kind : Option Leaf) (test : Token → Bool) (s : State) : Outcome :=
  let s := s.skip
  if s.rest.head?.any fun t => test t && !isEnd t then .ok (s.advance kind)
  else .error (s.stuck none)

def runBlockEnd (s : State) : Outcome :=
  let t := s.skip
  if atEnd t.rest then .error (t.stuck (some s.read))
  else if t.rest.head?.any (·.closesBrace) then .ok (t.advance none)
  else .error (t.stuck none)

/-- Comments before an implied semicolon belong to the statement if they are on its line. -/
def runSemicolon (operands : Bool) : List Token → State → Outcome
  | [], s => .ok s
  | t :: following, s =>
      if impliesSemicolon operands (t :: following) then .ok s
      else if t.isSign ';' then .ok (s.advance none)
      else if t.kind == .comment then runSemicolon operands following (s.advance (some .comment))
      else .error (s.stuck none)

/-- Repeats a step while it succeeds and reads something. -/
def repeatWithin (step : State → Outcome) : Nat → State → State
  | 0, s => s
  | fuel + 1, s =>
      match step s with
      | .ok t => if s.read < t.read then repeatWithin step fuel t else s
      | .error f => { s with furthest := f }

/-- What a node around the shapes read since `start` looks like from outside. -/
def close (kind : Construct) (outer : List Shape) (start : Nat) (t : State) : Outcome :=
  if start < t.read then .ok { t with shapes := .node kind t.shapes.reverse :: outer }
  else .error (t.stuck none)

/-- Reads by a rule, given how to read a goal and how often a rule may be repeated. -/
def run (goal : Goal → State → Outcome) (bound : Nat) : Rule Goal → State → Outcome
  | .done, s => .ok s
  | .signs count, s => runSigns count s
  | .plain kind, s => runOne none (·.kind == kind) s
  | .one test, s => runOne none test s
  | .leaf kind test, s => runOne (some kind) (fun t => test t && kind.admits t) s
  | .look spaced test, s =>
      let t := if spaced then s.skip else s
      if test t.rest then .ok s else .error (t.stuck none)
  | .last test, s =>
      match s.shapes with
      | shape :: _ => if test shape then .ok s else .error (s.skip.stuck none)
      | [] => .error (s.skip.stuck none)
  | .blockEnd, s => runBlockEnd s
  | .semicolon operands, s => runSemicolon operands s.rest s
  | .andThen a b, s =>
      match a.run goal bound s with
      | .ok t => b.run goal bound t
      | .error f => .error f
  | .orElse a b, s =>
      match a.run goal bound s with
      | .ok t => .ok t
      | .error f => b.run goal bound { s with furthest := f }
  | .many a, s => .ok (repeatWithin (a.run goal bound) bound s)
  | .node kind a, s =>
      let s := s.skip
      match a.run goal bound { s with shapes := [] } with
      | .ok t => close kind s.shapes s.read t
      | .error f => .error f
  | .extend kind a, s =>
      match s.shapes with
      | shape :: outer =>
          match a.run goal bound { s with shapes := [shape] } with
          | .ok t => close kind outer s.read t
          | .error f => .error f
      | [] => .error (s.stuck none)
  | .goal g, s => goal g s

/-! ### Ways to write rules -/

def all : List (Rule Goal) → Rule Goal
  | [] => .done
  | [r] => r
  | r :: rs => .andThen r (all rs)

def any : List (Rule Goal) → Rule Goal
  | [] => .look true fun _ => false
  | [r] => r
  | r :: rs => .orElse r (any rs)

def optional (r : Rule Goal) : Rule Goal := .orElse r .done

/-- Any token that can be a leaf of the given kind. -/
def anyLeaf (kind : Leaf) : Rule Goal := .leaf kind fun _ => true

/-- A fixed run of signs, whatever follows it. -/
def mark (s : String) : Rule Goal :=
  .signs fun cs => if s.toList.isPrefixOf cs then s.toList.length else 0

/-- One of several operators, and not the beginning of a longer one. -/
def operatorIn (table : List String) : Rule Goal :=
  .signs fun cs =>
    match Lexeme.operator? cs with
    | some o => if table.contains o then o.toList.length else 0
    | none => 0

def operator (s : String) : Rule Goal := operatorIn [s]

def word (s : String) : Rule Goal := one (·.isWord s)

/-- One of several words. -/
def wordIn (table : List String) : Rule Goal := one fun t => table.any t.isWord

/-- The next token begins with a character that passes the test. -/
def ahead (test : Char → Bool) : Rule Goal :=
  .look true fun ts => ts.head?.any fun t => t.text.head?.any test

def aheadMark (s : String) : Rule Goal :=
  .look true fun ts => s.toList.isPrefixOf (Source.signs ts)

def notAhead (test : Token → Bool) : Rule Goal := .look true fun ts => !ts.head?.any test

/-- No line end stands before the next token. -/
def sameLine : Rule Goal :=
  .look false fun ts => !ts.head?.any fun t => t.gap.any Lexeme.isLineEnd

/-- The rule once or more, with the separator between. -/
def separated (separator r : Rule Goal) : Rule Goal :=
  .andThen r (.many (.andThen separator r))

/-- A list with commas, where items may be missing. -/
def commas (r : Rule Goal) : Rule Goal :=
  .andThen (optional r) (.many (.andThen (mark ",") (optional r)))

end Rule

/-- Reads a goal by a grammar; `fuel` bounds how deep goals may nest and how often a rule may be
repeated. -/
def read {Goal : Type} (grammar : Goal → Rule Goal) : Nat → Goal → State → Outcome
  | 0, _, s => .error (s.stuck none)
  | fuel + 1, g, s => (grammar g).run (read grammar fuel) fuel s

end Phrasebook.Source

import Phrasebook.Source.Lexeme
import Phrasebook.Source.Token

/-!
From characters to tokens. The lexer takes one character after the other and never goes back, so
what it has made of the beginning of a text does not depend on what follows.

Its state holds what decides the meaning of the next character: the brackets, templates and
elements that are open, the characters of the token at hand, whether an operand or an operator
comes next, and the last few tokens. It does not hold the tokens before those, so equal states
go on alike whatever has been read.
-/

namespace Phrasebook.Source

/-- Something that has been opened and is not closed yet. -/
inductive Frame where
  /-- Parentheses. After those of `if`, `for`, `while` and `with` an operand comes next. Those that
  call nothing may be around the parameters of an arrow function. -/
  | parenthesis (head group : Bool)
  | bracket
  /-- Braces. After those of a block an operand may come next. Those of a class have members. -/
  | brace (block members : Bool)
  /-- What stands before the colon of a conditional, or of a case of a `switch`. -/
  | choice (conditional : Bool)
  /-- The braces around the attributes of an import at the top of a file. -/
  | attributes
  | template
  | substitution
  | tag
  /-- The type arguments of a tag. -/
  | typeArguments
  | content
  | closingTag
  /-- An expression in braces, in a tag or in the content of an element. -/
  | hole
  deriving DecidableEq, Repr

/-- How far the escape sequence at the end of a quoted text has come. Where it counts the
characters it has, the backslash is one of them. -/
inductive Escaping where
  | plain
  /-- A dollar sign, which is no escape but may open a substitution; it is not counted among the
  characters read. -/
  | dollar
  | backslash
  | digits (left read : Nat)
  | unicode
  | braced (read : Nat)
  /-- A line end of two characters may follow. -/
  | lineEnd
  deriving DecidableEq, Repr

namespace Escaping

/-- Whether more characters have to come. -/
def isOpen : Escaping → Bool
  | plain | dollar | lineEnd => false
  | _ => true

/-- The characters since the backslash. -/
def length : Escaping → Nat
  | backslash => 1
  | digits _ read => read
  | unicode => 2
  | braced read => read
  | _ => 0

/-- Goes on by one character, unless that breaks the escape. -/
def next (e : Escaping) (c : Char) : Option Escaping :=
  match e with
  | backslash =>
      if c == 'x' then some (digits 2 2)
      else if c == 'u' then some unicode
      else if c == '\r' || c == '?' then some lineEnd
      else some plain
  | digits left read =>
      if !Text.isHex c then none
      else if left == 1 then some plain
      else some (digits (left - 1) (read + 1))
  | unicode =>
      if c == '\x7b' then some (braced 3)
      else if Text.isHex c then some (digits 3 3)
      else none
  | braced read =>
      if Text.isHex c then some (braced (read + 1))
      else if c == '\x7d' && 3 < read then some plain
      else none
  | e => some e

/-- The second character of a line end after a backslash. -/
def takesAlong (e : Escaping) (c : Char) : Bool :=
  e == lineEnd && Lexeme.isLineEnd c && c != '\r'

end Escaping

/-- What stands between the last token and the next, as far as a line end there can stand for a
semicolon. -/
inductive LineState where
  /-- No line end yet. -/
  | open
  /-- A space at which no line is broken comes first, so that no line end counts. -/
  | joined
  | ended
  /-- After the line end comes a space at which no line is broken. Whatever follows, a statement
  may end here. -/
  | parted
  deriving DecidableEq, Repr

namespace LineState

/-- Goes on by one character of white space. -/
def next (l : LineState) (c : Char) : LineState :=
  match l with
  | .open => if c == '\n' then ended else if Lexeme.isBreakingSpace c then .open else joined
  | ended => if Lexeme.isBreakingSpace c then ended else parted
  | l => l

/-- After a comment. -/
def pastComment : LineState → LineState
  | joined => .open
  | l => l

/-- Whether a line has ended. -/
def hasEnded : LineState → Bool
  | ended | parted => true
  | _ => false

end LineState

/-- The token at hand, with its characters so far, last first. -/
inductive Reading where
  | nothing
  | word (done : List Char)
  | wordEscape (done : List Char) (escape : Escaping)
  /-- After the word `import` at the top of a file, with the white space since. -/
  | importing (after : List Char)
  | dot
  | number (done : List Char)
  | hash
  | privateWord (done : List Char)
  | hashBang (done : List Char)
  | slash
  | lineComment (done : List Char)
  | blockComment (done : List Char)
  | regex (done : List Char) (inClass escaped : Bool)
  | regexFlags (done : List Char)
  | quoted (quote : Char) (done : List Char) (escape : Escaping)
  | chunk (done : List Char) (escape : Escaping)
  /-- After an angle bracket that opens an element or the parameters of an arrow function, with
  the white space since. -/
  | angle (before : List Char)
  /-- The name after that white space. -/
  | angleName (before name : List Char)
  /-- The white space after that name. -/
  | angleSpace (before name after : List Char)
  /-- The word after that white space. -/
  | angleWord (before name after second : List Char)
  | tagWord (done : List Char) (hyphen : Bool)
  /-- A quoted value in a tag, with the characters since an ampersand. -/
  | attribute (quote : Char) (done : List Char) (reference : Option (List Char))
  | content (done : List Char)
  | contentAngle
  | broken (done : List Char) (sound : Nat)
  deriving DecidableEq, Repr

/-- What a type is part of, which decides where it ends. -/
inductive TypeUse where
  | declaration
  /-- The type of a variable, a parameter or a member, or the result of a function. -/
  | place
  /-- The result of an arrow function, after which the arrow comes. -/
  | result
  /-- The type after `as` or `satisfies`. -/
  | assertion
  deriving DecidableEq, Repr

/-- A type that is not over yet. -/
structure Typing where
  use : TypeUse
  /-- The number of frames around it. -/
  depth : Nat
  /-- How many lists of type arguments are open in it, outside any other bracket. -/
  angles : Nat
  deriving DecidableEq, Repr

/-- What the last token may be besides a sign. -/
inductive Mark where
  | plain
  /-- A question mark after which a conditional may go on. -/
  | question
  /-- The colon of a conditional. -/
  | alternative
  /-- The parenthesis after what may be the parameters of an arrow function. -/
  | parameters
  deriving DecidableEq, Repr

/-- The head of a class. -/
structure ClassHead where
  /-- The number of frames around it. -/
  depth : Nat
  /-- The class is a statement, not an operand. -/
  isStatement : Bool
  deriving DecidableEq, Repr

/-- All that decides how the lexer goes on. -/
structure Control where
  /-- Innermost first. -/
  frames : List Frame
  /-- The white space before the token at hand, last first. -/
  gap : List Char
  reading : Reading
  /-- An operand comes next rather than an operator. -/
  operand : Bool
  /-- The last token is a plus or minus sign, and where it stands an operand came next. -/
  wasOperand : Bool
  /-- The line ends since the last token, where no operand comes next. -/
  line : LineState
  /-- The type at hand. -/
  typed : Option Typing
  mark : Mark
  /-- The class whose body is still to come. -/
  classHead : Option ClassHead
  /-- The last tokens other than comments, last first, back to the last string, and without the
  white space before them. -/
  recent : List Token
  /-- Between the word `import` at the top of a file and the module. -/
  importing : Bool
  deriving DecidableEq, Repr

/-- Tokens that are finished, and the state after them. -/
abbrev Emission := List Token × Control

def Emission.andThen (e : Emission) (f : Control → Emission) : Emission :=
  (e.1 ++ (f e.2).1, (f e.2).2)

/-- Changes the state after the tokens. -/
def Emission.update (e : Emission) (f : Control → Control) : Emission := (e.1, f e.2)

namespace Control

/-- Between the parts of an element, or after an operand. -/
def resting (frames : List Frame) : Control :=
  { frames, gap := [],
    reading := match frames with
      | .content :: _ => .content []
      | _ => .nothing
    operand := false, wasOperand := false, line := .open, typed := none,
    mark := .plain, classHead := none, recent := [], importing := false }

/-- Where an expression begins. -/
def entering (frames : List Frame) : Control :=
  { resting frames with reading := .nothing, operand := true }

def start : Control := entering []

/-- In the head of an import. There nothing but the frames decides how to go on. -/
def heading (frames : List Frame) : Control := { entering frames with importing := true }

/-- Whether an operand comes next, or may do so because a line has ended. -/
def mayBegin (s : Control) : Bool := s.operand || s.line.hasEnded

/-! ### What the last tokens say -/

def lastIsSign (s : Control) (c : Char) : Bool := s.recent.head?.any (·.isSign c)

/-- The last token is one of the words, and not the name of a property. -/
def lastIsWord (s : Control) (words : List String) : Bool :=
  match s.recent with
  | t :: before => words.any t.isWord && !before.head?.any (·.isSign '.')
  | [] => false

/-- The last token is an angle bracket, and that of an arrow. -/
def lastIsArrow (s : Control) : Bool :=
  s.lastIsSign '>' && s.recent.tail.head?.any (·.isSign '=')

/-- What a token may be besides a sign, where a question mark follows no other and a colon has been
found to be that of a conditional. -/
def markAfter (s : Control) (t : Token) : Mark :=
  if t.isSign '?' && !(s.lastIsSign '?' && s.gap.isEmpty) then .question
  else if t.isSign ':' && s.mark == .alternative then .alternative
  else
    match t.isSign ')', s.frames with
    | true, .parenthesis _ true :: _ => .parameters
    | _, _ => .plain

/-! ### Tokens -/

/-- What decides after a token how to go on, given whether an operand comes next. The module ends
the head of an import, and what follows it is read as at the beginning of a file. -/
def settle (s : Control) (t : Token) (operand : Bool) : Control :=
  if s.importing && t.isHeadPart then
    if t.kind == .string && s.frames.isEmpty then start else heading s.frames
  else
    { s with
      operand, line := .open, importing := false
      wasOperand := (t.isSign '+' || t.isSign '-') && s.mayBegin
      mark := s.markAfter t
      recent :=
        if t.kind == .string || t.kind == .hashBang then []
        else ({ t with gap := [] } :: s.recent).take 4 }

def emit (s : Control) (kind : TokenKind) (text : List Char) (operand : Bool) : Emission :=
  let t : Token := ⟨kind, s.gap.reverse, text⟩
  ([t], { s.settle t operand with gap := [], reading := .nothing })

/-- A token after which a statement begins at the top of the file. -/
def emitEnd (s : Control) (c : Char) : Emission := ([⟨.sign, s.gap.reverse, [c]⟩], start)

/-- A token that takes part in no decision. -/
def emitComment (s : Control) (done : List Char) : Emission :=
  ([⟨.comment, s.gap.reverse, done.reverse⟩],
    { s with gap := [], reading := .nothing, line := s.line.pastComment })

/-- Text of an element or a template, if there is any; it takes part in no decision either. -/
def emitText (s : Control) (kind : TokenKind) (done : List Char) : Emission :=
  if done.isEmpty then ([], s)
  else ([⟨kind, s.gap.reverse, done.reverse⟩], { s with gap := [] })

def keep (s : Control) (reading : Reading) : Emission := ([], { s with reading })

/-- White space before a token. A string at the top of a file is a statement of its own if a line
ends after it in a way that ends a statement whatever follows. -/
def space (s : Control) (c : Char) : Emission :=
  let line := if s.operand then s.line else s.line.next c
  let ends := line == .parted && s.frames.isEmpty && s.recent.isEmpty
  ([], { s with
    gap := c :: s.gap, operand := s.operand || ends, line := if ends then .open else line })

/-! ### Types, classes and conditionals -/

/-- Whether a brace here opens a block rather than an object or the type of one. The word `void` is
the result type of a function where no operand comes after it. -/
def opensBlock (s : Control) : Bool :=
  !(s.operand && s.typed.isSome) &&
    match s.recent with
    | [] => s.frames.head? != some .hole
    | t :: _ =>
        match t.kind with
        | .sign =>
            if t.isSign ':' then
              s.mark != .alternative &&
                match s.frames with
                | [] | .brace true _ :: _ | .attributes :: _ => true
                | _ => false
            else [';', '\x7b', '\x7d', ')', ']', '>'].any t.isSign
        | .word =>
            ["else", "do"].any t.isWord || t.isWord "void" && !s.operand ||
              !Lexeme.operandWords.any t.isWord && !(["const", "let", "var"].any t.isWord)
        | .substitution => false
        | _ => true

/-- Whether a brace here opens the body of a class. -/
def opensMembers (s : Control) : Bool :=
  s.classHead.any (·.depth == s.frames.length) &&
    (!s.operand || s.lastIsSign '>' && !s.lastIsArrow || s.lastIsWord ["class"])

/-- Whether what stands directly in the innermost frame are the members of a class. -/
def inMembers (s : Control) : Bool :=
  match s.frames with
  | .brace _ true :: _ => true
  | _ => false

/-- Whether a type comes after a colon that belongs to no conditional. In a block the colon may also
be that of a label, and in an object that of a property. -/
def annotates (s : Control) : Bool :=
  match s.frames with
  | .parenthesis _ _ :: _ | .bracket :: _ | .typeArguments :: _ | .brace _ true :: _ => true
  | .brace false false :: _ => s.lastIsSign ')' || s.lastIsSign '?'
  | [] | .brace true false :: _ =>
      [')', ']', '\x7d', '?', '!'].any s.lastIsSign ||
        match s.recent with
        | name :: before :: _ =>
            name.kind == .word && (before.isSign ',' || ["const", "let", "var"].any before.isWord)
        | _ => false
  | _ => false

/-- Whether a type is over where a character comes next that begins a token. -/
def endsType (s : Control) (y : Typing) (c : Char) : Bool :=
  s.frames.length < y.depth ||
    s.frames.length == y.depth &&
      (c == ';' ||
        !s.operand &&
          (c == '"' || c == '\'' ||
            s.line.hasEnded && (Lexeme.isWordPart c || c == '@' || c == '#')) ||
        if y.use == .declaration then s.operand && s.lastIsSign '\x7d'
        else
          y.angles == 0 &&
            (c == ',' || c == '\x7b' && !s.operand ||
              s.lastIsSign '=' && !(c == '>' && s.gap.isEmpty) ||
              y.use == .result && s.lastIsArrow ||
              y.use == .assertion &&
                (!s.operand && !(['.', '[', '<', '>', '|', '&', '=', '/'].contains c) ||
                  (c == '|' || c == '&') && s.lastIsSign c && s.gap.isEmpty)))

/-- The type at hand where a character comes next that begins a token. -/
def typedBefore (s : Control) (c : Char) : Option Typing :=
  match s.typed.filter (!s.endsType · c) with
  | some y =>
      if s.frames.length != y.depth then some y
      else if c == '<' then some { y with angles := y.angles + 1 }
      else if c == '>' && !(s.lastIsSign '=' && s.gap.isEmpty) then
        some { y with angles := y.angles - 1 }
      else some y
  | none =>
      if c == ':' && s.annotates then
        some ⟨if s.mark == .parameters then .result else .place, s.frames.length, 0⟩
      else none

/-- Whether the question mark before a character begins a conditional. -/
def asks (s : Control) (c : Char) : Bool :=
  s.mark == .question && s.typed.isNone &&
    !([':', ')', ',', ';', '=', ']', '\x7d', '>', '|', '&'].contains c) &&
    !(s.gap.isEmpty && (c == '.' || c == '?' || s.inMembers && (c == '(' || c == '<')))

def isChoice : Frame → Bool
  | .choice _ => true
  | _ => false

/-- The frames where a character comes next that begins a token. -/
def framesBefore (s : Control) (c : Char) : List Frame :=
  if s.asks c then .choice true :: s.frames
  else if c == ':' && s.typed.all (s.endsType · c) && s.frames.head?.any isChoice then s.frames.tail
  else if [')', ']', '\x7d', ';'].contains c then s.frames.dropWhile isChoice
  else s.frames

def markBefore (s : Control) (c : Char) : Mark :=
  if s.mark == .question then .plain
  else if c == ':' && s.frames.head? == some (.choice true) then .alternative
  else s.mark

/-- The head of a class begins where a name, a type parameter or the body comes after the word, and
ends where the body begins. -/
def classHeadBefore (s : Control) (c : Char) : Option ClassHead :=
  if (Lexeme.isWordPart c || c == '\x7b' || c == '<') && s.lastIsWord ["class"] then
    let isStatement := s.recent.tail.head?.any (·.isWord "default") ||
      opensBlock { s with recent := s.recent.tail }
    some ⟨s.frames.length, isStatement⟩
  else if s.inMembers && s.lastIsSign '\x7b' then none
  else s.classHead

/-- What is known of the tokens so far once a character begins the next. -/
def prepare (s : Control) (c : Char) : Control :=
  { s with
    frames := s.framesBefore c, typed := s.typedBefore c, mark := s.markBefore c
    classHead := s.classHeadBefore c }

/-- Whether a brace at the top of a file may open the attributes of an import, which come after the
module or the parenthesis after it. -/
def opensAttributes (s : Control) : Bool :=
  match s.recent with
  | t :: before => ["with", "assert"].any t.isWord && before.all (·.isSign ')')
  | [] => false

/-- Whether an angle bracket here may open an element. One that follows another, a dot, `new` or
the `function` of a generator does not, nor one in a type or after a member that may be missing. -/
def opensElement (s : Control) : Bool :=
  s.operand && s.typed.isNone && s.classHead.all (·.depth != s.frames.length) &&
    !(s.gap.isEmpty && (s.lastIsSign '<' || s.inMembers && s.lastIsSign '?')) &&
    !s.lastIsSign '.' && !s.lastIsWord ["new"] &&
    !(s.lastIsSign '*' && s.recent.tail.head?.any (·.isWord "function"))

/-- Whether the word `import` here begins a declaration, if no call or member follows. After a
label, the head of a statement, `else` or `do` it is part of that statement. -/
def opensImport (s : Control) (word : List Char) : Bool :=
  word == "import".toList && s.frames.isEmpty && !s.lastIsSign '.' && !s.lastIsSign ':' &&
    !(s.operand && s.lastIsSign ')') && !s.lastIsWord ["export", "else", "do"]

/-! ### Signs -/

def isLoose : Frame → Bool
  | .parenthesis _ _ | .bracket | .choice _ | .typeArguments => true
  | _ => false

def closeBrace (s : Control) : Emission :=
  match s.frames.dropWhile isLoose with
  | .brace block _ :: frames =>
      if block && frames.isEmpty && !s.importing then s.emitEnd '\x7d'
      else (s.emit .sign ['\x7d'] block).update fun s => { s with frames }
  | .attributes :: _ => ([⟨.attributesEnd, s.gap.reverse, ['\x7d']⟩], start)
  | .substitution :: frames =>
      (s.emit .sign ['\x7d'] false).update fun s =>
        { s with frames, reading := .chunk [] .plain }
  | .hole :: frames => ([⟨.holeEnd, s.gap.reverse, ['\x7d']⟩], resting frames)
  | _ => s.emit .sign ['\x7d'] true

/-- Whether an operand comes after a sign that opens and closes nothing. In a type an angle bracket
closes type arguments, unless it is part of an arrow. -/
def operandAfter (s : Control) (c : Char) : Bool :=
  if c == '+' || c == '-' then
    if s.lastIsSign c && s.gap.isEmpty then s.wasOperand else true
  else if c == '!' then s.mayBegin
  else if c == '>' && s.typed.isSome then s.lastIsSign '=' && s.gap.isEmpty
  else true

def openFrame (s : Control) (c : Char) (frame : Frame) : Emission :=
  (s.emit .sign [c] true).update fun s => { s with frames := frame :: s.frames }

/-- A closing bracket leaves its frame, if that is the innermost. -/
def closeFrame (s : Control) (c : Char) (frames : List Frame) (operand : Bool) : Emission :=
  (s.emit .sign [c] operand).update fun s => { s with frames }

/-- The end of the type arguments of a tag, or of type arguments among them. -/
def closeTypeArguments (s : Control) (frames : List Frame) : Emission :=
  match frames with
  | .tag :: _ => ([⟨.sign, s.gap.reverse, ['>']⟩], resting frames)
  | frames => s.closeFrame '>' frames true

/-- A character of punctuation in code. -/
def sign (s : Control) (c : Char) : Emission :=
  match c, s.frames with
  | '(', _ =>
      let group := s.operand || s.lastIsWord ["async"]
      s.openFrame c (.parenthesis (s.lastIsWord ["if", "for", "while", "with"]) group)
  | '[', _ => s.openFrame c .bracket
  | '\x7b', frames =>
      s.openFrame c (
        if frames.isEmpty && s.opensAttributes then .attributes
        else if s.opensMembers then .brace (s.classHead.any (·.isStatement)) true
        else .brace s.opensBlock false)
  | ')', .parenthesis head _ :: frames => s.closeFrame c frames head
  | ')', _ => s.emit .sign [c] false
  | ']', .bracket :: frames => s.closeFrame c frames false
  | ']', _ => s.emit .sign [c] false
  | '\x7d', _ => s.closeBrace
  | '<', .typeArguments :: _ => s.openFrame c .typeArguments
  | '>', .typeArguments :: frames =>
      if s.lastIsSign '=' && s.gap.isEmpty then s.emit .sign [c] true
      else s.closeTypeArguments frames
  | ';', [] => s.emitEnd c
  | _, _ => s.emit .sign [c] (s.operandAfter c)

/-! ### Elements -/

def openTag (s : Control) : Emission :=
  ([⟨.angle (s.lastIsSign '=' && s.frames.head? == some .tag), s.gap.reverse, ['<']⟩],
    resting (.tag :: s.frames))

def openHole (s : Control) : Emission :=
  ([⟨.hole (s.lastIsSign '='), s.gap.reverse, ['\x7b']⟩], entering (.hole :: s.frames))

/-- The angle bracket at the end of a tag. -/
def closeTag (s : Control) : Emission :=
  match s.frames with
  | .tag :: frames =>
      if s.lastIsSign '/' && s.gap.isEmpty then
        ([⟨.elementEnd, [], ['>']⟩], resting frames)
      else ([⟨.tagEnd, s.gap.reverse, ['>']⟩], resting (.content :: frames))
  | _ :: frames => ([⟨.elementEnd, s.gap.reverse, ['>']⟩], resting frames)
  | [] => s.emit .sign ['>'] true

/-- The first character of a token in a tag, or white space before it. -/
def beginTag (s : Control) (c : Char) : Emission :=
  if Lexeme.isBlank c then s.space c
  else if c == '"' || c == '\'' then s.keep (.attribute c [c] none)
  else if c == '\x7b' then s.openHole
  else if c == '/' then s.keep .slash
  else if c == '>' then s.closeTag
  else if c == '<' then
    if s.lastIsSign '=' then s.openTag
    else
      (s.emit .sign [c] false).update fun s => { s with frames := .typeArguments :: s.frames }
  else if Lexeme.isWordPart c && !c.isDigit then s.keep (.tagWord [c] false)
  else s.emit .sign [c] false

def stepContent (s : Control) (done : List Char) (c : Char) : Emission :=
  if c == '<' then (s.emitText .text done).andThen (·.keep .contentAngle)
  else if c == '\x7b' then (s.emitText .text done).andThen (·.openHole)
  else if Lexeme.breaksText c then (s.emitText .text done).andThen (·.keep (.broken [c] 0))
  else s.keep (.content (c :: done))

def stepContentAngle (s : Control) (c : Char) : Emission :=
  if c == '/' then ([⟨.closing, s.gap.reverse, ['<', '/']⟩], resting (.closingTag :: s.frames.tail))
  else s.openTag.andThen (·.beginTag c)

def stepTagWord (s : Control) (done : List Char) (hyphen : Bool) (c : Char) : Emission :=
  if hyphen && Lexeme.isHyphenated c || !hyphen && Lexeme.isWordPart c then
    s.keep (.tagWord (c :: done) hyphen)
  else if !hyphen && c == '-' then s.keep (.tagWord (c :: done) true)
  else (s.emit .word done.reverse false).andThen (·.beginTag c)

/-- An ampersand before a letter or `#` must begin a character reference; any other ampersand
takes the character after it along, a quote too. -/
def stepAttribute (s : Control) (quote : Char) (done : List Char) (reference : Option (List Char))
    (c : Char) : Emission :=
  match reference with
  | none =>
      if c == quote then
        ([⟨if s.lastIsSign '=' then .attribute else .string, s.gap.reverse, (c :: done).reverse⟩],
          resting s.frames)
      else s.keep (.attribute quote (c :: done) (if c == '&' then some [] else none))
  | some [] =>
      s.keep (.attribute quote (c :: done) (if c == '#' || c.isAlpha then some [c] else none))
  | some since =>
      if c == '#' || c.isAlphanum then s.keep (.attribute quote (c :: done) (some (c :: since)))
      else if c == ';' && (Lexeme.reference ('&' :: (c :: since).reverse)).isSome then
        s.keep (.attribute quote (c :: done) none)
      else s.keep (.broken (c :: done) (done.length - since.length - 1))

/-! ### Code -/

/-- Whether an operand comes after a word. The word `of` has one after it only in the head of a
loop, and `void` in a type has none. -/
def operandAfterWord (s : Control) (word : List Char) : Bool :=
  let inHead := match s.frames with
    | .parenthesis _ _ :: _ => true
    | _ => false
  !s.lastIsSign '.' &&
    (Lexeme.operandWords.any (fun w => word == w.toList) &&
        !(word == "void".toList && s.typed.isSome) ||
      word == "of".toList && inHead && !s.operand)

/-- Whether a word asserts a type of the operand before it. -/
def asserts (s : Control) (word : List Char) : Bool :=
  ["as", "satisfies"].any (fun w => word == w.toList) &&
    !s.operand && s.typed.isNone && !s.importing && !s.lastIsSign '.'

def typedAfter (s : Control) (word : List Char) : Option Typing :=
  if s.lastIsWord ["type", "interface"] then some ⟨.declaration, s.frames.length, 0⟩
  else if s.asserts word then some ⟨.assertion, s.frames.length, 0⟩
  else s.typed

/-- The frames after a word, which in a block may begin a case of a `switch`. -/
def framesAfter (s : Control) (word : List Char) : List Frame :=
  match s.frames with
  | .brace true false :: _ =>
      if word == "case".toList && !s.lastIsSign '.' then .choice false :: s.frames else s.frames
  | frames => frames

def emitWord (s : Control) (word : List Char) : Emission :=
  (s.emit .word word (s.operandAfterWord word || s.asserts word)).update fun after =>
    { after with typed := s.typedAfter word, frames := s.framesAfter word }

/-- The first character of a token in code. -/
def beginToken (markup : Bool) (s : Control) (c : Char) : Emission :=
  if c == '"' || c == '\'' then s.keep (.quoted c [c] .plain)
  else if c == '\x60' then
    (s.emit .sign [c] true).update fun s =>
      { s with frames := .template :: s.frames, reading := .chunk [] .plain }
  else if c == '/' then s.keep .slash
  else if c == '.' then s.keep .dot
  else if c == '#' then s.keep .hash
  else if c == '\\' then s.keep (.wordEscape [c] .backslash)
  else if c.isDigit then s.keep (.number [c])
  else if Lexeme.isWordPart c then s.keep (.word [c])
  else if c == '<' && markup && s.opensElement then s.keep (.angle [])
  else s.sign c

def beginCode (markup : Bool) (s : Control) (c : Char) : Emission :=
  if Lexeme.isBlank c then s.space c else (s.prepare c).beginToken markup c

def begin (markup : Bool) (s : Control) (c : Char) : Emission :=
  match s.frames with
  | .tag :: _ | .closingTag :: _ => s.beginTag c
  | _ => s.beginCode markup c

/-- The word `import` at the top of a file, after which the head of a declaration begins. -/
def emitImport (s : Control) : Emission :=
  ([⟨.importWord, s.gap.reverse, "import".toList⟩], heading [])

/-- After `import` and white space: a call or a member makes it an ordinary word. -/
def stepImporting (markup : Bool) (s : Control) (after : List Char) (c : Char) : Emission :=
  if Lexeme.isBlank c then s.keep (.importing (c :: after))
  else
    let e :=
      if c == '(' || c == '.' then s.emitWord "import".toList
      else s.emitImport
    e.andThen fun s => { s with gap := after }.begin markup c

def stepWord (markup : Bool) (s : Control) (done : List Char) (c : Char) : Emission :=
  if Lexeme.isWordPart c then s.keep (.word (c :: done))
  else if c == '\\' then s.keep (.wordEscape (c :: done) .backslash)
  else if s.opensImport done.reverse then s.stepImporting markup [] c
  else (s.emitWord done.reverse).andThen (·.begin markup c)

def stepWordEscape (s : Control) (done : List Char) (e : Escaping) (c : Char) : Emission :=
  match if e == .backslash && c != 'u' then none else e.next c with
  | some .plain => s.keep (.word (c :: done))
  | some e' => s.keep (.wordEscape (c :: done) e')
  | none => s.keep (.broken (c :: done) (done.length - e.length))

def stepNumber (markup : Bool) (s : Control) (done : List Char) (c : Char) : Emission :=
  let number := done.reverse
  if Lexeme.extendsNumber number c then s.keep (.number (c :: done))
  else if Lexeme.isNumber number then (s.emit .number number false).andThen (·.begin markup c)
  else s.keep (.broken (c :: done) (Lexeme.numberLength number))

def stepRegex (s : Control) (done : List Char) (inClass escaped : Bool) (c : Char) : Emission :=
  if c == '\n' then s.keep (.broken (c :: done) 1)
  else if escaped then s.keep (.regex (c :: done) inClass false)
  else if c == '\\' then s.keep (.regex (c :: done) inClass true)
  else if inClass then s.keep (.regex (c :: done) (c != ']') false)
  else if c == '/' then s.keep (.regexFlags (c :: done))
  else s.keep (.regex (c :: done) (c == '[') false)

def stepSlash (markup : Bool) (s : Control) (c : Char) : Emission :=
  if c == '/' then s.keep (.lineComment ['/', '/'])
  else if c == '*' then s.keep (.blockComment ['*', '/'])
  else if s.operand then s.stepRegex ['/'] false false c
  else (s.sign '/').andThen (·.begin markup c)

def stepQuoted (s : Control) (quote : Char) (done : List Char) (e : Escaping) (c : Char) :
    Emission :=
  if e.isOpen then
    match e.next c with
    | some e' => s.keep (.quoted quote (c :: done) e')
    | none => s.keep (.broken (c :: done) (done.length - e.length))
  else if e.takesAlong c then s.keep (.quoted quote (c :: done) .plain)
  else if c == quote then s.emit .string (c :: done).reverse false
  else if c == '\\' then s.keep (.quoted quote (c :: done) .backslash)
  else if c == '\n' || c == '\r' then s.keep (.broken (c :: done) done.length)
  else s.keep (.quoted quote (c :: done) .plain)

def stepChunk (s : Control) (done : List Char) (e : Escaping) (c : Char) : Emission :=
  -- a dollar sign is part of the text unless a brace follows
  let read := if e == .dollar then '$' :: done else done
  if e.isOpen then
    match e.next c with
    | some e' => s.keep (.chunk (c :: done) e')
    | none => s.keep (.broken (c :: done) (done.length - e.length))
  else if e.takesAlong c then s.keep (.chunk (c :: done) .plain)
  else if c == '\x60' then
    (s.emitText .chunk read).andThen fun s =>
      (s.emit .sign [c] false).update fun s => { s with frames := s.frames.tail }
  else if c == '\x7b' && e == .dollar then
    (s.emitText .chunk done).andThen fun s =>
      (s.emit .substitution ['$', c] true).update fun s =>
        { s with frames := .substitution :: s.frames }
  else if c == '$' then s.keep (.chunk read .dollar)
  else s.keep (.chunk (c :: read) (if c == '\\' then .backslash else .plain))

/-- The angle bracket and the name of a type parameter. -/
def emitParameter (s : Control) (before name : List Char) : Emission :=
  (s.sign '<').andThen fun s => { s with gap := before }.emitWord name.reverse

/-- The angle bracket and the name of a tag. -/
def emitTagName (s : Control) (before name : List Char) : Emission :=
  s.openTag.andThen fun s => { s with gap := before }.emit .word name.reverse false

/-! A name after an angle bracket is that of a tag, unless a comma or the word `extends` after it
shows that it is a type parameter, or it is the word `const` before one. -/

def stepAngle (s : Control) (before : List Char) (c : Char) : Emission :=
  if Lexeme.isBlank c then s.keep (.angle (c :: before))
  else if Lexeme.isWordPart c && !c.isDigit then s.keep (.angleName before [c])
  else s.openTag.andThen fun s => { s with gap := before }.beginTag c

def stepAngleName (markup : Bool) (s : Control) (before name : List Char) (c : Char) : Emission :=
  if c == ',' then (s.emitParameter before name).andThen (·.begin markup c)
  else if Lexeme.isBlank c then s.keep (.angleSpace before name [c])
  else if Lexeme.isWordPart c then s.keep (.angleName before (c :: name))
  else s.openTag.andThen fun s => { s with gap := before }.stepTagWord name false c

def stepAngleSpace (markup : Bool) (s : Control) (before name after : List Char) (c : Char) :
    Emission :=
  if c == ',' || name.reverse == "const".toList && Lexeme.isWordPart c then
    (s.emitParameter before name).andThen fun s => { s with gap := after }.begin markup c
  else if Lexeme.isBlank c then s.keep (.angleSpace before name (c :: after))
  else if c == 'e' then s.keep (.angleWord before name after [c])
  else (s.emitTagName before name).andThen fun s => { s with gap := after }.beginTag c

def stepAngleWord (markup : Bool) (s : Control) (before name after second : List Char)
    (c : Char) : Emission :=
  if Lexeme.isWordPart c then s.keep (.angleWord before name after (c :: second))
  else if second.reverse == "extends".toList && Lexeme.isBlank c then
    (s.emitParameter before name).andThen fun s =>
      ({ s with gap := after }.emitWord second.reverse).andThen (·.begin markup c)
  else (s.emitTagName before name).andThen fun s =>
    { s with gap := after }.stepTagWord second false c

/-- Takes one character. In a file with `markup` an angle bracket may open an element. -/
def step (markup : Bool) (s : Control) (c : Char) : Emission :=
  match s.reading with
  | .nothing => s.begin markup c
  | .word done => s.stepWord markup done c
  | .wordEscape done e => s.stepWordEscape done e c
  | .importing after => s.stepImporting markup after c
  | .dot =>
      if c.isDigit then s.keep (.number [c, '.']) else (s.sign '.').andThen (·.begin markup c)
  | .number done => s.stepNumber markup done c
  | .hash =>
      if c == '!' then s.keep (.hashBang [c, '#'])
      else if Lexeme.isWordPart c && !c.isDigit then s.keep (.privateWord [c, '#'])
      else s.keep (.broken [c, '#'] 1)
  | .privateWord done =>
      if Lexeme.isWordPart c then s.keep (.privateWord (c :: done))
      else (s.emit .privateWord done.reverse false).andThen (·.begin markup c)
  | .hashBang done =>
      if c == '\n' then (s.emit .hashBang done.reverse true).andThen (·.begin markup c)
      else s.keep (.hashBang (c :: done))
  | .slash => s.stepSlash markup c
  | .lineComment done =>
      if Lexeme.isLineEnd c then (s.emitComment done).andThen (·.begin markup c)
      else s.keep (.lineComment (c :: done))
  | .blockComment done =>
      if c == '/' && done.head? == some '*' && 2 < done.length then s.emitComment (c :: done)
      else s.keep (.blockComment (c :: done))
  | .regex done inClass escaped => s.stepRegex done inClass escaped c
  | .regexFlags done =>
      if 'a' ≤ c && c ≤ 'z' then s.keep (.regexFlags (c :: done))
      else (s.emit .regex done.reverse false).andThen (·.begin markup c)
  | .quoted quote done e => s.stepQuoted quote done e c
  | .chunk done e => s.stepChunk done e c
  | .angle before => s.stepAngle before c
  | .angleName before name => s.stepAngleName markup before name c
  | .angleSpace before name after => s.stepAngleSpace markup before name after c
  | .angleWord before name after second => s.stepAngleWord markup before name after second c
  | .tagWord done hyphen => s.stepTagWord done hyphen c
  | .attribute quote done reference => s.stepAttribute quote done reference c
  | .content done => s.stepContent done c
  | .contentAngle => s.stepContentAngle c
  | .broken done sound => s.keep (.broken (c :: done) sound)

/-- Takes the characters of a text. -/
def run (markup : Bool) (s : Control) : List Char → Emission
  | [] => ([], s)
  | c :: r => (s.step markup c).andThen (·.run markup r)

/-- Ends the token at hand where the text ends. -/
def flush (s : Control) : Emission :=
  let broken (done : List Char) (sound : Nat) := s.emit (.broken sound) done.reverse false
  match s.reading with
  | .nothing => ([], s)
  | .word done =>
      if s.opensImport done.reverse then s.emitImport else s.emitWord done.reverse
  | .wordEscape done e => broken done (done.length - e.length)
  | .importing after =>
      s.emitImport.update fun s => { s with gap := after }
  | .dot => s.sign '.'
  | .number done =>
      if Lexeme.isNumber done.reverse then s.emit .number done.reverse false
      else broken done (Lexeme.numberLength done.reverse)
  | .hash => broken ['#'] 1
  | .privateWord done => s.emit .privateWord done.reverse false
  | .hashBang done => s.emit .hashBang done.reverse true
  | .slash => s.sign '/'
  | .lineComment done => s.emitComment done
  | .blockComment done => broken done 1
  | .regex done _ _ => broken done 1
  | .regexFlags done => s.emit .regex done.reverse false
  | .quoted _ done e => broken done (done.length - e.length)
  | .chunk done e =>
      if e == .dollar then broken ('$' :: done) (done.length + 1)
      else broken done (done.length - e.length)
  | .angle before => s.openTag.update fun s => { s with gap := before }
  | .angleName before name => s.emitTagName before name
  | .angleSpace before name after =>
      (s.emitTagName before name).update fun s => { s with gap := after }
  | .angleWord before name after second =>
      (s.emitTagName before name).andThen fun s =>
        { s with gap := after }.emit .word second.reverse false
  | .tagWord done _ => s.emit .word done.reverse false
  | .attribute _ done reference =>
      broken done (match reference with
        | some since => done.length - since.length - 1
        | none => done.length)
  | .content done => s.emitText .text done
  | .contentAngle => s.openTag
  | .broken done sound => broken done sound

def finish (s : Control) : List Token :=
  let e := s.flush
  e.1 ++ [⟨.stop, e.2.gap.reverse, []⟩]

end Control

/-- The tokens of a text. -/
def tokens (markup : Bool) (text : List Char) : List Token :=
  let e := Control.start.run markup text
  e.1 ++ e.2.finish

end Phrasebook.Source

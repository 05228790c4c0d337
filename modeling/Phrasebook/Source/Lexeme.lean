import Phrasebook.Text.Digit

/-!
The lexical grammar: which characters make up words and the space between tokens, which words are
reserved, how long a number, a character reference or an operator at the front of a text is.
-/

namespace Phrasebook.Source.Lexeme

open Text

/-- Characters between tokens, including the byte order mark and the zero width space. -/
def isBlank (c : Char) : Bool :=
  let n := c.toNat
  (0x09 ≤ n && n ≤ 0x0d) || n == 0x20 || n == 0x85 || n == 0xa0 || n == 0x1680 ||
    (0x2000 ≤ n && n ≤ 0x200b) || n == 0x2028 || n == 0x2029 || n == 0x202f || n == 0x205f ||
    n == 0x2060 || n == 0x3000 || n == 0xfeff

/-- Spaces at which a line may be broken. They matter where a line end can stand for a
semicolon, and in markup text. -/
def isBreakingSpace (c : Char) : Bool :=
  let n := c.toNat
  (0x09 ≤ n && n ≤ 0x0d) || n == 0x20 || n == 0x1680 || (0x2000 ≤ n && n ≤ 0x2006) ||
    (0x2008 ≤ n && n ≤ 0x200a) || n == 0x2028 || n == 0x2029 || n == 0x205f || n == 0x3000

def isLineEnd (c : Char) : Bool :=
  c == '\n' || c == '\r' || c.toNat == 0x2028 || c.toNat == 0x2029

def punctuation : List Char :=
  [':', ';', '\x60', '"', '\'', '@', '#', '.', ',', '|', '^', '&', '<', '=', '>', '+', '-', '*',
    '/', '\\', '%', '?', '!', '~', '(', ')', '[', ']', '\x7b', '\x7d']

def isWordPart (c : Char) : Bool :=
  0x20 < c.toNat && !isBlank c && !punctuation.contains c

/-- Characters of a tag or attribute name after its first hyphen. -/
def isHyphenated (c : Char) : Bool := c.isAlphanum || c == '_' || c == '$' || c == '-'

def isOctal (c : Char) : Bool := '0' ≤ c && c ≤ '7'

/-! ### Words -/

/-- Words that are never identifiers. -/
def reserved : List String :=
  ["break", "case", "catch", "class", "const", "continue", "debugger", "default", "delete", "do",
    "else", "enum", "extends", "false", "finally", "for", "function", "if", "import", "in",
    "instanceof", "new", "null", "return", "super", "switch", "this", "throw", "true", "try",
    "typeof", "var", "void", "while", "with"]

def isReserved (w : List Char) : Bool := reserved.any fun r => w == r.toList

/-- Words after which an operand comes rather than an operator. -/
def operandWords : List String :=
  ["await", "case", "default", "delete", "do", "else", "extends", "in", "instanceof", "new",
    "return", "throw", "typeof", "void", "yield"]

/-! ### Numbers -/

/-- Digits with single underscores between them. -/
def digitsLength (digit : Char → Bool) : List Char → Nat
  | [] => 0
  | c :: r =>
      if digit c then
        match r with
        | '_' :: d :: r' => if digit d then 2 + digitsLength digit (d :: r') else 1
        | r => 1 + digitsLength digit r
      else 0

def exponentLength (text : List Char) : Nat :=
  let counted (signLength : Nat) (r : List Char) : Nat :=
    let n := digitsLength Char.isDigit r
    if n == 0 then 0 else 1 + signLength + n
  match text with
  | e :: r =>
      if e == 'e' || e == 'E' then
        match r with
        | '+' :: r' => counted 1 r'
        | '-' :: r' => counted 1 r'
        | r => counted 0 r
      else 0
  | [] => 0

def bigMark (text : List Char) : Nat := if text.head? == some 'n' then 1 else 0

def radixLength (digit : Char → Bool) (r : List Char) : Nat :=
  let n := digitsLength digit r
  if n == 0 then 2 else 2 + n + bigMark (r.drop n)

/-- How much of a text that begins like a number is one. A sign of the radix without digits is
none, though it is counted. -/
def numberLength (text : List Char) : Nat :=
  match text with
  | '0' :: 'x' :: r => radixLength isHex r
  | '0' :: 'X' :: r => radixLength isHex r
  | '0' :: 'o' :: r => radixLength isOctal r
  | '0' :: 'O' :: r => radixLength isOctal r
  | '0' :: 'b' :: r => radixLength (fun c => c == '0' || c == '1') r
  | '0' :: 'B' :: r => radixLength (fun c => c == '0' || c == '1') r
  | '.' :: r =>
      let n := digitsLength Char.isDigit r
      1 + n + exponentLength (r.drop n)
  | text =>
      let whole := digitsLength Char.isDigit text
      match text.drop whole with
      | '.' :: r =>
          let fraction := digitsLength Char.isDigit r
          whole + 1 + fraction + exponentLength (r.drop fraction)
      | r =>
          let power := exponentLength r
          if power == 0 then whole + bigMark r else whole + power

/-- The two characters that announce digits to another base. -/
def isRadixMark : List Char → Bool
  | ['0', c] => "xXoObB".toList.contains c
  | _ => false

def isNumber (text : List Char) : Bool :=
  numberLength text == text.length && !isRadixMark text

/-- Whether a character goes on with a number, sound or not. -/
def extendsNumber (number : List Char) (c : Char) : Bool :=
  if c == '.' then number.all fun d => d.isDigit || d == '_'
  else if c == '+' || c == '-' then
    !isRadixMark (number.take 2) && (number.getLast? == some 'e' || number.getLast? == some 'E')
  else isWordPart c

/-! ### Markup -/

/-- A character reference: a number of up to six hexadecimal or five decimal digits, or a name
of up to thirty letters, between an ampersand and a semicolon. -/
def reference : List Char → Option Nat
  | '&' :: r =>
      let counted (lead most : Nat) (digit : Char → Bool) (body : List Char) : Option Nat :=
        let n := (body.takeWhile digit).length
        if 0 < n && n ≤ most && (body.drop n).head? == some ';' then some (lead + n + 1) else none
      match r with
      | '#' :: 'x' :: body => counted 3 6 isHex body
      | '#' :: 'X' :: body => counted 3 6 isHex body
      | '#' :: body => counted 2 5 Char.isDigit body
      | body => counted 1 30 Char.isAlpha body
  | _ => none

/-- The characters before the next ampersand. -/
def stretch (text : List Char) : List Char := text.takeWhile (· != '&')

/-- Whether a stretch is more than line ends with their indentation. -/
def isVisible (atLineStart : Bool) : List Char → Bool
  | [] => false
  | c :: r =>
      if c == '\n' then isVisible true r
      else if atLineStart && isBreakingSpace c then isVisible true r
      else true

/-- The first piece of an element text: whether it is more than layout, and how many characters
it has after its first. An ampersand that begins no reference goes with what follows it up to the
last visible character before the next ampersand. -/
def piece (c : Char) (r : List Char) : Bool × Nat :=
  if c == '&' then
    match reference (c :: r) with
    | some n => (true, n - 1)
    | none => (true, ((stretch r).reverse.dropWhile isBlank).length)
  else (isVisible false (c :: stretch r), (stretch r).length)

/-- The pieces of an element text, each with whether it is more than layout. -/
def pieces : List Char → List (Bool × List Char)
  | [] => []
  | c :: r =>
      let (visible, more) := piece c r
      (visible, c :: r.take more) :: pieces (r.drop more)
termination_by text => text.length
decreasing_by simp only [List.length_cons, List.length_drop]; omega

/-- The layout at the beginning of an element text. -/
def layoutBefore (text : List Char) : List Char :=
  ((pieces text).takeWhile fun p => !p.1).flatMap Prod.snd

/-- An element text without the layout around it. -/
def textRun (text : List Char) : List Char :=
  (((pieces text).dropWhile fun p => !p.1).reverse.dropWhile fun p => !p.1).reverse.flatMap
    Prod.snd

/-- Characters that cannot stand in the text of an element. -/
def breaksText (c : Char) : Bool := c == '>' || c == '\x7d' || c.toNat == 0

/-! ### Operators -/

/-- Operators, each before those it begins with. -/
def operators : List String :=
  [">>>=", "===", "!==", ">>>", "**=", "<<=", ">>=", "&&=", "||=", "??=", "...", "=>", "==", "!=",
    "<=", ">=", "&&", "||", "??", "?.", "++", "--", "+=", "-=", "*=", "/=", "%=", "&=", "|=", "^=",
    "<<", ">>", "**", "+", "-", "*", "/", "%", "&", "|", "^", "<", ">", "=", "!", "~", "?"]

/-- The longest operator at the front. -/
def operator? (text : List Char) : Option String :=
  operators.find? fun o => o.toList.isPrefixOf text

def binaryOperators : List String :=
  ["&&", "||", "??", ">>", ">>>", "<<", "&", "^", "|", "+", "-", "*", "/", "%", "**", "<", "<=",
    "==", "===", "!=", "!==", ">=", ">"]

def assignmentOperators : List String :=
  ["=", "+=", "-=", "*=", "/=", "%=", "^=", "&=", "|=", ">>=", ">>>=", "<<=", "**=", "&&=", "||=",
    "??="]

end Phrasebook.Source.Lexeme

/-!
Tokens. A token is a piece of the source text together with the white space before it, so the
tokens of a text, written one after the other, are that text again.

Where the meaning of a character depends on what stands around it, the kind of the token already
says which meaning it has: the angle bracket that opens an element is no comparison, and the text
of an element is no code.
-/

namespace Phrasebook.Source

/-- What an outline shows of a part that is read on its own. -/
inductive Role where
  | element
  /-- An expression in braces. -/
  | braces
  /-- The value of an attribute. -/
  | value
  deriving DecidableEq, Repr

/-- How a part in a role begins, as far as code around it can tell. -/
def Role.mark : Role → List Char
  | element => ['<']
  | braces => ['\x7b']
  | value => []

inductive TokenKind where
  | word
  /-- The word `import` at the top of a file, where a declaration begins with it. -/
  | importWord
  | privateWord
  | number
  | string
  /-- A quoted value in a tag, with character references in place of escapes. -/
  | attribute
  | regex
  /-- One character of punctuation. -/
  | sign
  /-- Characters of a template. -/
  | chunk
  /-- The two characters that open a substitution. -/
  | substitution
  | comment
  | hashBang
  /-- The angle bracket that opens an element, which may be the value of an attribute. -/
  | angle (value : Bool)
  /-- The angle bracket after which the content of an element begins. -/
  | tagEnd
  /-- The two characters that open a closing tag. -/
  | closing
  /-- The angle bracket that ends an element. -/
  | elementEnd
  /-- All text of an element from one tag or brace to the next. -/
  | text
  /-- The brace that opens an expression in an element, which may be the value of an attribute. -/
  | hole (value : Bool)
  | holeEnd
  /-- The brace after the attributes of an import at the top of a file. -/
  | attributesEnd
  /-- All that is left from a token on that cannot be read, and how many of its characters can. -/
  | broken (sound : Nat)
  /-- The end of the text. -/
  | stop
  /-- The end of a section, before the import that begins the next. -/
  | border
  /-- A part that is read on its own: its role and its number among such parts. -/
  | nested (role : Role) (index : Nat)
  deriving DecidableEq, Repr

/-- Whether a token stands for a part in the given role. -/
def TokenKind.isNested (role : Role) : TokenKind → Bool
  | .nested r _ => r == role
  | _ => false

/-- Whether a token opens an element or an expression in braces of one. -/
def TokenKind.opens : TokenKind → Bool
  | .angle _ | .hole _ => true
  | _ => false

def TokenKind.closes : TokenKind → Bool
  | .elementEnd | .holeEnd => true
  | _ => false

/-- The sum of some numbers. -/
def addUp (l : List Nat) : Nat := l.foldr (· + ·) 0

theorem addUp_cons (n : Nat) (l : List Nat) : addUp (n :: l) = n + addUp l := rfl

/-- The number of bytes of a text in UTF-8. -/
def byteLength (text : List Char) : Nat := text.foldl (fun n c => n + c.utf8Size) 0

structure Token where
  kind : TokenKind
  /-- The white space before the token. -/
  gap : List Char
  text : List Char
  deriving DecidableEq, Repr

namespace Token

def chars (t : Token) : List Char := t.gap ++ t.text

/-- The number of bytes of a token and of the white space before it. -/
def width (t : Token) : Nat := byteLength t.gap + byteLength t.text

def isSign (t : Token) (c : Char) : Bool := t.kind == .sign && t.text == [c]

def isWord (t : Token) (w : String) : Bool := t.kind == .word && t.text == w.toList

/-- A closing brace of code. -/
def closesBrace (t : Token) : Bool := t.isSign '\x7d' || t.kind == .attributesEnd

/-- Whether the head of an import may hold the token. -/
def isHeadPart (t : Token) : Bool :=
  t.kind == .word || t.kind == .string || [',', '*', '\x7b', '\x7d'].any t.isSign

end Token

end Phrasebook.Source

/-!
Lines of text. A text file may end its lines with a line feed, a carriage return or both; for
showing a text line by line, a few more characters end a line.
-/

namespace Phrasebook.Text

/-- The text with a line feed for every line end. -/
def feedLines : List Char → List Char
  | [] => []
  | '\r' :: '\n' :: rest => '\n' :: feedLines rest
  | c :: rest => (if c == '\r' then '\n' else c) :: feedLines rest

/-- Characters that end a line: the line ends of ASCII, its upper three separators, and those of
Unicode. -/
def endsLine (c : Char) : Bool :=
  let n := c.toNat
  (0x0a ≤ n && n ≤ 0x0d) || (0x1c ≤ n && n ≤ 0x1e) || n == 0x85 || n == 0x2028 || n == 0x2029

/-- The lines of a text, each with the characters that end it. -/
def keptLines : List Char → List (List Char)
  | [] => []
  | '\r' :: '\n' :: rest => ['\r', '\n'] :: keptLines rest
  | c :: rest =>
      if endsLine c then [c] :: keptLines rest
      else match keptLines rest with
        | [] => [[c]]
        | line :: lines => (c :: line) :: lines

end Phrasebook.Text

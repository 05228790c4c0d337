import Phrasebook.Path
import Phrasebook.Text.Escape
import Phrasebook.Text.Space

/-!
Calls of a translation function, as they are written into a source file.
-/

namespace Phrasebook.Call

open Text

inductive Fault where
  /-- No name is left between the dots. -/
  | empty
  | segment (part : List Char)
  deriving DecidableEq, Repr

def Fault.message : Fault → String
  | .empty => "Translation function name is invalid."
  | .segment part =>
      s!"Translation function name segment '{String.ofList part}' is not a valid identifier."

def opensIdentifier (c : Char) : Bool := c.isAlpha || c == '_' || c == '$'

def isIdentifier : List Char → Bool
  | [] => false
  | c :: r => opensIdentifier c && r.all fun d => opensIdentifier d || d.isDigit

/-- The names between the dots of a function path, trimmed, without the empty ones. -/
def segments (name : List Char) : List (List Char) :=
  ((Path.splitAt '.' name).map strip).filter fun part => !part.isEmpty

/-- The function path in its plain form. -/
def callee (name : List Char) : Except Fault (List Char) :=
  let parts := segments name
  if parts.isEmpty then .error .empty
  else match parts.find? fun part => !isIdentifier part with
    | some part => .error (.segment part)
    | none => .ok (['.'].intercalate parts)

/-- The call with a key as its only argument. -/
def render (name key : List Char) : Except Fault (List Char) :=
  (callee name).map fun f => f ++ '(' :: Escape.quoted key ++ [')']

end Phrasebook.Call

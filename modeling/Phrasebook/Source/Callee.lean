import Phrasebook.Source.Literal

/-!
Names of called functions. A callee has a name if it is a chain of member accesses, plain or
optional, from an identifier or `this`; the name is the chain with dots between its parts.
-/

namespace Phrasebook.Source

namespace Node

/-- The names along a chain of member accesses, if the node is one. -/
def chain : Node → Option (List (List Char))
  | leaf .name _ text => some [text]
  | branch .member _ (object :: following) =>
      match following.getLast? with
      | some (leaf .property _ text) => object.chain.map (· ++ [text])
      | _ => none
  | _ => none

/-- The chain as a dotted name. -/
def dottedName (n : Node) : Option (List Char) :=
  n.chain.map fun names => ['.'].intercalate names

def callee (call : Node) : Option (List Char) := call.children.head?.bind dottedName

/-- The first argument of a call, be it a comment. A tagged template has none. -/
def firstArgument (call : Node) : Option Node :=
  match call.children.getLast? with
  | some (branch .arguments _ arguments) => arguments.head?
  | _ => none

end Node

/-- Calls with their position and the name of what they call. -/
def Document.calls (d : Document) : List (Position × Option (List Char)) :=
  (d.all.filter (·.isBranch .call)).map fun n => (d.position n.start, n.callee)

end Phrasebook.Source

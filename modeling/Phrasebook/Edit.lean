import Phrasebook.Source.Literal
import Phrasebook.Text.Utf8

/-!
Edits. An edit replaces the bytes between two offsets of a text. Edits are made together, each
against the text as it was, so no two of them may overlap; whatever lies outside them stays byte
for byte.
-/

namespace Phrasebook

open Text

/-- Offsets count bytes; one below zero counts back from the end. -/
structure Edit where
  start : Int
  stop : Int
  replacement : List Char
  deriving DecidableEq, Repr

namespace Edit

inductive Fault where
  | overlap
  /-- The bytes after the edits are no text. -/
  | notText
  deriving DecidableEq, Repr

def Fault.message : Fault → String
  | overlap => "Overlapping source edits cannot be applied."
  | notText => "The edited bytes are not valid UTF-8 text."

/-- Edits come in the order of their starts, then of their ends. -/
def precedes (a b : Edit) : Bool := a.start < b.start || (a.start == b.start && a.stop ≤ b.stop)

def ordered (edits : List Edit) : List Edit := edits.mergeSort precedes

/-- Some edit begins before the one in front of it has ended. -/
def overlapping : List Edit → Bool
  | a :: b :: rest => b.start < a.stop || overlapping (b :: rest)
  | _ => false

/-- An offset as a count of bytes from the front. -/
def place (length : Nat) (offset : Int) : Nat :=
  if offset < 0 then (offset + length).toNat else min offset.toNat length

/-- The bytes from one offset to another. -/
def between (data : Utf8.Bytes) (start stop : Int) : Utf8.Bytes :=
  let first := place data.length start
  (data.drop first).take (place data.length stop - first)

/-- The bytes from the end of one edit on, with the edits after it made. -/
def spliceFrom (data : Utf8.Bytes) (cursor : Int) : List Edit → Utf8.Bytes
  | [] => between data cursor data.length
  | e :: rest =>
      between data cursor e.start ++ Utf8.encode e.replacement ++ spliceFrom data e.stop rest

/-- The text after all edits. -/
def apply (text : List Char) (edits : List Edit) : Except Fault (List Char) :=
  let edits := ordered edits
  if overlapping edits then .error .overlap
  else match Utf8.decode (spliceFrom (Utf8.encode text) 0 edits) with
    | .ok result => .ok result
    | .error _ => .error .notText

/-- Puts a call in the place of a literal. Markup text and attributes take it in braces, the key
of an object in brackets. -/
def ofLiteral (l : Source.Literal) (call : List Char) : Edit :=
  let braced := '\x7b' :: call ++ ['\x7d']
  if l.kind = .text then ⟨l.content.start, l.content.stop, braced⟩
  else if l.inAttribute then ⟨l.span.start, l.span.stop, braced⟩
  else if l.isKey then ⟨l.span.start, l.span.stop, '[' :: call ++ [']']⟩
  else ⟨l.span.start, l.span.stop, call⟩

end Edit

end Phrasebook

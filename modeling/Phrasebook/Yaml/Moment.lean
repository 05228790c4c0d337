import Phrasebook.Text.Digit
import Phrasebook.Yaml.Cursor

/-!
Dates and times as YAML writes them, and which of them exist.
-/

namespace Phrasebook.Yaml

open Text

/-- A day, and a time of it with its zone in minutes. -/
structure Moment where
  year : Nat
  month : Nat
  day : Nat
  hour : Nat
  minute : Nat
  second : Nat
  zone : Int
  deriving DecidableEq, Repr

namespace Moment

/-! ### Reading -/

/-- A run of `least` to `most` digits as a number, and what follows it. -/
def digitRun (least most : Nat) (text : List Char) : Option (Nat × List Char) :=
  let digits := (text.take most).takeWhile Char.isDigit
  if least ≤ digits.length then some (numeral 10 digits, text.drop digits.length) else none

def afterChar (c : Char) : List Char → Option (List Char)
  | d :: rest => if d == c then some rest else none
  | [] => none

def isBlank (c : Char) : Bool := c == ' ' || c == '\t'

/-- The hours and minutes of a zone. -/
def zoneHours? (text : List Char) : Option Nat := do
  let (hours, rest) ← digitRun 1 2 text
  if rest.isEmpty then return 60 * hours
  let (minutes, rest) ← digitRun 2 2 (← afterChar ':' rest)
  if rest.isEmpty then some (60 * hours + minutes) else none

/-- A zone such as `Z` or `-05:30`, after any blanks, or nothing. -/
def zone? (text : List Char) : Option Int :=
  if text.isEmpty then some 0
  else match text.dropWhile isBlank with
    | ['Z'] => some 0
    | '+' :: rest => (zoneHours? rest).map fun n => (n : Int)
    | '-' :: rest => (zoneHours? rest).map fun n => -(n : Int)
    | _ => none

/-- What follows the mark between a date and a time. -/
def timeStart? (text : List Char) : Option (List Char) :=
  match text with
  | 'T' :: rest | 't' :: rest => some rest
  | c :: _ => if isBlank c then some (text.dropWhile isBlank) else none
  | [] => none

/-- The time of a day, after its date. -/
def readTime? (date : Moment) (text : List Char) : Option Moment := do
  let (hour, s) ← digitRun 1 2 (← timeStart? text)
  let (minute, s) ← digitRun 2 2 (← afterChar ':' s)
  let (second, s) ← digitRun 2 2 (← afterChar ':' s)
  let zone ← zone? (match s with
    | '.' :: r => r.dropWhile Char.isDigit
    | _ => s)
  return { date with hour, minute, second, zone }

/-- A date, or a date and a time. Only before a time may a month or a day have a single digit. -/
def read? (text : List Char) : Option Moment := do
  let (year, s) ← digitRun 4 4 text
  let (month, s) ← digitRun 1 2 (← afterChar '-' s)
  let (day, s) ← digitRun 1 2 (← afterChar '-' s)
  let date : Moment := ⟨year, month, day, 0, 0, 0, 0⟩
  if s.isEmpty then (if text.length == 10 then some date else none) else date.readTime? s

/-! ### Existence -/

def isLeap (year : Nat) : Bool := year % 4 == 0 && (year % 100 != 0 || year % 400 == 0)

def daysOf (year month : Nat) : Nat :=
  if month == 2 then (if isLeap year then 29 else 28)
  else if [4, 6, 9, 11].contains month then 30
  else 31

/-- Why there is no such moment, if there is none. -/
def fault? (m : Moment) : Option Impossible :=
  if 1440 ≤ m.zone.natAbs then some (.zone m.zone)
  else if m.year == 0 then some .year
  else if m.month == 0 || 12 < m.month then some (.part "month" 1 12)
  else if m.day == 0 || daysOf m.year m.month < m.day then some .day
  else if 23 < m.hour then some (.part "hour" 0 23)
  else if 59 < m.minute then some (.part "minute" 0 59)
  else if 59 < m.second then some (.part "second" 0 59)
  else none

end Moment

end Phrasebook.Yaml

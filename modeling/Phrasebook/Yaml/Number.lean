import Phrasebook.Text.Digit

/-!
Numbers as YAML writes them: integers in four bases and in sixties, and decimal fractions. A
fraction is kept exactly, as digits and a power of ten.
-/

namespace Phrasebook.Yaml

open Text

structure Decimal where
  negative : Bool
  digits : Nat
  exponent : Int
  deriving DecidableEq, Repr

inductive Number where
  | finite (d : Decimal)
  | infinite (negative : Bool)
  | undefined
  deriving DecidableEq, Repr

/-! ### Shapes -/

/-- Digits with underscores between them, from a first character on. -/
def isDigits (first other : Char → Bool) : List Char → Bool
  | [] => false
  | c :: rest => first c && rest.all fun d => other d || d == '_'

def isOctal (c : Char) : Bool := '0' ≤ c && c ≤ '7'

def isBinary (c : Char) : Bool := c == '0' || c == '1'

def isPositive (c : Char) : Bool := '1' ≤ c && c ≤ '9'

def withoutUnderscores (text : List Char) : List Char := text.filter (· != '_')

/-- The sign of a number and what follows it. -/
def signed : List Char → Bool × List Char
  | '-' :: rest => (true, rest)
  | '+' :: rest => (false, rest)
  | rest => (false, rest)

/-- Cuts a text at colons. -/
def colonParts : List Char → List (List Char)
  | [] => [[]]
  | c :: rest =>
      if c == ':' then [] :: colonParts rest
      else match colonParts rest with
        | [] => [[c]]
        | part :: parts => (c :: part) :: parts

/-- A number from 0 to 59. -/
def isSixtieth : List Char → Bool
  | [c] => c.isDigit
  | [c, d] => '0' ≤ c && c ≤ '5' && d.isDigit
  | _ => false

/-- Numbers that count down by sixties. -/
def sixties (parts : List (List Char)) : Nat :=
  parts.foldl (fun n part => 60 * n + numeral 10 (withoutUnderscores part)) 0

/-! ### Integers -/

def natural? (text : List Char) : Option Nat :=
  let plain := withoutUnderscores text
  match text with
  | ['0'] => some 0
  | '0' :: 'b' :: rest =>
      if !rest.isEmpty && rest.all (fun c => isBinary c || c == '_') then
        some (numeral 2 (plain.drop 2)) else none
  | '0' :: 'x' :: rest =>
      if !rest.isEmpty && rest.all (fun c => isHex c || c == '_') then
        some (numeral 16 (plain.drop 2)) else none
  | '0' :: rest =>
      if rest.all (fun c => isOctal c || c == '_') then some (numeral 8 plain) else none
  | _ =>
      match colonParts text with
      | [whole] => if isDigits isPositive Char.isDigit whole then some (numeral 10 plain) else none
      | whole :: parts =>
          if isDigits isPositive Char.isDigit whole && parts.all isSixtieth then
            some (sixties (whole :: parts)) else none
      | [] => none

def integer? (text : List Char) : Option Int :=
  let (negative, rest) := signed text
  (natural? rest).map fun n => if negative then -(n : Int) else n

/-- The base of an integer that is written without a digit of it. -/
def emptyBase? (text : List Char) : Option Nat :=
  match (signed text).2 with
  | '0' :: 'b' :: rest => if rest.all (· == '_') then some 2 else none
  | '0' :: 'x' :: rest => if rest.all (· == '_') then some 16 else none
  | _ => none

/-! ### Fractions -/

/-- The part after the point and a power of ten, such as `25e+3`. -/
def fraction? (text : List Char) : Option (List Char × Int) :=
  let digits := text.takeWhile fun c => c.isDigit || c == '_'
  match text.drop digits.length with
  | [] => some (withoutUnderscores digits, 0)
  | e :: sign :: power =>
      if (e == 'e' || e == 'E') && (sign == '+' || sign == '-') && !power.isEmpty &&
          power.all Char.isDigit then
        let n : Int := numeral 10 power
        some (withoutUnderscores digits, if sign == '-' then -n else n)
      else none
  | _ => none

def decimal (negative : Bool) (whole : Nat) (fraction : List Char) (power : Int) : Number :=
  .finite ⟨negative, whole * Nat.pow 10 fraction.length + numeral 10 fraction,
    power - fraction.length⟩

/-- A number with a point after its whole part. -/
def pointed? (negative : Bool) (text : List Char) : Option Number :=
  let whole := text.takeWhile (· != '.')
  match text.drop whole.length, colonParts whole with
  | '.' :: rest, [digits] =>
      if isDigits Char.isDigit Char.isDigit digits then
        (fraction? rest).map fun (f, power) =>
          decimal negative (numeral 10 (withoutUnderscores digits)) f power
      else none
  | '.' :: rest, digits :: parts =>
      if isDigits Char.isDigit Char.isDigit digits && parts.all isSixtieth &&
          rest.all (fun c => c.isDigit || c == '_') then
        some (decimal negative (sixties (digits :: parts)) (withoutUnderscores rest) 0)
      else none
  | _, _ => none

def number? (text : List Char) : Option Number :=
  let (negative, rest) := signed text
  match rest with
  | '.' :: tail =>
      if ["inf".toList, "Inf".toList, "INF".toList].contains tail then some (.infinite negative)
      else if rest.length != text.length then none
      else if ["nan".toList, "NaN".toList, "NAN".toList].contains tail then some .undefined
      else if tail.head?.any Char.isDigit then
        (fraction? tail).map fun (f, power) => decimal false 0 f power
      else none
  | _ => pointed? negative rest

/-! ### Values and texts -/

namespace Decimal

/-- The number without zeros at its end. -/
def normalize (d : Decimal) : Decimal :=
  if d.digits == 0 then ⟨d.negative, 0, 0⟩
  else
    let zeros := ((Nat.toDigits 10 d.digits).reverse.takeWhile (· == '0')).length
    ⟨d.negative, d.digits / Nat.pow 10 zeros, d.exponent + zeros⟩

/-- The integer that the number is, if it is one. -/
def toInt? (d : Decimal) : Option Int :=
  let d := d.normalize
  if d.exponent < 0 then none
  else
    let n : Int := (d.digits * Nat.pow 10 d.exponent.toNat : Nat)
    some (if d.negative then -n else n)

/-- The number in digits: positional between a ten-thousandth and ten quadrillions, otherwise with
a power of ten. -/
protected def toString (d : Decimal) : String :=
  let d := d.normalize
  let digits := Nat.toDigits 10 d.digits
  let point : Int := digits.length + d.exponent
  let zeros (n : Int) : List Char := List.replicate n.toNat '0'
  let text :=
    if d.digits == 0 then "0.0".toList
    else if point ≤ -4 || 16 < point then
      let power := point - 1
      let shown := Nat.toDigits 10 power.natAbs
      let tail := digits.drop 1
      digits.take 1 ++ (if tail.isEmpty then [] else '.' :: tail) ++
        'e' :: (if power < 0 then '-' else '+') :: zeros (2 - shown.length) ++ shown
    else if point ≤ 0 then "0.".toList ++ zeros (-point) ++ digits
    else if digits.length ≤ point then digits ++ zeros (point - digits.length) ++ ".0".toList
    else digits.take point.toNat ++ '.' :: digits.drop point.toNat
  String.ofList (if d.negative then '-' :: text else text)

end Decimal

protected def Number.toString : Number → String
  | finite d => d.toString
  | infinite negative => if negative then "-inf" else "inf"
  | undefined => "nan"

end Phrasebook.Yaml

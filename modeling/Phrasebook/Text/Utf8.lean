/-!
UTF-8. Decoding is strict: the first byte that cannot be part of a character is a fault, which
tells where the broken sequence begins and ends and what is wrong with it.
-/

namespace Phrasebook.Text.Utf8

abbrev Bytes := List UInt8

def encode (text : List Char) : Bytes := text.flatMap String.utf8EncodeChar

inductive Reason where
  | badStart
  | badContinuation
  | cutShort
  deriving DecidableEq, Repr

def Reason.message : Reason → String
  | badStart => "invalid start byte"
  | badContinuation => "invalid continuation byte"
  | cutShort => "unexpected end of data"

/-- The bytes from `start` to before `stop` are no beginning of a character. -/
structure Fault where
  start : Nat
  stop : Nat
  first : UInt8
  reason : Reason
  deriving DecidableEq, Repr

def isContinuation (b : UInt8) : Bool := 0x80 ≤ b && b < 0xc0

/-- Whether a byte may come second after a lead byte: neither overlong, nor a surrogate, nor
above the last code point. -/
def isSecond (lead b : UInt8) : Bool :=
  isContinuation b &&
    !(lead == 0xe0 && b < 0xa0) && !(lead == 0xed && 0xa0 ≤ b) &&
    !(lead == 0xf0 && b < 0x90) && !(lead == 0xf4 && 0x90 ≤ b)

def char2 (a b : UInt8) : Char := Char.ofNat ((a.toNat % 32) * 64 + b.toNat % 64)

def char3 (a b c : UInt8) : Char :=
  Char.ofNat ((a.toNat % 16) * 4096 + (b.toNat % 64) * 64 + c.toNat % 64)

def char4 (a b c d : UInt8) : Char :=
  Char.ofNat ((a.toNat % 8) * 262144 + (b.toNat % 64) * 4096 + (c.toNat % 64) * 64 + d.toNat % 64)

/-- Decodes bytes that begin at offset `offset`. -/
def decodeFrom (offset : Nat) : Bytes → Except Fault (List Char)
  | [] => .ok []
  | a :: r =>
      let bad (n : Nat) (reason : Reason) : Except Fault (List Char) :=
        .error ⟨offset, offset + n, a, reason⟩
      if a < 0x80 then (decodeFrom (offset + 1) r).map (Char.ofNat a.toNat :: ·)
      else if a < 0xc2 || 0xf4 < a then bad 1 .badStart
      else match r with
        | [] => bad 1 .cutShort
        | b :: r =>
            if !isSecond a b then bad 1 .badContinuation
            else if a < 0xe0 then (decodeFrom (offset + 2) r).map (char2 a b :: ·)
            else match r with
              | [] => bad 2 .cutShort
              | c :: r =>
                  if !isContinuation c then bad 2 .badContinuation
                  else if a < 0xf0 then (decodeFrom (offset + 3) r).map (char3 a b c :: ·)
                  else match r with
                    | [] => bad 3 .cutShort
                    | d :: r =>
                        if !isContinuation d then bad 3 .badContinuation
                        else (decodeFrom (offset + 4) r).map (char4 a b c d :: ·)

def decode (bytes : Bytes) : Except Fault (List Char) := decodeFrom 0 bytes

def hexByte (b : UInt8) : String :=
  String.ofList ((Nat.toDigits 16 (b.toNat / 16)) ++ (Nat.toDigits 16 (b.toNat % 16)))

def Fault.message (f : Fault) : String :=
  if f.stop == f.start + 1 then
    s!"'utf-8' codec can't decode byte 0x{hexByte f.first} in position {f.start}: " ++
      f.reason.message
  else
    s!"'utf-8' codec can't decode bytes in position {f.start}-{f.stop - 1}: {f.reason.message}"

end Phrasebook.Text.Utf8

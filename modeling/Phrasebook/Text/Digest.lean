import Phrasebook.Text.Utf8

/-!
The MD5 digest of a text, as a number of 128 bits and as 32 hexadecimal digits.
-/

namespace Phrasebook.Text.Digest

/-- The sine table. -/
def sines : List UInt32 :=
  [0xd76aa478, 0xe8c7b756, 0x242070db, 0xc1bdceee, 0xf57c0faf, 0x4787c62a, 0xa8304613, 0xfd469501,
    0x698098d8, 0x8b44f7af, 0xffff5bb1, 0x895cd7be, 0x6b901122, 0xfd987193, 0xa679438e, 0x49b40821,
    0xf61e2562, 0xc040b340, 0x265e5a51, 0xe9b6c7aa, 0xd62f105d, 0x02441453, 0xd8a1e681, 0xe7d3fbc8,
    0x21e1cde6, 0xc33707d6, 0xf4d50d87, 0x455a14ed, 0xa9e3e905, 0xfcefa3f8, 0x676f02d9, 0x8d2a4c8a,
    0xfffa3942, 0x8771f681, 0x6d9d6122, 0xfde5380c, 0xa4beea44, 0x4bdecfa9, 0xf6bb4b60, 0xbebfbc70,
    0x289b7ec6, 0xeaa127fa, 0xd4ef3085, 0x04881d05, 0xd9d4d039, 0xe6db99e5, 0x1fa27cf8, 0xc4ac5665,
    0xf4292244, 0x432aff97, 0xab9423a7, 0xfc93a039, 0x655b59c3, 0x8f0ccc92, 0xffeff47d, 0x85845dd1,
    0x6fa87e4f, 0xfe2ce6e0, 0xa3014314, 0x4e0811a1, 0xf7537e82, 0xbd3af235, 0x2ad7d2bb, 0xeb86d391]

/-- The rotations of the four rounds. -/
def rotations : List (List UInt32) :=
  [[7, 12, 17, 22], [5, 9, 14, 20], [4, 11, 16, 23], [6, 10, 15, 21]]

structure Registers where
  a : UInt32
  b : UInt32
  c : UInt32
  d : UInt32

def initial : Registers := ⟨0x67452301, 0xefcdab89, 0x98badcfe, 0x10325476⟩

def rotateLeft (x n : UInt32) : UInt32 := (x <<< n) ||| (x >>> (32 - n))

/-- The mixing function of step `i` and the word it takes from the block. -/
def mix (i : Nat) (r : Registers) : UInt32 × Nat :=
  match i / 16 with
  | 0 => ((r.b &&& r.c) ||| ((~~~r.b) &&& r.d), i)
  | 1 => ((r.d &&& r.b) ||| ((~~~r.d) &&& r.c), (5 * i + 1) % 16)
  | 2 => (r.b ^^^ r.c ^^^ r.d, (3 * i + 5) % 16)
  | _ => (r.c ^^^ (r.b ||| ~~~r.d), (7 * i) % 16)

def step (block : List UInt32) (r : Registers) (i : Nat) : Registers :=
  let (f, word) := mix i r
  let sum := f + r.a + sines.getD i 0 + block.getD word 0
  let turn := (rotations.getD (i / 16) []).getD (i % 4) 0
  ⟨r.d, r.b + rotateLeft sum turn, r.b, r.c⟩

def compress (r : Registers) (block : List UInt32) : Registers :=
  let s := (List.range 64).foldl (step block) r
  ⟨r.a + s.a, r.b + s.b, r.c + s.c, r.d + s.d⟩

/-- The `n` bytes of a number, lowest first. -/
def littleEndian (n value : Nat) : Utf8.Bytes :=
  (List.range n).map fun i => UInt8.ofNat (value >>> (8 * i))

/-- A message grows by one bit, zeros and its length in bits to a multiple of 64 bytes. -/
def pad (message : Utf8.Bytes) : Utf8.Bytes :=
  message ++ [0x80] ++ List.replicate ((119 - message.length % 64) % 64) 0 ++
    littleEndian 8 (8 * message.length % 0x10000000000000000)

def words : Utf8.Bytes → List UInt32
  | a :: b :: c :: d :: r =>
      (a.toUInt32 ||| (b.toUInt32 <<< 8) ||| (c.toUInt32 <<< 16) ||| (d.toUInt32 <<< 24)) :: words r
  | _ => []

def blocks : Nat → List UInt32 → List (List UInt32)
  | 0, _ => []
  | n + 1, ws => ws.take 16 :: blocks n (ws.drop 16)

def registers (message : Utf8.Bytes) : Registers :=
  let ws := words (pad message)
  (blocks (ws.length / 16) ws).foldl compress initial

def bytes (message : Utf8.Bytes) : Utf8.Bytes :=
  let r := registers message
  [r.a, r.b, r.c, r.d].flatMap fun w => littleEndian 4 w.toNat

/-- The digest as a number, its first byte highest. -/
def value (text : List Char) : Nat :=
  (bytes (Utf8.encode text)).foldl (fun n b => 256 * n + b.toNat) 0

def hex (text : List Char) : String :=
  String.join ((bytes (Utf8.encode text)).map Utf8.hexByte)

end Phrasebook.Text.Digest

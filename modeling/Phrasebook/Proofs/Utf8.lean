import Phrasebook.Proofs.Layout
import Phrasebook.Text.Utf8

/-!
What is encoded decodes again, and nothing else decodes. Each of the four lengths of a character is
taken apart once, with its bytes as numbers.
-/

namespace Phrasebook.Text.Utf8

/-! ### Bytes as numbers -/

theorem isContinuation_iff {b : UInt8} :
    isContinuation b = true ↔ 0x80 ≤ b.toNat ∧ b.toNat < 0xc0 := by
  simp only [isContinuation, Bool.and_eq_true, decide_eq_true_eq, UInt8.le_iff_toNat_le,
    UInt8.lt_iff_toNat_lt, UInt8.reduceToNat]

theorem isSecond_iff {lead b : UInt8} :
    isSecond lead b = true ↔ (0x80 ≤ b.toNat ∧ b.toNat < 0xc0) ∧
      (lead.toNat = 0xe0 → 0xa0 ≤ b.toNat) ∧ (lead.toNat = 0xed → b.toNat < 0xa0) ∧
      (lead.toNat = 0xf0 → 0x90 ≤ b.toNat) ∧ (lead.toNat = 0xf4 → b.toNat < 0x90) := by
  simp only [isSecond, isContinuation_iff, Bool.and_eq_true, Bool.not_eq_true',
    Bool.and_eq_false_iff, beq_eq_false_iff_ne, decide_eq_false_iff_not, UInt8.le_iff_toNat_le,
    UInt8.lt_iff_toNat_lt, ne_eq, ← UInt8.toNat_inj, UInt8.reduceToNat]
  omega

theorem toNat_lead {a : UInt8} (h : ¬ (a < 0xc2 || 0xf4 < a) = true) :
    0xc2 ≤ a.toNat ∧ a.toNat ≤ 0xf4 := by
  simp only [Bool.or_eq_true, decide_eq_true_eq, UInt8.lt_iff_toNat_lt, UInt8.reduceToNat] at h
  omega

theorem toNat_byte {n : Nat} (h : n < 256) : (UInt8.ofNat n).toNat = n := by
  simp [Nat.mod_eq_of_lt h]

theorem byte_eq {b : UInt8} {n : Nat} (h : n = b.toNat) : UInt8.ofNat n = b := by
  rw [h, UInt8.ofNat_toNat]

theorem toNat_char {n : Nat} (h : n < 0xd800 ∨ 0xdfff < n ∧ n < 0x110000) :
    (Char.ofNat n).toNat = n := by
  have hofNat : Char.ofNat n = Char.ofNatAux n h := dif_pos h
  rw [hofNat]
  rfl

theorem ofNat_eq {c : Char} {n : Nat} (h : n = c.toNat) : Char.ofNat n = c := by
  rw [h, Char.ofNat_toNat]

/-! ### Characters by their length -/

variable {offset : Nat} {a b c d : UInt8} {rest : Bytes}

theorem decodeFrom_one (ha : a.toNat < 0x80) :
    decodeFrom offset (a :: rest) =
      (decodeFrom (offset + 1) rest).map (Char.ofNat a.toNat :: ·) := by
  rw [decodeFrom.eq_def]
  simp [UInt8.lt_iff_toNat_lt, ha]

theorem decodeFrom_two (ha : 0xc2 ≤ a.toNat ∧ a.toNat < 0xe0) (hb : isSecond a b = true) :
    decodeFrom offset (a :: b :: rest) = (decodeFrom (offset + 2) rest).map (char2 a b :: ·) := by
  obtain ⟨h, h'⟩ := ha
  rw [decodeFrom.eq_def]
  simp only [UInt8.lt_iff_toNat_lt, UInt8.reduceToNat, hb]
  rw [if_neg (by omega), if_neg (by simp; omega)]
  simp [h']

theorem decodeFrom_three (ha : 0xe0 ≤ a.toNat ∧ a.toNat < 0xf0) (hb : isSecond a b = true)
    (hc : isContinuation c = true) :
    decodeFrom offset (a :: b :: c :: rest) =
      (decodeFrom (offset + 3) rest).map (char3 a b c :: ·) := by
  obtain ⟨h, h'⟩ := ha
  rw [decodeFrom.eq_def]
  simp only [UInt8.lt_iff_toNat_lt, UInt8.reduceToNat, hb, hc]
  rw [if_neg (by omega), if_neg (by simp; omega)]
  simp [h', Nat.not_lt.2 h]

theorem decodeFrom_four (ha : 0xf0 ≤ a.toNat ∧ a.toNat ≤ 0xf4) (hb : isSecond a b = true)
    (hc : isContinuation c = true) (hd : isContinuation d = true) :
    decodeFrom offset (a :: b :: c :: d :: rest) =
      (decodeFrom (offset + 4) rest).map (char4 a b c d :: ·) := by
  obtain ⟨h, h'⟩ := ha
  rw [decodeFrom.eq_def]
  simp only [UInt8.lt_iff_toNat_lt, UInt8.reduceToNat, hb, hc, hd]
  rw [if_neg (by omega), if_neg (by simp; omega)]
  simp [Nat.not_lt.2 h, show ¬ a.toNat < 224 by omega]

/-- A character decodes from its bytes. -/
theorem decodeFrom_encodeChar (ch : Char) (offset : Nat) (rest : Bytes) :
    decodeFrom offset (String.utf8EncodeChar ch ++ rest) =
      (decodeFrom (offset + ch.utf8Size) rest).map (ch :: ·) := by
  have hvalid := ch.valid
  have hlength := String.length_utf8EncodeChar ch
  have hv : ch.val.toNat = ch.toNat := rfl
  have hrange : ch.toNat < 0xd800 ∨ 0xdfff < ch.toNat ∧ ch.toNat < 0x110000 := hvalid
  rw [← hlength]
  unfold String.utf8EncodeChar
  simp only [hv]
  generalize hn : ch.toNat = n at *
  split
  · rw [List.singleton_append, decodeFrom_one (by rw [toNat_byte] <;> omega)]
    rw [ofNat_eq (by rw [toNat_byte (by omega), hn])]
    rfl
  · split
    · have h1 := toNat_byte (show n / 64 % 32 + 192 < 256 by omega)
      have h2 := toNat_byte (show n % 64 + 128 < 256 by omega)
      rw [List.cons_append, List.singleton_append, decodeFrom_two (by rw [h1]; omega)
        (isSecond_iff.2 (by omega))]
      rw [char2, ofNat_eq (by rw [h1, h2, hn]; omega)]
      rfl
    · split
      · have h1 := toNat_byte (show n / 4096 % 16 + 224 < 256 by omega)
        have h2 := toNat_byte (show n / 64 % 64 + 128 < 256 by omega)
        have h3 := toNat_byte (show n % 64 + 128 < 256 by omega)
        rw [List.cons_append, List.cons_append, List.singleton_append,
          decodeFrom_three (by rw [h1]; omega)
            (isSecond_iff.2 (by omega))
            (isContinuation_iff.2 (by omega))]
        rw [char3, ofNat_eq (by rw [h1, h2, h3, hn]; omega)]
        rfl
      · have h1 := toNat_byte (show n / 262144 % 8 + 240 < 256 by omega)
        have h2 := toNat_byte (show n / 4096 % 64 + 128 < 256 by omega)
        have h3 := toNat_byte (show n / 64 % 64 + 128 < 256 by omega)
        have h4 := toNat_byte (show n % 64 + 128 < 256 by omega)
        rw [List.cons_append, List.cons_append, List.cons_append, List.singleton_append,
          decodeFrom_four (by rw [h1]; omega)
            (isSecond_iff.2 (by omega))
            (isContinuation_iff.2 (by omega)) (isContinuation_iff.2 (by omega))]
        rw [char4, ofNat_eq (by rw [h1, h2, h3, h4, hn]; omega)]
        rfl

/-! ### Bytes of one character -/

theorem encodeChar_one (ha : a.toNat < 0x80) :
    String.utf8EncodeChar (Char.ofNat a.toNat) = [a] := by
  have hv : (Char.ofNat a.toNat).val.toNat = a.toNat := toNat_char (by omega)
  unfold String.utf8EncodeChar
  simp only [hv]
  rw [if_pos (by omega), byte_eq rfl]

theorem encodeChar_two (ha : 0xc2 ≤ a.toNat ∧ a.toNat < 0xe0) (hb : isSecond a b = true) :
    String.utf8EncodeChar (char2 a b) = [a, b] := by
  have hsecond := isSecond_iff.1 hb
  have hv : (char2 a b).val.toNat = (a.toNat % 32) * 64 + b.toNat % 64 := toNat_char (by omega)
  unfold String.utf8EncodeChar
  simp only [hv]
  rw [if_neg (by omega), if_pos (by omega), byte_eq (b := a) (by omega),
    byte_eq (b := b) (by omega)]

theorem encodeChar_three (ha : 0xe0 ≤ a.toNat ∧ a.toNat < 0xf0) (hb : isSecond a b = true)
    (hc : isContinuation c = true) : String.utf8EncodeChar (char3 a b c) = [a, b, c] := by
  have hsecond := isSecond_iff.1 hb
  have hthird := isContinuation_iff.1 hc
  have hv : (char3 a b c).val.toNat =
      (a.toNat % 16) * 4096 + (b.toNat % 64) * 64 + c.toNat % 64 := toNat_char (by omega)
  unfold String.utf8EncodeChar
  simp only [hv]
  rw [if_neg (by omega), if_neg (by omega), if_pos (by omega), byte_eq (b := a) (by omega),
    byte_eq (b := b) (by omega), byte_eq (b := c) (by omega)]

theorem encodeChar_four (ha : 0xf0 ≤ a.toNat ∧ a.toNat ≤ 0xf4) (hb : isSecond a b = true)
    (hc : isContinuation c = true) (hd : isContinuation d = true) :
    String.utf8EncodeChar (char4 a b c d) = [a, b, c, d] := by
  have hsecond := isSecond_iff.1 hb
  have hthird := isContinuation_iff.1 hc
  have hfourth := isContinuation_iff.1 hd
  have hv : (char4 a b c d).val.toNat = (a.toNat % 8) * 262144 + (b.toNat % 64) * 4096 +
      (c.toNat % 64) * 64 + d.toNat % 64 := toNat_char (by omega)
  unfold String.utf8EncodeChar
  simp only [hv]
  rw [if_neg (by omega), if_neg (by omega), if_neg (by omega), byte_eq (b := a) (by omega),
    byte_eq (b := b) (by omega), byte_eq (b := c) (by omega), byte_eq (b := d) (by omega)]

/-! ### Texts -/

@[simp] theorem encode_nil : encode [] = [] := rfl

theorem encode_cons (c : Char) (r : List Char) :
    encode (c :: r) = String.utf8EncodeChar c ++ encode r := rfl

@[simp] theorem encode_append (a b : List Char) : encode (a ++ b) = encode a ++ encode b :=
  List.flatMap_append

@[simp] theorem length_encode (text : List Char) :
    (encode text).length = Source.byteLength text := by
  induction text with
  | nil => rfl
  | cons c r ih =>
      rw [encode_cons, List.length_append, String.length_utf8EncodeChar, ih,
        Source.byteLength_cons]

theorem decodeFrom_encode (text : List Char) (offset : Nat) :
    decodeFrom offset (encode text) = .ok text := by
  induction text generalizing offset with
  | nil => rw [encode_nil, decodeFrom]
  | cons c r ih =>
      rw [encode_cons, decodeFrom_encodeChar, ih]
      rfl

theorem decode_encode (text : List Char) : decode (encode text) = .ok text :=
  decodeFrom_encode text 0

theorem encode_of_map {ch : Char} {x : Except Fault (List Char)} {rest : Bytes} {text : List Char}
    (hrest : ∀ {t}, x = .ok t → encode t = rest) (h : x.map (ch :: ·) = .ok text) :
    encode text = String.utf8EncodeChar ch ++ rest := by
  cases x with
  | error f => cases h
  | ok t =>
      obtain rfl := Except.ok.inj h
      rw [encode_cons, hrest rfl]

/-- Only the bytes of a text decode to it. -/
theorem encode_of_decodeFrom {offset : Nat} {bytes : Bytes} {text : List Char}
    (h : decodeFrom offset bytes = .ok text) : encode text = bytes := by
  -- the cases that decode are the end and a character of each length, all others are faults
  fun_induction decodeFrom offset bytes generalizing text with
  | case1 =>
      obtain rfl := Except.ok.inj h
      rfl
  | case2 offset a r ha ih =>
      rw [encode_of_map ih h, encodeChar_one (UInt8.lt_iff_toNat_lt.1 ha)]
      rfl
  | case6 offset a ha hlead b r hb htwo ih =>
      obtain ⟨hlow, -⟩ := toNat_lead hlead
      rw [encode_of_map ih h,
        encodeChar_two ⟨hlow, UInt8.lt_iff_toNat_lt.1 htwo⟩ (by simpa using hb)]
      rfl
  | case9 offset a ha hlead b hb htwo c r hc hthree ih =>
      have hlow := Nat.not_lt.1 (mt UInt8.lt_iff_toNat_lt.2 htwo)
      rw [encode_of_map ih h, encodeChar_three ⟨hlow, UInt8.lt_iff_toNat_lt.1 hthree⟩
        (by simpa using hb) (by simpa using hc)]
      rfl
  | case12 offset a ha hlead b hb htwo c hc hthree d r hd ih =>
      have hlow := Nat.not_lt.1 (mt UInt8.lt_iff_toNat_lt.2 hthree)
      obtain ⟨-, hhigh⟩ := toNat_lead hlead
      rw [encode_of_map ih h, encodeChar_four ⟨hlow, hhigh⟩ (by simpa using hb) (by simpa using hc)
        (by simpa using hd)]
      rfl
  | case3 | case4 | case5 | case7 | case8 | case10 | case11 => cases h

theorem decode_eq_ok {bytes : Bytes} {text : List Char} :
    decode bytes = .ok text ↔ bytes = encode text :=
  ⟨fun h => (encode_of_decodeFrom h).symm, fun h => h ▸ decode_encode text⟩

theorem encode_injective {a b : List Char} (h : encode a = encode b) : a = b := by
  have hdecode := congrArg decode h
  rwa [decode_encode, decode_encode, Except.ok.injEq] at hdecode

end Phrasebook.Text.Utf8

import Phrasebook.Candidate
import Phrasebook.Proofs.CodePoint

/-!
Which texts decode. Only an escape that gives a number can go wrong, and it goes wrong by that
number alone: above the last code point it stands for nothing, and as half of a surrogate pair for
something that is no character. All other text, and every character reference, stands for
characters.
-/

namespace Phrasebook

open Text Source

namespace Text.Escape

/-- The number that an escape gives, from the character behind the backslash on. -/
def number? : List Char → Option Nat
  | 'u' :: r => ((bracedDigits r).or (fixedDigits 4 r)).map (numeral 16)
  | 'x' :: r => (fixedDigits 2 r).map (numeral 16)
  | _ => none

def numbers : List Char → List Nat
  | '\\' :: c :: r => (number? (c :: r)).toList ++ numbers r
  | _ :: r => numbers r
  | [] => []

/-! ### One escape -/

theorem not_mem_of_isHex {l : List Char} (h : ∀ c ∈ l, isHex c = true) : '\\' ∉ l := by
  intro hmem
  have hhex := h _ hmem
  revert hhex
  decide

theorem bracedDigits_eq_some {r digits : List Char} (h : bracedDigits r = some digits) :
    '\\' ∉ r.take (digits.length + 2) := by
  unfold bracedDigits at h
  split at h
  · next r =>
    simp only [Bool.and_eq_true, beq_iff_eq] at h
    split at h
    · next hclosed =>
      obtain rfl := Option.some.inj h
      have hall : (r.takeWhile isHex).all isHex = true := List.all_takeWhile
      have hdigits := not_mem_of_isHex (List.all_eq_true.1 hall)
      obtain ⟨rest, hrest⟩ : r.takeWhile isHex <+: r := List.takeWhile_prefix isHex
      generalize r.takeWhile isHex = digits at *
      subst hrest
      rw [List.drop_left, List.head?_eq_some_iff] at hclosed
      obtain ⟨rest, rfl⟩ := hclosed.2
      rw [List.take_succ_cons, List.take_length_add_append]
      simp [hdigits]
    · cases h
  · cases h

theorem fixedDigits_eq_some {n : Nat} {r digits : List Char} (h : fixedDigits n r = some digits) :
    '\\' ∉ r.take n := by
  unfold fixedDigits at h
  split at h
  · next hdigits =>
    rw [Bool.and_eq_true, List.all_eq_true] at hdigits
    exact not_mem_of_isHex hdigits.2
  · cases h

theorem meaning_letter {c : Char} (hu : c ≠ 'u') (hx : c ≠ 'x') (r : List Char) :
    ∃ k cs, meaning (c :: r) = some (k + 1, .ok (Points.ofChars cs)) ∧ '\\' ∉ r.take k := by
  by_cases hfeed : c = '\r' ∧ r.head? = some '\n'
  · obtain ⟨rfl, hhead⟩ := hfeed
    obtain ⟨rest, rfl⟩ := List.head?_eq_some_iff.1 hhead
    exact ⟨1, [], by simp [meaning, Points.ofChars], by simp⟩
  · by_cases hend : c = '\r' ∨ c = '\n' ∨ c.toNat = 0x2028 ∨ c.toNat = 0x2029
    · refine ⟨0, [], ?_, by simp⟩
      rcases hend with rfl | rfl | h | h <;> simp_all [meaning, Points.ofChars]
    · refine ⟨0, [control c], ?_, by simp⟩
      simp only [not_or] at hend
      simp [meaning, Points.ofChars, hu, hx, hend]

/-- An escape takes up the character behind the backslash and more without a backslash; it stands
for the code point of its number, or for characters. -/
theorem meaning_cons (c : Char) (r : List Char) :
    ∃ k out, meaning (c :: r) = some (k + 1, out) ∧ '\\' ∉ r.take k ∧
      (∀ n, number? (c :: r) = some n → out = codePoint n) ∧
      (number? (c :: r) = none → ∃ cs, out = .ok (Points.ofChars cs)) := by
  by_cases hu : c = 'u'
  · subst hu
    -- Digits in braces come first; without them four digits count, and without those the letter.
    cases hbraced : bracedDigits r with
    | some digits =>
      refine ⟨digits.length + 2, codePoint (numeral 16 digits), ?_,
        bracedDigits_eq_some hbraced, ?_, ?_⟩ <;> simp [meaning, number?, hbraced]
    | none =>
      cases hfixed : fixedDigits 4 r with
      | some digits =>
        refine ⟨4, codePoint (numeral 16 digits), ?_, fixedDigits_eq_some hfixed, ?_, ?_⟩ <;>
          simp [meaning, number?, hbraced, hfixed]
      | none =>
        refine ⟨0, .ok (Points.ofChars [control 'u']), ?_, by simp, ?_, fun _ => ⟨_, rfl⟩⟩ <;>
          simp [meaning, number?, hbraced, hfixed, Points.ofChars]
  · by_cases hx : c = 'x'
    · subst hx
      cases hfixed : fixedDigits 2 r with
      | some digits =>
        refine ⟨2, codePoint (numeral 16 digits), ?_, fixedDigits_eq_some hfixed, ?_, ?_⟩ <;>
          simp [meaning, number?, hfixed]
      | none =>
        refine ⟨0, .ok (Points.ofChars [control 'x']), ?_, by simp, ?_, fun _ => ⟨_, rfl⟩⟩ <;>
          simp [meaning, number?, hfixed, Points.ofChars]
    · obtain ⟨k, cs, hmeaning, htake⟩ := meaning_letter hu hx r
      have hnumber : number? (c :: r) = none := by
        unfold number?
        split <;> simp_all
      exact ⟨k, _, hmeaning, htake, by simp [hnumber], fun _ => ⟨cs, rfl⟩⟩

/-! ### Whole texts -/

/-- A text decodes to points of which something holds, where `Q` says what. -/
def DecodesTo (Q : CodePoint → Prop) (x : Except Fault Points) : Prop :=
  ∃ ps, x = .ok ps ∧ ∀ p ∈ ps, Q p

def Names (Q : CodePoint → Prop) (n : Nat) : Prop := ∃ h : n < 0x110000, Q ⟨n, h⟩

variable {Q : CodePoint → Prop}

theorem decodesTo_codePoint (n : Nat) : DecodesTo Q (codePoint n) ↔ Names Q n := by
  unfold codePoint
  split
  · next h =>
    simp [DecodesTo, Names, h]
  · next h =>
    have hnames : ¬ Names Q n := fun hn => h hn.1
    split <;> simp [DecodesTo, hnames]

theorem decodesTo_ofChars (hchar : ∀ c, Q (CodePoint.ofChar c)) (cs : List Char) :
    DecodesTo Q (.ok (Points.ofChars cs)) := by
  refine ⟨_, rfl, fun p hp => ?_⟩
  obtain ⟨c, -, rfl⟩ := List.mem_map.1 hp
  exact hchar c

theorem decodesTo_append {x y : Except Fault Points} :
    DecodesTo Q (x >>= fun ps => y.map (ps ++ ·)) ↔ DecodesTo Q x ∧ DecodesTo Q y := by
  cases x with
  | error f => simp [DecodesTo, bind, Except.bind]
  | ok ps =>
    cases y with
    | error f => simp [DecodesTo, bind, Except.bind, Except.map]
    | ok qs => simp [DecodesTo, bind, Except.bind, Except.map, or_imp, forall_and]

/-- What an escape stands for, and whether it is as asked, by its number. -/
theorem decodesTo_meaning (hchar : ∀ c, Q (CodePoint.ofChar c)) {c : Char} {r : List Char}
    {out : Except Fault Points} (hnumber : ∀ n, number? (c :: r) = some n → out = codePoint n)
    (hletter : number? (c :: r) = none → ∃ cs, out = .ok (Points.ofChars cs)) :
    DecodesTo Q out ↔ ∀ n ∈ (number? (c :: r)).toList, Names Q n := by
  cases h : number? (c :: r) with
  | some n =>
    rw [hnumber n h, decodesTo_codePoint]
    simp
  | none =>
    obtain ⟨cs, rfl⟩ := hletter h
    simpa using decodesTo_ofChars hchar cs

theorem decodeFrom_escape {c : Char} {r : List Char} {k : Nat} {out : Except Fault Points}
    (h : meaning (c :: r) = some (k + 1, out)) :
    decodeFrom 0 ('\\' :: c :: r) = out >>= fun ps => (decodeFrom k r).map (ps ++ ·) := by
  cases out with
  | error f => simp [decodeFrom, h, bind, Except.bind]
  | ok ps => simp [decodeFrom, h, bind, Except.bind]

theorem decodeFrom_char {c : Char} {r : List Char} (h : c = '\\' → r = []) :
    decodeFrom 0 (c :: r) = (.ok [CodePoint.ofChar c]) >>= fun ps =>
      (decodeFrom 0 r).map (ps ++ ·) := by
  by_cases hc : c = '\\'
  · obtain rfl := h hc
    simp [decodeFrom, hc, meaning, bind, Except.bind]
  · simp [decodeFrom, hc, bind, Except.bind]

/-- Escapes are all that can keep a text from decoding as asked. The induction goes along the
escapes, and `k` counts what is left of the one before. -/
theorem decodesTo_decodeFrom (hchar : ∀ c, Q (CodePoint.ofChar c)) (text : List Char) (k : Nat)
    (hk : '\\' ∉ text.take k) :
    DecodesTo Q (decodeFrom k text) ↔ ∀ n ∈ numbers text, Names Q n := by
  fun_induction numbers text generalizing k with
  | case1 c r ih =>
    obtain rfl : k = 0 := by
      cases k with
      | zero => rfl
      | succ k => simp at hk
    obtain ⟨k, out, hmeaning, htake, hnumber, hletter⟩ := meaning_cons c r
    rw [decodeFrom_escape hmeaning, decodesTo_append, ih k htake,
      decodesTo_meaning hchar hnumber hletter]
    simp [or_imp, forall_and]
  | case2 c r hescape ih =>
    cases k with
    | zero =>
      have hlast : c = '\\' → r = [] := by
        intro hc
        cases r with
        | nil => rfl
        | cons d r => exact (hescape d r hc rfl).elim
      have hone : DecodesTo Q (.ok [CodePoint.ofChar c]) := decodesTo_ofChars hchar [c]
      rw [decodeFrom_char hlast, decodesTo_append, ih 0 (by simp)]
      exact and_iff_right hone
    | succ k =>
      have htake : '\\' ∉ r.take k := fun h => hk (by simp [h])
      rw [← ih k htake, decodeFrom]
  | case3 => simp [decodeFrom, DecodesTo]

/-- A text decodes unless an escape in it names no code point. -/
theorem decodesTo_decode (hchar : ∀ c, Q (CodePoint.ofChar c)) (text : List Char) :
    DecodesTo Q (decode text) ↔ ∀ n ∈ numbers text, Names Q n :=
  decodesTo_decodeFrom hchar text 0 (by simp)

end Text.Escape

/-! ### Literals -/

namespace Source.Node

open Escape

def literalValue : Node → Except Escape.Fault Points
  | leaf (.string place) _ raw => stringValue place raw
  | leaf .stringKeyword _ raw => stringValue .value raw
  | branch .template _ parts => templateValue parts
  | _ => .ok []

/-- The numbers that the escapes of a string or template give. An attribute has none: it is
written with character references. -/
def escapes : Node → List Nat
  | leaf (.string place) _ raw => if place = .attribute then [] else numbers (unquoted raw)
  | leaf .stringKeyword _ raw => numbers (unquoted raw)
  | branch .template _ parts => numbers (unifyLineEnds (parts.flatMap text))
  | _ => []

variable {Q : CodePoint → Prop}

theorem decodesTo_literalValue (hchar : ∀ c, Q (CodePoint.ofChar c)) (n : Node) :
    DecodesTo Q n.literalValue ↔ ∀ m ∈ n.escapes, Names Q m := by
  have hchars := decodesTo_ofChars hchar
  have hnil : DecodesTo Q (.ok []) := hchars []
  fun_cases escapes n with
  | case1 start raw => simpa [literalValue, stringValue] using hchars _
  | case2 place start raw hplace =>
    rw [literalValue, stringValue, if_neg hplace, decodesTo_decode hchar]
  | case3 start raw =>
    rw [literalValue, stringValue, if_neg (by simp), decodesTo_decode hchar]
  | case4 span parts => rw [literalValue, templateValue, decodesTo_decode hchar]
  | case5 n hstring hkeyword htemplate =>
    rw [literalValue.eq_def]
    split
    · next place start raw => exact (hstring place start raw rfl).elim
    · next start raw => exact (hkeyword start raw rfl).elim
    · next span parts => exact (htemplate span parts rfl).elim
    · simpa using hnil

end Source.Node

end Phrasebook

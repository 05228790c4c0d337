import Phrasebook.Proofs.Slug

/-!
Short hashes as numbers. Read in base 36, with the highest digit first, a short hash of `n` digits
is the digest up to multiples of `36 ^ n`. Zeros in front are written out, so that hashes of one
length are equal exactly if those numbers are, and a shorter hash is the end of every longer one.
-/

namespace Phrasebook.Key

open Text

/-- One more digit at the end is one more step of the number. -/
theorem numeral_concat (base : Nat) (digits : List Char) (c : Char) :
    numeral base (digits ++ [c]) = base * numeral base digits + digitValue c := by
  rw [numeral, List.foldl_append]
  rfl

theorem digitValue_base36Digit {n : Nat} (h : n < 36) : digitValue (base36Digit n) = n := by
  have hall : ∀ m < 36, digitValue (base36Digit m) = m := by decide
  exact hall n h

/-- What is left of the number is divided by 36 at each step, so the digits so far are a residue. -/
theorem numeral_base36 (value width : Nat) :
    numeral 36 (base36 value width) = value % 36 ^ width := by
  induction width generalizing value with
  | zero => rw [Nat.pow_zero, Nat.mod_one]; rfl
  | succ width ih =>
      have hdigit := digitValue_base36Digit (Nat.mod_lt value (by omega : 0 < 36))
      calc numeral 36 (base36 value (width + 1))
          = 36 * (value / 36 % 36 ^ width) + value % 36 := by
            rw [base36, numeral_concat, ih, hdigit]
        _ = value % 36 ^ (width + 1) := by
            rw [Nat.pow_succ', Nat.mod_mul, Nat.add_comm]

/-- The digits of a number are those of its residue. -/
theorem base36_mod (value width : Nat) :
    base36 (value % 36 ^ width) width = base36 value width := by
  induction width generalizing value with
  | zero => rfl
  | succ width ih =>
      have hlast : value % 36 ^ (width + 1) % 36 = value % 36 := by
        rw [Nat.pow_succ', Nat.mod_mul_right_mod]
      have hrest : value % 36 ^ (width + 1) / 36 = value / 36 % 36 ^ width := by
        rw [Nat.pow_succ', Nat.mod_mul_right_div_self]
      rw [base36, base36, hlast, hrest, ih]

/-- More digits stand in front of fewer. -/
theorem base36_add (value width more : Nat) :
    base36 value (width + more) = base36 (value / 36 ^ width) more ++ base36 value width := by
  induction width generalizing value with
  | zero => simp [base36]
  | succ width ih =>
      rw [Nat.add_right_comm, base36, ih, base36, Nat.div_div_eq_div_mul, ← Nat.pow_succ',
        List.append_assoc]

/-- A short hash is a numeral of exactly so many digits, and it says no more and no less than the
residue of the digest. -/
theorem shortHash_exact (text : List Char) (n : Nat) :
    (shortHash text n).length = n ∧
      (shortHash text n).all isSlugChar = true ∧
      numeral 36 (shortHash text n) = Digest.value text % 36 ^ n ∧
      (∀ other, shortHash text n = shortHash other n ↔
        Digest.value text % 36 ^ n = Digest.value other % 36 ^ n) ∧
      ∀ more, (shortHash text (n + more)).drop more = shortHash text n := by
  obtain ⟨hlength, hdigits⟩ := base36_spec (Digest.value text) n
  refine ⟨hlength, List.all_eq_true.2 hdigits, numeral_base36 _ n,
    fun other => ⟨fun h => ?_, fun h => ?_⟩, fun more => ?_⟩
  · calc Digest.value text % 36 ^ n
        = numeral 36 (shortHash text n) := (numeral_base36 _ n).symm
      _ = numeral 36 (shortHash other n) := by rw [h]
      _ = Digest.value other % 36 ^ n := numeral_base36 _ n
  · calc shortHash text n
        = base36 (Digest.value text % 36 ^ n) n := (base36_mod _ n).symm
      _ = base36 (Digest.value other % 36 ^ n) n := by rw [h]
      _ = shortHash other n := base36_mod _ n
  · have hfront := (base36_spec (Digest.value text / 36 ^ n) more).1
    rw [shortHash, base36_add, List.drop_left' hfront, shortHash]

/-- Zeros in front count. -/
example : base36 71 4 = ['0', '0', '1', 'z'] := by decide

end Phrasebook.Key

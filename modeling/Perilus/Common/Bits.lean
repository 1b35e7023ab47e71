import Mathlib.Data.Nat.Bitwise
import Mathlib.Tactic.Ring
/-!
# Bit vectors as numbers

What slicing and concatenating bit vectors do to their unsigned values,
so that a field of a word becomes arithmetic on the word.
-/

namespace Bits

variable {m n : ℕ}

/-- A concatenation is its high part shifted up by the width of the low. -/
theorem toNat_append (x : BitVec m) (y : BitVec n) :
    (x ++ y).toNat = x.toNat * 2 ^ n + y.toNat := by
  rw [BitVec.toNat_append, ← Nat.shiftLeft_add_eq_or_of_lt y.isLt, Nat.shiftLeft_eq]

/-- A slice drops the bits below it and those above. -/
theorem toNat_extractLsb (hi lo : ℕ) (x : BitVec n) :
    (x.extractLsb hi lo).toNat = x.toNat / 2 ^ lo % 2 ^ (hi - lo + 1) := by
  rw [BitVec.extractLsb_toNat, Nat.shiftRight_eq_div_pow]

/-- Masking the low bits out rounds down. -/
theorem toNat_and_not_low (x : BitVec n) (k : ℕ) :
    (x &&& ~~~(BitVec.ofNat n (2 ^ k - 1))).toNat = x.toNat / 2 ^ k * 2 ^ k := by
  refine Nat.eq_of_testBit_eq fun i => ?_
  rw [Nat.testBit_mul_two_pow, Nat.testBit_div_two_pow, BitVec.testBit_toNat, BitVec.testBit_toNat,
    BitVec.getLsbD_and, BitVec.getLsbD_not, BitVec.getLsbD_ofNat, Nat.testBit_two_pow_sub_one]
  by_cases hi : i < n
  · rcases Nat.lt_or_ge i k with hlt | hge
    · simp [hlt, hi, Nat.not_le.2 hlt]
    · simp [hge, hi, Nat.not_lt.2 hge]
  · rw [BitVec.getLsbD_of_ge x i (Nat.not_lt.1 hi)]
    rcases Nat.lt_or_ge i k with hlt | hge
    · simp [Nat.not_le.2 hlt]
    · simp [show i - k + k = i by omega, BitVec.getLsbD_of_ge x i (Nat.not_lt.1 hi)]

end Bits

import Mathlib.Data.Nat.Bitwise
import Mathlib.Tactic.Ring
/-!
# The digits of a number

Digit `i` of a number in base `b` is read by `digit` and replaced by
`setDigit`; a number below `b ^ n` is its first `n` digits. In base 16 a
replacement is what masking a nibble out of a word and another one in
does.
-/

namespace Digits

/-- Digit `i`, 0 the lowest. -/
def digit (b v i : ℕ) : ℕ := v / b ^ i % b

/-- The number with digit `i` replaced. -/
def setDigit (b v i d : ℕ) : ℕ := (v / b ^ (i + 1) * b + d) * b ^ i + v % b ^ i

section Base

variable {b : ℕ} {v i d : ℕ}

theorem digit_lt (hb : 0 < b) : digit b v i < b := Nat.mod_lt _ hb

theorem setDigit_div_pow (hb : 0 < b) :
    setDigit b v i d / b ^ i = v / b ^ (i + 1) * b + d := by
  rw [setDigit, Nat.mul_comm, Nat.mul_add_div (Nat.pow_pos hb),
    Nat.div_eq_of_lt (Nat.mod_lt _ (Nat.pow_pos hb)), Nat.add_zero]

theorem setDigit_mod_pow (hb : 0 < b) : setDigit b v i d % b ^ i = v % b ^ i := by
  rw [setDigit, Nat.mul_comm, Nat.mul_add_mod, Nat.mod_eq_of_lt (Nat.mod_lt _ (Nat.pow_pos hb))]

theorem digit_setDigit_self (hd : d < b) : digit b (setDigit b v i d) i = d := by
  rw [digit, setDigit_div_pow (by omega), Nat.mul_comm, Nat.mul_add_mod, Nat.mod_eq_of_lt hd]

/-- The digits above are read from the quotient, those below from the
remainder. -/
theorem digit_setDigit_of_ne (hd : d < b) {j : ℕ} (h : j ≠ i) :
    digit b (setDigit b v i d) j = digit b v j := by
  have hb : 0 < b := by omega
  rcases Nat.lt_or_gt_of_ne h with hlt | hgt
  · obtain ⟨k, rfl⟩ : ∃ k, i = j + 1 + k := ⟨i - (j + 1), by omega⟩
    have hdvd : b ^ (j + 1) ∣ b ^ (j + 1 + k) := Nat.pow_dvd_pow b (by omega)
    have hlow : setDigit b v (j + 1 + k) d % b ^ (j + 1) = v % b ^ (j + 1) := by
      rw [← Nat.mod_mod_of_dvd _ hdvd, setDigit_mod_pow hb, Nat.mod_mod_of_dvd _ hdvd]
    have hdigit : ∀ v, digit b v j = v % b ^ (j + 1) / b ^ j := by
      intro v
      rw [digit, Nat.pow_succ, Nat.mod_mul_right_div_self]
    rw [hdigit, hdigit, hlow]
  · obtain ⟨k, rfl⟩ : ∃ k, j = i + 1 + k := ⟨j - (i + 1), by omega⟩
    have hhigh : setDigit b v i d / b ^ (i + 1) = v / b ^ (i + 1) := by
      rw [Nat.pow_succ, ← Nat.div_div_eq_div_mul, setDigit_div_pow hb, Nat.mul_comm,
        Nat.mul_add_div hb, Nat.div_eq_of_lt hd, Nat.add_zero, ← Nat.pow_succ]
    rw [digit, digit, Nat.pow_add, ← Nat.div_div_eq_div_mul, hhigh, Nat.div_div_eq_div_mul]

/-- **A number is its digits.** -/
theorem eq_of_digit_eq {n v v' : ℕ} (hv : v < b ^ n) (hv' : v' < b ^ n)
    (h : ∀ i < n, digit b v i = digit b v' i) : v = v' := by
  induction n generalizing v v' with
  | zero =>
    rw [Nat.pow_zero] at hv hv'
    omega
  | succ n ih =>
    have hlow := h 0 (Nat.succ_pos n)
    rw [digit, digit, Nat.pow_zero, Nat.div_one, Nat.div_one] at hlow
    rw [Nat.pow_succ, Nat.mul_comm] at hv hv'
    have hhigh : v / b = v' / b := by
      refine ih (Nat.div_lt_of_lt_mul hv) (Nat.div_lt_of_lt_mul hv') ?_
      intro i hi
      have hsucc := h (i + 1) (by omega)
      rw [digit, digit, Nat.pow_succ', ← Nat.div_div_eq_div_mul, ← Nat.div_div_eq_div_mul] at hsucc
      exact hsucc
    rw [← Nat.div_add_mod v b, ← Nat.div_add_mod v' b, hhigh, hlow]

end Base

/-! ## Hex digits of bit vectors -/

theorem testBit_setDigit {v i d : ℕ} (hd : d < 16) (j : ℕ) :
    (setDigit 16 v i d).testBit j =
      if j < 4 * i then v.testBit j
      else if j < 4 * i + 4 then d.testBit (j - 4 * i) else v.testBit j := by
  have hpow : ∀ k, 16 ^ k = 2 ^ (4 * k) := fun k => by rw [Nat.pow_mul]
  rw [setDigit, hpow, hpow, Nat.mul_comm _ (2 ^ (4 * i)),
    Nat.testBit_two_pow_mul_add _ (Nat.mod_lt _ (Nat.two_pow_pos _)), Nat.mul_comm _ 16,
    show 16 = 2 ^ 4 from rfl, Nat.testBit_two_pow_mul_add _ hd]
  split_ifs with hlow hmid
  · rw [Nat.testBit_mod_two_pow, decide_eq_true hlow, Bool.true_and]
  · rfl
  · omega
  · omega
  · rw [Nat.testBit_div_two_pow]
    congr 1
    omega

/-- **Masking a nibble out and another one in** replaces a hex digit. -/
theorem toNat_setNibble {w : ℕ} (v : BitVec w) {i : ℕ} (hi : 4 * i + 4 ≤ w) (d : BitVec 4) :
    ((v &&& ~~~(0xf#w <<< (4 * i))) ||| (d.setWidth w <<< (4 * i))).toNat =
      setDigit 16 v.toNat i d.toNat := by
  have hf : ∀ n, (0xf#w).getLsbD n = decide (n < 4 ∧ n < w) := by
    intro n
    rw [BitVec.getLsbD_ofNat, show 0xf = 2 ^ 4 - 1 from rfl, Nat.testBit_two_pow_sub_one]
    grind
  refine Nat.eq_of_testBit_eq fun j => ?_
  rw [testBit_setDigit d.isLt, BitVec.testBit_toNat, BitVec.testBit_toNat, BitVec.testBit_toNat]
  by_cases hj : j < w
  · simp only [BitVec.getLsbD_or, BitVec.getLsbD_and, BitVec.getLsbD_not, BitVec.getLsbD_shiftLeft,
      BitVec.getLsbD_setWidth, hf, hj]
    grind
  · rw [BitVec.getLsbD_of_ge _ _ (Nat.not_lt.1 hj), if_neg (by omega), if_neg (by omega),
      BitVec.getLsbD_of_ge _ _ (Nat.not_lt.1 hj)]

/-- Masking a nibble out makes it a zero. -/
theorem toNat_clearNibble {w : ℕ} (v : BitVec w) {i : ℕ} (hi : 4 * i + 4 ≤ w) :
    (v &&& ~~~(0xf#w <<< (4 * i))).toNat = setDigit 16 v.toNat i 0 := by
  have h := toNat_setNibble v hi 0#4
  rwa [BitVec.setWidth_zero, BitVec.zero_shiftLeft, BitVec.or_zero] at h

end Digits

import Perilus.Common.Rv32i
import Perilus.Hardware.Helpers.Flat
import Perilus.Hardware.Helpers.Immediate
/-!
# Perilus — the design's bit vectors as integers

What each unit computes, in the arithmetic of `Rv32i`: the fields and the
immediates of a word, the ALU function by function, the two comparison
flags.
-/

namespace Perilus

open Rv32i

/-! ## Words -/

theorem wrap_eq (z : ℤ) : wrap z = (BitVec.ofInt 32 z).toNat := by
  rw [wrap, BitVec.toNat_ofInt]
  norm_cast

theorem signed_toNat {n : ℕ} (x : BitVec n) : signed n x.toNat = x.toInt := by
  rw [signed, BitVec.toInt_eq_toNat_cond]
  norm_cast

theorem signExtend_eq {n : ℕ} (x : BitVec n) :
    x.signExtend 32 = BitVec.ofInt 32 (signed n x.toNat) := by
  rw [signed_toNat]
  rfl

/-- Wrapping a sum whose second term is already wrapped. -/
theorem toNat_add_ofInt (x : BitVec 32) (z : ℤ) :
    (x + BitVec.ofInt 32 z).toNat = wrap (x.toNat + z) := by
  rw [wrap_eq, BitVec.ofInt_add, BitVec.ofInt_natCast, BitVec.ofNat_toNat, BitVec.setWidth_eq]

/-- Clearing bit 0. -/
theorem toNat_and_not_one (x : BitVec 32) :
    (x &&& ~~~(1 : BitVec 32)).toNat = x.toNat / 2 * 2 := by
  have h : x &&& ~~~(1 : BitVec 32) = (x >>> 1) <<< 1 := by
    ext i hi
    have hone : (1 : BitVec 32)[i] = decide (i = 0) := BitVec.getElem_one hi
    rw [BitVec.getElem_and, BitVec.getElem_not, hone, BitVec.getElem_shiftLeft]
    rcases Nat.eq_zero_or_pos i with rfl | hpos
    · simp
    · simp [show i ≠ 0 by omega, show 1 + (i - 1) = i by omega, BitVec.getLsbD_eq_getElem hi]
  rw [h, BitVec.toNat_shiftLeft, BitVec.toNat_ushiftRight, Nat.shiftRight_eq_div_pow,
    Nat.shiftLeft_eq]
  omega

/-! ## Fields -/

section Fields

variable (w : BitVec 32)

theorem field_opOf : field w.toNat 0 7 = (opOf w).toNat :=
  (Bits.toNat_extractLsb 6 0 w).symm

theorem funct3_toNat : funct3 w.toNat = (funct3Of w).toNat :=
  (Bits.toNat_extractLsb 14 12 w).symm

/-- A register field names one register on both sides. -/
theorem ofNat_reg {lo : ℕ} {x : BitVec 5} (h : x.toNat = field w.toNat lo 5) :
    BitVec.ofNat 5 (Fin.ofNat 32 (field w.toNat lo 5) : Reg) = x := by
  refine BitVec.eq_of_toNat_eq ?_
  rw [h, BitVec.toNat_ofNat]
  exact (Nat.mod_mod _ _).trans (Nat.mod_mod _ _)

theorem ofNat_rd : BitVec.ofNat 5 (rd w.toNat) = rdOf w :=
  ofNat_reg w (Bits.toNat_extractLsb 11 7 w)

theorem ofNat_rs1 : BitVec.ofNat 5 (rs1 w.toNat) = rs1Of w :=
  ofNat_reg w (Bits.toNat_extractLsb 19 15 w)

theorem ofNat_rs2 : BitVec.ofNat 5 (rs2 w.toNat) = rs2Of w :=
  ofNat_reg w (Bits.toNat_extractLsb 24 20 w)

theorem funct7_5Of_eq : funct7_5Of w = decide (funct7 w.toNat / 32 % 2 = 1) := by
  rw [funct7_5Of, BitVec.getElem_eq_testBit_toNat, Nat.testBit_eq_decide_div_mod_eq, funct7, field]
  refine decide_eq_decide.2 ?_
  omega

theorem iBits_toInt : immI w.toNat = (iBits w).toInt := by
  rw [← signed_toNat, iBits, Bits.toNat_extractLsb, immI, field]

theorem sBits_toInt : immS w.toNat = (sBits w).toInt := by
  rw [← signed_toNat, sBits, Bits.toNat_append, Bits.toNat_extractLsb, Bits.toNat_extractLsb]
  rfl

theorem bBits_toInt : immB w.toNat = (bBits w).toInt := by
  rw [← signed_toNat, bBits, immB]
  simp only [Bits.toNat_append, Bits.toNat_extractLsb, field]
  congr 1
  simp only [BitVec.toNat_ofNat]
  omega

theorem jBits_toInt : immJ w.toNat = (jBits w).toInt := by
  rw [← signed_toNat, jBits, immJ]
  simp only [Bits.toNat_append, Bits.toNat_extractLsb, field]
  congr 1
  simp only [BitVec.toNat_ofNat]
  omega

theorem uBits_eq : uBits w = BitVec.ofInt 32 (immU w.toNat) := by
  refine BitVec.eq_of_toNat_eq ?_
  rw [← wrap_eq, wrap, uBits, Bits.toNat_append, Bits.toNat_extractLsb, immU, field]
  simp only [BitVec.toNat_ofNat]
  omega

end Fields

/-! ## The ALU -/

/-- The control code of a register instruction's function. -/
def controlOf : Rv32i.Alu → AluControl
  | .add => .add
  | .sub => .sub
  | .sll => .sll
  | .slt => .slt
  | .sltu => .sltu
  | .xor => .xor
  | .srl => .srl
  | .sra => .sra
  | .or => .or
  | .and => .and

theorem toNat_boolToWord (b : Bool) : (boolToWord b).toNat = if b then 1 else 0 := by
  cases b <;> rfl

/-- **The ALU computes each function on integers.** -/
theorem aluResult_eval (f : Rv32i.Alu) (x y : BitVec 32) :
    (Alu.aluResult (controlOf f) x y).toNat = f.eval x.toNat y.toNat := by
  have hshift : (y.extractLsb 4 0).toNat = y.toNat % 32 := by
    rw [Bits.toNat_extractLsb]
    omega
  cases f with
  | add => exact BitVec.toNat_add x y
  | sub =>
    have hx := x.isLt
    have hy := y.isLt
    simp only [controlOf, Alu.aluResult, Rv32i.Alu.eval, wrap, BitVec.toNat_sub]
    omega
  | sll =>
    simp only [controlOf, Alu.aluResult, Rv32i.Alu.eval]
    rw [BitVec.shiftLeft_eq', BitVec.toNat_shiftLeft, hshift, Nat.shiftLeft_eq]
  | slt =>
    simp only [controlOf, Alu.aluResult, Rv32i.Alu.eval]
    rw [toNat_boolToWord, BitVec.slt_eq_decide, signed_toNat, signed_toNat]
    simp only [decide_eq_true_eq]
  | sltu =>
    simp only [controlOf, Alu.aluResult, Rv32i.Alu.eval]
    rw [toNat_boolToWord, BitVec.ult_eq_decide]
    simp only [decide_eq_true_eq]
  | xor => exact BitVec.toNat_xor x y
  | srl =>
    simp only [controlOf, Alu.aluResult, Rv32i.Alu.eval]
    rw [BitVec.ushiftRight_eq', BitVec.toNat_ushiftRight, hshift, Nat.shiftRight_eq_div_pow]
  | sra =>
    simp only [controlOf, Alu.aluResult, Rv32i.Alu.eval]
    rw [wrap_eq, signed_toNat, BitVec.sshiftRight_eq', BitVec.sshiftRight, hshift,
      Int.shiftRight_eq_div_pow]
    norm_cast
  | or => exact BitVec.toNat_or x y
  | and => exact BitVec.toNat_and x y

theorem funct3Of_eq (w : BitVec 32) : funct3Of w = BitVec.ofNat 3 (funct3 w.toNat) := by
  rw [funct3_toNat, BitVec.ofNat_toNat, BitVec.setWidth_eq]

/-- A register-register encoding selects its function. -/
theorem arithmeticOf_alu {w : BitVec 32} {f : Rv32i.Alu} (ho : opOf w = Opcode.rType.asUInt)
    (h : aluOf (funct3 w.toNat) (funct7 w.toNat) = some f) : arithmeticOf w = controlOf f := by
  rw [arithmeticOf, ho, funct3Of_eq, funct7_5Of_eq]
  generalize funct3 w.toNat = n3 at h ⊢
  generalize funct7 w.toNat = n7 at h ⊢
  unfold aluOf at h
  split at h <;> cases h <;> rfl

theorem toNat_immOf_immediate {w : BitVec 32} (ho : opOf w = Opcode.immediate.asUInt) :
    (immOf w).toNat = wrap (immI w.toNat) := by
  rw [immOf_iType (.inr (.inl ho)), signExtend_eq, ← wrap_eq, iBits_toInt, signed_toNat]

/-- A shift reads the low five bits of its immediate only, which are the
amount. -/
theorem eval_shift_immI {f : Rv32i.Alu} (hf : f = .sll ∨ f = .srl ∨ f = .sra) (w x : ℕ) :
    f.eval x (wrap (immI w)) = f.eval x (wrap (field w 20 5 : ℤ)) := by
  have hamount : wrap (immI w) % 32 = field w 20 5 ∧ wrap (field w 20 5 : ℤ) = field w 20 5 := by
    simp only [wrap, immI, signed, field]
    omega
  have hlt : field w 20 5 % 32 = field w 20 5 := Nat.mod_mod _ _
  rcases hf with rfl | rfl | rfl <;> simp only [Rv32i.Alu.eval, hamount.1, hamount.2, hlt]

/-- A register-immediate encoding selects its function, and its immediate
is the operand as far as the function reads it. -/
theorem arithmeticOf_aluImm {w : BitVec 32} {f : Rv32i.Alu} {imm : ℤ}
    (ho : opOf w = Opcode.immediate.asUInt) (h : aluImmOf w.toNat = some (f, imm)) :
    arithmeticOf w = controlOf f ∧
      ∀ x, f.eval x (immOf w).toNat = f.eval x (wrap imm) := by
  rw [toNat_immOf_immediate ho, arithmeticOf, ho, funct3Of_eq, funct7_5Of_eq]
  -- one goal for each line of the decoder's table
  unfold aluImmOf at h
  generalize funct3 w.toNat = n3 at h ⊢
  generalize funct7 w.toNat = n7 at h ⊢
  split at h
  case h_2 =>
    split at h <;> cases h
    next hn => exact ⟨by rw [hn]; rfl, eval_shift_immI (.inl rfl) _⟩
  case h_6 =>
    split at h
    · next hn =>
      cases h
      exact ⟨by rw [hn]; rfl, eval_shift_immI (.inr (.inl rfl)) _⟩
    · split at h <;> cases h
      next hn => exact ⟨by rw [hn]; rfl, eval_shift_immI (.inr (.inr rfl)) _⟩
  case h_9 => cases h
  all_goals
    cases h
    exact ⟨rfl, fun _ => rfl⟩

/-- The two flags, as the comparisons set them. -/
theorem zero_sub (x y : BitVec 32) : Alu.zero .sub x y = decide (x.toNat = y.toNat) := by
  rw [Alu.zero, Alu.aluResult, Bool.eq_iff_iff, beq_iff_eq, decide_eq_true_eq, BitVec.toNat_inj]
  exact BitVec.sub_eq_iff_eq_add.trans (by rw [show (0 : BitVec 32) = 0#32 from rfl,
    BitVec.zero_add])

theorem lessThan_slt (x y : BitVec 32) :
    Alu.lessThan .slt x y = decide (signed 32 x.toNat < signed 32 y.toNat) := by
  rw [signed_toNat, signed_toNat, ← BitVec.slt_eq_decide, Alu.lessThan, Alu.aluResult]
  cases x.slt y <;> rfl

theorem lessThan_sltu (x y : BitVec 32) :
    Alu.lessThan .sltu x y = decide (x.toNat < y.toNat) := by
  rw [← BitVec.ult_eq_decide, Alu.lessThan, Alu.aluResult]
  cases x.ult y <;> rfl

/-- The flag each legal funct3 reads. -/
theorem branchTaken_flag :
    (∀ z l, ControlUnit.branchTaken 0#3 z l = z) ∧ (∀ z l, ControlUnit.branchTaken 1#3 z l = !z) ∧
      (∀ z l, ControlUnit.branchTaken 4#3 z l = l) ∧
      (∀ z l, ControlUnit.branchTaken 5#3 z l = !l) ∧
      (∀ z l, ControlUnit.branchTaken 6#3 z l = l) ∧
      (∀ z l, ControlUnit.branchTaken 7#3 z l = !l) := by
  decide

/-- **A branch is taken when its condition holds on integers.** -/
theorem branchTaken_eq {w : BitVec 32} {c : Condition}
    (h : conditionOf (funct3 w.toNat) = some c) (x y : BitVec 32) :
    ControlUnit.branchTaken (funct3Of w) (Alu.zero (comparisonOf w) x y)
        (Alu.lessThan (comparisonOf w) x y) = c.holds x.toNat y.toNat := by
  rw [comparisonOf, funct3Of_eq]
  generalize funct3 w.toNat = n3 at h ⊢
  unfold conditionOf at h
  split at h <;> cases h
  · exact (branchTaken_flag.1 _ _).trans (zero_sub x y)
  · rw [Condition.holds, decide_not, ← zero_sub]
    exact branchTaken_flag.2.1 _ _
  · exact (branchTaken_flag.2.2.1 _ _).trans (lessThan_slt x y)
  · refine (branchTaken_flag.2.2.2.1 _ _).trans ?_
    change (!Alu.lessThan .slt x y) = _
    rw [lessThan_slt, ← decide_not]
    exact decide_eq_decide.2 Int.not_lt
  · exact (branchTaken_flag.2.2.2.2.1 _ _).trans (lessThan_sltu x y)
  · refine (branchTaken_flag.2.2.2.2.2 _ _).trans ?_
    change (!Alu.lessThan .sltu x y) = _
    rw [lessThan_sltu, ← decide_not]
    exact decide_eq_decide.2 Nat.not_lt

/-- What a read returns, as a number. -/
theorem toNat_readFlat {k : ℕ} (m : ByteMemory.Bytes (4 * 2 ^ k)) (address : BitVec 32)
    (dataMask : DataMask) (signExtData : Bool) :
    let v := ByteMemory.load m (ByteMemory.place (4 * 2 ^ k) dataMask.width address.toNat)
      dataMask.width
    (Memory.readFlat m address dataMask signExtData).toNat =
      if signExtData then wrap (signed (8 * dataMask.width) v) else v := by
  intro v
  have hv : v < 2 ^ (8 * dataMask.width) := by
    rw [Nat.pow_mul]
    exact ByteMemory.load_lt _ _ _
  have hofNat : (BitVec.ofNat (8 * dataMask.width) v).toNat = v := Nat.mod_eq_of_lt hv
  rw [Memory.readFlat]
  cases signExtData with
  | true =>
    simp only [if_true]
    rw [signExtend_eq, ← wrap_eq, hofNat]
  | false =>
    simp only [Bool.false_eq_true, if_false]
    rw [BitVec.toNat_setWidth, hofNat]
    refine Nat.mod_eq_of_lt (lt_of_lt_of_le hv (Nat.pow_le_pow_right (by decide) ?_))
    cases dataMask <;> decide

end Perilus

import Perilus.Common.Bits
import Perilus.Hardware.Helpers.Format
/-!
# Perilus — immediates, decoded and encoded

The instruction decoder picks the format from the opcode and the extend
unit reads the immediate off the word. What it reads of a word the test
assemblers put together is the immediate they were given, and they put
any word together again from its fields and what it reads of it.
-/

namespace Perilus

/-- The immediates of the I and S formats. -/
def iImm (imm : BitVec 32) : Prop := -2048 ≤ imm.toInt ∧ imm.toInt ≤ 2047

/-- The immediates of the B format. -/
def bImm (imm : BitVec 32) : Prop := -4096 ≤ imm.toInt ∧ imm.toInt ≤ 4094 ∧ imm.toInt % 2 = 0

/-- The immediates of the J format. -/
def jImm (imm : BitVec 32) : Prop :=
  -2 ^ 20 ≤ imm.toInt ∧ imm.toInt ≤ 2 ^ 20 - 2 ∧ imm.toInt % 2 = 0

/-- The immediates of the U format. -/
def uImm (imm : BitVec 32) : Prop := imm.toNat % 4096 = 0

/-- **The hardware and an assembler are inverse** on the opcodes of one
format. -/
structure ImmInverse (ops : List Opcode) (imms : BitVec 32 → Prop)
    (assemble : (funct3 rd rs1 rs2 imm op : BitVec 32) → BitVec 32) : Prop where
  /-- What the hardware decodes of an assembled word. -/
  decode : ∀ o ∈ ops, ∀ funct3 rd rs1 rs2 imm, imms imm →
    immOf (assemble funct3 rd rs1 rs2 imm (o.asUInt.setWidth 32)) = imm
  /-- A word assembled from its own fields and what the hardware decodes. -/
  encode : ∀ o ∈ ops, ∀ w, opOf w = o.asUInt →
    assemble ((funct3Of w).setWidth 32) ((rdOf w).setWidth 32) ((rs1Of w).setWidth 32)
      ((rs2Of w).setWidth 32) (immOf w) ((opOf w).setWidth 32) = w

/-! ## Immediates and their bits -/

section Width

variable {n : ℕ} {imm : BitVec 32}

/-- A value `n` bits can hold is the sign extension of its low `n` bits. -/
theorem signExtend_setWidth (hn : n ≤ 32) (hlo : -2 ^ n ≤ imm.toInt * 2)
    (hhi : imm.toInt * 2 < 2 ^ n) : (imm.setWidth n).signExtend 32 = imm := by
  refine BitVec.eq_of_toInt_eq ?_
  -- both are the balanced remainder of the value by `2 ^ n`
  have hdvd : 2 ^ n ∣ 2 ^ 32 := Nat.pow_dvd_pow 2 hn
  have hbmod : Int.bmod imm.toNat (2 ^ n) = Int.bmod imm.toInt (2 ^ n) := by
    rw [imm.toInt_eq_toNat_bmod, Int.bmod_bmod_of_dvd hdvd]
  rw [BitVec.toInt_signExtend_of_le hn, BitVec.toInt_setWidth, hbmod]
  exact Int.bmod_eq_of_le_mul_two (by push_cast; exact hlo) (by push_cast; exact hhi)

/-- Zero-extending and cutting again. -/
theorem setWidth_setWidth_self {m : ℕ} (x : BitVec m) (h : m ≤ 32) :
    (x.setWidth 32).setWidth m = x := by
  rw [BitVec.setWidth_setWidth_of_le _ h, BitVec.setWidth_eq]

/-- Sign-extending and cutting again. -/
theorem setWidth_signExtend_self {m : ℕ} (x : BitVec m) (h : m ≤ 32) :
    (x.signExtend 32).setWidth m = x := by
  refine BitVec.eq_of_getLsbD_eq fun i hi => ?_
  rw [BitVec.getLsbD_setWidth, BitVec.getLsbD_signExtend]
  grind

/-- An even value has bit 0 clear. -/
theorem getLsbD_zero_of_even (h : imm.toInt % 2 = 0) :
    (imm.setWidth n).getLsbD 0 = false := by
  have hnat : imm.toNat % 2 = 0 := by
    have := imm.toInt_eq_toNat_cond
    split at this <;> omega
  rw [BitVec.getLsbD_setWidth, BitVec.getLsbD, Nat.testBit_zero, hnat]
  simp

end Width

/-! ## The formats -/

theorem immOf_of_mem_iType {o : Opcode} (ho : o ∈ [Opcode.load, .immediate, .jalr]) {w : BitVec 32}
    (hw : opOf w = o.asUInt) : immOf w = (iBits w).signExtend 32 := by
  simp only [List.mem_cons, List.not_mem_nil, or_false] at ho
  rcases ho with rfl | rfl | rfl
  · exact immOf_iType (.inl hw)
  · exact immOf_iType (.inr (.inl hw))
  · exact immOf_iType (.inr (.inr hw))

theorem immInverse_iType :
    ImmInverse [.load, .immediate, .jalr] iImm
      fun funct3 rd rs1 _ imm op => assembleIType funct3 false rd rs1 imm op where
  decode o ho funct3 rd rs1 rs2 imm himm := by
    obtain ⟨hlo, hhi⟩ := himm
    have hword := assembleIType_eq funct3 rd rs1 imm (o.asUInt.setWidth 32)
    rw [setWidth_setWidth_self _ (by decide)] at hword
    rw [hword, immOf_of_mem_iType ho (opOf_iFormat _), iBits_iFormat]
    exact signExtend_setWidth (by decide) (by omega) (by omega)
  encode o ho w hw := by
    have himm := immOf_of_mem_iType ho hw
    simp only [assembleIType_eq, himm]
    rw [setWidth_setWidth_self _ (by decide), setWidth_setWidth_self _ (by decide),
      setWidth_setWidth_self _ (by decide), setWidth_setWidth_self _ (by decide),
      setWidth_signExtend_self _ (by decide), iFormat_self]

theorem immInverse_sType :
    ImmInverse [.store] iImm fun funct3 _ rs1 rs2 imm _ => testSType funct3 rs1 rs2 imm where
  decode o ho funct3 rd rs1 rs2 imm himm := by
    obtain ⟨hlo, hhi⟩ := himm
    rw [testSType_eq, immOf_store (opOf_sFormat _), sBits_sFormat]
    exact signExtend_setWidth (by decide) (by omega) (by omega)
  encode o ho w hw := by
    obtain rfl := List.mem_singleton.1 ho
    rw [testSType_eq, immOf_store hw, setWidth_setWidth_self _ (by decide),
      setWidth_setWidth_self _ (by decide), setWidth_setWidth_self _ (by decide),
      setWidth_signExtend_self _ (by decide), ← hw, sFormat_self]

theorem immInverse_bType :
    ImmInverse [.branch] bImm fun funct3 _ rs1 rs2 imm _ => testBType funct3 rs1 rs2 imm where
  decode o ho funct3 rd rs1 rs2 imm himm := by
    obtain ⟨hlo, hhi, heven⟩ := himm
    rw [testBType_eq, immOf_branch (opOf_bFormat _), bBits_bFormat (getLsbD_zero_of_even heven)]
    exact signExtend_setWidth (by decide) (by omega) (by omega)
  encode o ho w hw := by
    obtain rfl := List.mem_singleton.1 ho
    rw [testBType_eq, immOf_branch hw, setWidth_setWidth_self _ (by decide),
      setWidth_setWidth_self _ (by decide), setWidth_setWidth_self _ (by decide),
      setWidth_signExtend_self _ (by decide), ← hw, bFormat_self]

theorem immInverse_jType :
    ImmInverse [.jal] jImm fun _ rd _ _ imm _ => assembleJType rd imm where
  decode o ho funct3 rd rs1 rs2 imm himm := by
    obtain ⟨hlo, hhi, heven⟩ := himm
    rw [assembleJType_eq, immOf_jal (opOf_jFormat _), jBits_jFormat (getLsbD_zero_of_even heven)]
    exact signExtend_setWidth (by decide) (by omega) (by omega)
  encode o ho w hw := by
    obtain rfl := List.mem_singleton.1 ho
    rw [assembleJType_eq, immOf_jal hw, setWidth_setWidth_self _ (by decide),
      setWidth_signExtend_self _ (by decide), ← hw, jFormat_self]

theorem immOf_of_mem_uType {o : Opcode} (ho : o ∈ [Opcode.lui, .auipc]) {w : BitVec 32}
    (hw : opOf w = o.asUInt) : immOf w = uBits w := by
  simp only [List.mem_cons, List.not_mem_nil, or_false] at ho
  rcases ho with rfl | rfl
  · exact immOf_uType (.inl hw)
  · exact immOf_uType (.inr hw)

/-- The bits a U-type immediate holds, and the twelve below. -/
theorem extractLsb_append_zero {imm : BitVec 32} (h : uImm imm) :
    imm.extractLsb 31 12 ++ 0#12 = imm := by
  refine BitVec.eq_of_toNat_eq ?_
  rw [uImm] at h
  rw [Bits.toNat_append, Bits.toNat_extractLsb, BitVec.toNat_ofNat]
  have := imm.isLt
  omega

theorem extractLsb_uBits (w : BitVec 32) : (uBits w).extractLsb 31 12 = w.extractLsb 31 12 := by
  refine BitVec.eq_of_getLsbD_eq fun i hi => ?_
  simp only [uBits, BitVec.getLsbD_append, BitVec.getLsbD_extractLsb]
  grind

theorem immInverse_uType :
    ImmInverse [.lui, .auipc] uImm fun _ rd _ _ imm op => testUType imm rd op where
  decode o ho funct3 rd rs1 rs2 imm himm := by
    rw [testUType_eq, immOf_of_mem_uType ho (opOf_uFormat _), uBits_uFormat]
    exact extractLsb_append_zero himm
  encode o ho w hw := by
    rw [testUType_eq, immOf_of_mem_uType ho hw, setWidth_setWidth_self _ (by decide),
      extractLsb_uBits, uFormat_self]

/-- The flag of a shift is bit 10 of its immediate. -/
theorem assembleIType_funct7_5 (funct3 rd rs1 imm op : BitVec 32) :
    assembleIType funct3 true rd rs1 imm op =
      assembleIType funct3 false rd rs1 (imm ||| 1 <<< 10) op := by
  simp only [assembleIType, if_true, Bool.false_eq_true, if_false]

/-- **Immediate decoding and encoding are inverse over all five formats.**
An I-type word assembled with the flag of a shift is one assembled
without it, of the immediate with bit 10 set. -/
theorem imm_inverse :
    (ImmInverse [.load, .immediate, .jalr] iImm
      fun funct3 rd rs1 _ imm op => assembleIType funct3 false rd rs1 imm op) ∧
    (ImmInverse [.store] iImm fun funct3 _ rs1 rs2 imm _ => testSType funct3 rs1 rs2 imm) ∧
    (ImmInverse [.branch] bImm fun funct3 _ rs1 rs2 imm _ => testBType funct3 rs1 rs2 imm) ∧
    (ImmInverse [.jal] jImm fun _ rd _ _ imm _ => assembleJType rd imm) ∧
    (ImmInverse [.lui, .auipc] uImm fun _ rd _ _ imm op => testUType imm rd op) ∧
    ∀ funct3 rd rs1 imm op, assembleIType funct3 true rd rs1 imm op =
      assembleIType funct3 false rd rs1 (imm ||| 1 <<< 10) op :=
  ⟨immInverse_iType, immInverse_sType, immInverse_bType, immInverse_jType, immInverse_uType,
    assembleIType_funct7_5⟩

end Perilus

import Perilus.Hardware.Helpers.Immediate
import Perilus.Hardware.Model.Assembler
/-!
# Perilus — the instruction formats

Each format is a word put together from its fields, and the immediate is
one of them. The assemblers of the tests put these words together, a word
is put together from its own fields, and its fields are those it was put
together from.
-/

namespace Perilus

section Fields

variable (rs2 rs1 rd : BitVec 5) (funct3 : BitVec 3) (op : BitVec 7)

/-- Twelve bits of immediate on top: arithmetic, loads and jalr. -/
def iFormat (imm : BitVec 12) : BitVec 32 := imm ++ rs1 ++ funct3 ++ rd ++ op

/-- The same twelve, around the registers: stores. -/
def sFormat (imm : BitVec 12) : BitVec 32 :=
  imm.extractLsb 11 5 ++ rs2 ++ rs1 ++ funct3 ++ imm.extractLsb 4 0 ++ op

/-- An even offset of thirteen bits, its bit 11 at the bottom: branches. -/
def bFormat (imm : BitVec 13) : BitVec 32 :=
  imm.extractLsb 12 12 ++ imm.extractLsb 10 5 ++ rs2 ++ rs1 ++ funct3 ++ imm.extractLsb 4 1 ++
    imm.extractLsb 11 11 ++ op

/-- An even offset of twenty-one bits: jal. -/
def jFormat (imm : BitVec 21) : BitVec 32 :=
  imm.extractLsb 20 20 ++ imm.extractLsb 10 1 ++ imm.extractLsb 11 11 ++ imm.extractLsb 19 12 ++
    rd ++ op

/-- The upper twenty bits of a word: lui and auipc. -/
def uFormat (imm : BitVec 20) : BitVec 32 := imm ++ rd ++ op

end Fields

/-! ## The fields of a word put together -/

section Decode

variable {rs2 rs1 rd : BitVec 5} {funct3 : BitVec 3} {op : BitVec 7}

/-- The opcode is the last seven bits. -/
theorem opOf_append (x : BitVec 25) : opOf (x ++ op) = op := by
  change (x ++ op).extractLsb 6 0 = op
  refine BitVec.eq_of_getLsbD_eq fun i hi => ?_
  rw [BitVec.getLsbD_extractLsb, BitVec.getLsbD_append, if_pos (by omega), Nat.zero_add,
    decide_eq_true (by omega), Bool.true_and]

theorem opOf_iFormat (imm : BitVec 12) : opOf (iFormat rs1 rd funct3 op imm) = op := opOf_append _

theorem opOf_sFormat (imm : BitVec 12) : opOf (sFormat rs2 rs1 funct3 op imm) = op :=
  opOf_append _

theorem opOf_bFormat (imm : BitVec 13) : opOf (bFormat rs2 rs1 funct3 op imm) = op :=
  opOf_append _

theorem opOf_jFormat (imm : BitVec 21) : opOf (jFormat rd op imm) = op := opOf_append _

theorem opOf_uFormat (imm : BitVec 20) : opOf (uFormat rd op imm) = op := opOf_append _

/-- **Each immediate is read back.** -/
theorem iBits_iFormat (imm : BitVec 12) : iBits (iFormat rs1 rd funct3 op imm) = imm := by
  refine BitVec.eq_of_getLsbD_eq fun i hi => ?_
  simp only [iFormat, iBits, BitVec.getLsbD_append, BitVec.getLsbD_extractLsb]
  grind

theorem sBits_sFormat (imm : BitVec 12) : sBits (sFormat rs2 rs1 funct3 op imm) = imm := by
  refine BitVec.eq_of_getLsbD_eq fun i hi => ?_
  simp only [sFormat, sBits, BitVec.getLsbD_append, BitVec.getLsbD_extractLsb]
  grind

/-- An odd offset would lose its last bit. -/
theorem bBits_bFormat {imm : BitVec 13} (h : imm.getLsbD 0 = false) :
    bBits (bFormat rs2 rs1 funct3 op imm) = imm := by
  refine BitVec.eq_of_getLsbD_eq fun i hi => ?_
  simp only [bFormat, bBits, BitVec.getLsbD_append, BitVec.getLsbD_extractLsb]
  grind

theorem jBits_jFormat {imm : BitVec 21} (h : imm.getLsbD 0 = false) :
    jBits (jFormat rd op imm) = imm := by
  refine BitVec.eq_of_getLsbD_eq fun i hi => ?_
  simp only [jFormat, jBits, BitVec.getLsbD_append, BitVec.getLsbD_extractLsb]
  grind

/-- Below the twenty bits there are zeros. -/
theorem uBits_uFormat (imm : BitVec 20) : uBits (uFormat rd op imm) = imm ++ 0#12 := by
  refine BitVec.eq_of_getLsbD_eq fun i hi => ?_
  simp only [uFormat, uBits, BitVec.getLsbD_append, BitVec.getLsbD_extractLsb]
  grind

end Decode

/-! ## A word put together from its own fields -/

section Encode

variable (w : BitVec 32)

/-- `Opcode.safe` keeps the seven bits also of an opcode it does not know. -/
theorem opOf_eq : opOf w = w.extractLsb 6 0 := rfl

/-- **Each word is put together again.** -/
theorem iFormat_self : iFormat (rs1Of w) (rdOf w) (funct3Of w) (opOf w) (iBits w) = w := by
  refine BitVec.eq_of_getLsbD_eq fun i hi => ?_
  simp only [iFormat, iBits, opOf_eq, rs1Of, rdOf, funct3Of, BitVec.getLsbD_append,
    BitVec.getLsbD_extractLsb]
  grind

theorem sFormat_self : sFormat (rs2Of w) (rs1Of w) (funct3Of w) (opOf w) (sBits w) = w := by
  refine BitVec.eq_of_getLsbD_eq fun i hi => ?_
  simp only [sFormat, sBits, opOf_eq, rs2Of, rs1Of, funct3Of, BitVec.getLsbD_append,
    BitVec.getLsbD_extractLsb]
  grind

/-- The offset read off a word is even, so nothing is lost. -/
theorem bFormat_self : bFormat (rs2Of w) (rs1Of w) (funct3Of w) (opOf w) (bBits w) = w := by
  refine BitVec.eq_of_getLsbD_eq fun i hi => ?_
  simp only [bFormat, bBits, opOf_eq, rs2Of, rs1Of, funct3Of, BitVec.getLsbD_append,
    BitVec.getLsbD_extractLsb]
  grind

theorem jFormat_self : jFormat (rdOf w) (opOf w) (jBits w) = w := by
  refine BitVec.eq_of_getLsbD_eq fun i hi => ?_
  simp only [jFormat, jBits, opOf_eq, rdOf, BitVec.getLsbD_append, BitVec.getLsbD_extractLsb]
  grind

theorem uFormat_self : uFormat (rdOf w) (opOf w) (w.extractLsb 31 12) = w := by
  refine BitVec.eq_of_getLsbD_eq fun i hi => ?_
  simp only [uFormat, opOf_eq, rdOf, BitVec.getLsbD_append, BitVec.getLsbD_extractLsb]
  grind

end Encode

/-! ## The assemblers -/

section Assemblers

/-- Their masks, bit by bit. -/
theorem getLsbD_masks (i : ℕ) :
    (0x7#32).getLsbD i = decide (i < 3) ∧ (0x1f#32).getLsbD i = decide (i < 5) ∧
    (0x7f#32).getLsbD i = decide (i < 7) ∧ (0xfff#32).getLsbD i = decide (i < 12) ∧
    (0xfe0#32).getLsbD i = decide (5 ≤ i ∧ i < 12) ∧ (0x1000#32).getLsbD i = decide (i = 12) ∧
    (0x7e0#32).getLsbD i = decide (5 ≤ i ∧ i < 11) ∧
    (0x1e#32).getLsbD i = decide (1 ≤ i ∧ i < 5) ∧ (0x800#32).getLsbD i = decide (i = 11) ∧
    (0x100000#32).getLsbD i = decide (i = 20) ∧ (0x7fe#32).getLsbD i = decide (1 ≤ i ∧ i < 11) ∧
    (0xff000#32).getLsbD i = decide (12 ≤ i ∧ i < 20) ∧
    (0xfffff000#32).getLsbD i = decide (12 ≤ i ∧ i < 32) := by
  rcases Nat.lt_or_ge i 32 with hlt | hge
  · revert i
    decide
  · simp only [BitVec.getLsbD_of_ge _ _ hge]
    grind

/-- Shifting a masked value down brings no sign with it. -/
theorem getLsbD_sshiftRight_and (x : BitVec 32) {m : BitVec 32} (hm : m.msb = false) (n i : ℕ) :
    ((x &&& m).sshiftRight n).getLsbD i = (x.getLsbD (n + i) && m.getLsbD (n + i)) := by
  have hmsb : (x &&& m).msb = false := by rw [BitVec.msb_and, hm, Bool.and_false]
  rw [BitVec.sshiftRight_eq_of_msb_false hmsb, BitVec.getLsbD_ushiftRight, BitVec.getLsbD_and]

variable (funct3 rd rs1 rs2 imm op : BitVec 32)

/-- **What the tests assemble** is the format, of the operands cut to their
widths. -/
theorem assembleIType_eq :
    assembleIType funct3 false rd rs1 imm op =
      iFormat (rs1.setWidth 5) (rd.setWidth 5) (funct3.setWidth 3) (op.setWidth 7)
        (imm.setWidth 12) := by
  refine BitVec.eq_of_getLsbD_eq fun i hi => ?_
  simp only [assembleIType, iFormat, BitVec.getLsbD_append, BitVec.getLsbD_or,
    BitVec.getLsbD_and, BitVec.getLsbD_shiftLeft, BitVec.ofNat_eq_ofNat, getLsbD_masks,
    BitVec.getLsbD_setWidth]
  grind

theorem testSType_eq :
    testSType funct3 rs1 rs2 imm =
      sFormat (rs2.setWidth 5) (rs1.setWidth 5) (funct3.setWidth 3) Opcode.store.asUInt
        (imm.setWidth 12) := by
  have hop : (0x23 : BitVec 32) = Opcode.store.asUInt.setWidth 32 := rfl
  refine BitVec.eq_of_getLsbD_eq fun i hi => ?_
  simp only [testSType, hop, sFormat, BitVec.getLsbD_append, BitVec.getLsbD_or,
    BitVec.getLsbD_and, BitVec.getLsbD_shiftLeft, BitVec.ofNat_eq_ofNat, getLsbD_masks,
    BitVec.getLsbD_setWidth, BitVec.getLsbD_extractLsb]
  grind

/-- The tests shift with the sign, after masks that leave none. -/
theorem testBType_eq :
    testBType funct3 rs1 rs2 imm =
      bFormat (rs2.setWidth 5) (rs1.setWidth 5) (funct3.setWidth 3) Opcode.branch.asUInt
        (imm.setWidth 13) := by
  have hop : (0x63 : BitVec 32) = Opcode.branch.asUInt.setWidth 32 := rfl
  have h12 := getLsbD_sshiftRight_and imm (m := 0x1000#32) rfl
  have h10 := getLsbD_sshiftRight_and imm (m := 0x7e0#32) rfl
  have h11 := getLsbD_sshiftRight_and imm (m := 0x800#32) rfl
  refine BitVec.eq_of_getLsbD_eq fun i hi => ?_
  simp only [testBType, hop, bFormat, BitVec.getLsbD_append, BitVec.getLsbD_or,
    BitVec.getLsbD_and, BitVec.getLsbD_shiftLeft, BitVec.ofNat_eq_ofNat, h12, h10, h11,
    getLsbD_masks, BitVec.getLsbD_setWidth, BitVec.getLsbD_extractLsb]
  grind

theorem assembleJType_eq :
    assembleJType rd imm =
      jFormat (rd.setWidth 5) Opcode.jal.asUInt (imm.setWidth 21) := by
  have hop : (0x6f : BitVec 32) = Opcode.jal.asUInt.setWidth 32 := rfl
  refine BitVec.eq_of_getLsbD_eq fun i hi => ?_
  simp only [assembleJType, hop, jFormat, BitVec.getLsbD_append, BitVec.getLsbD_or,
    BitVec.getLsbD_and, BitVec.getLsbD_shiftLeft, BitVec.ofNat_eq_ofNat, getLsbD_masks,
    BitVec.getLsbD_setWidth, BitVec.getLsbD_extractLsb]
  grind

/-- Of its immediate only the upper twenty bits are used. -/
theorem testUType_eq (op : BitVec 7) :
    testUType imm rd (op.setWidth 32) = uFormat (rd.setWidth 5) op (imm.extractLsb 31 12) := by
  refine BitVec.eq_of_getLsbD_eq fun i hi => ?_
  simp only [testUType, uFormat, BitVec.getLsbD_append, BitVec.getLsbD_or,
    BitVec.getLsbD_and, BitVec.getLsbD_shiftLeft, BitVec.ofNat_eq_ofNat, getLsbD_masks,
    BitVec.getLsbD_setWidth, BitVec.getLsbD_extractLsb]
  grind

end Assemblers

end Perilus

import Mathlib.Data.List.Basic
import Perilus.Hardware.Model.Arch
/-!
# Perilus — the five immediates

What the extend unit drives, read off the instruction word itself: each
signed format is the sign extension of its bits in order, whatever fields
of the word they are scattered over.
-/

namespace Perilus

/-- The bits of an I-type immediate, in order. -/
def iBits (w : BitVec 32) : BitVec 12 := w.extractLsb 31 20

/-- The bits of an S-type immediate, in order. -/
def sBits (w : BitVec 32) : BitVec 12 := w.extractLsb 31 25 ++ w.extractLsb 11 7

/-- The bits of a B-type immediate, in order; bit 0 is zero. -/
def bBits (w : BitVec 32) : BitVec 13 :=
  w.extractLsb 31 31 ++ w.extractLsb 7 7 ++ w.extractLsb 30 25 ++ w.extractLsb 11 8 ++ 0#1

/-- The bits of a J-type immediate, in order; bit 0 is zero. -/
def jBits (w : BitVec 32) : BitVec 21 :=
  w.extractLsb 31 31 ++ w.extractLsb 19 12 ++ w.extractLsb 20 20 ++ w.extractLsb 30 21 ++ 0#1

/-- The bits of a U-type immediate. -/
def uBits (w : BitVec 32) : BitVec 32 := w.extractLsb 31 12 ++ 0#12

section Formats

variable (w : BitVec 32)

theorem immExt_iType : ExtendUnit.immExt (w.extractLsb 31 7) .iType = (iBits w).signExtend 32 := by
  rw [ExtendUnit.immExt, iBits]
  ext i hi
  simp only [BitVec.getElem_append, BitVec.getElem_signExtend, BitVec.getElem_fill]
  grind

theorem immExt_sType : ExtendUnit.immExt (w.extractLsb 31 7) .sType = (sBits w).signExtend 32 := by
  rw [ExtendUnit.immExt, sBits]
  ext i hi
  simp only [BitVec.getElem_append, BitVec.getElem_signExtend, BitVec.getElem_fill]
  grind

theorem immExt_bType : ExtendUnit.immExt (w.extractLsb 31 7) .bType = (bBits w).signExtend 32 := by
  rw [ExtendUnit.immExt, bBits]
  ext i hi
  simp only [BitVec.getElem_append, BitVec.getElem_signExtend, BitVec.getElem_fill]
  grind

theorem immExt_jType : ExtendUnit.immExt (w.extractLsb 31 7) .jType = (jBits w).signExtend 32 := by
  rw [ExtendUnit.immExt, jBits]
  ext i hi
  simp only [BitVec.getElem_append, BitVec.getElem_signExtend, BitVec.getElem_fill]
  grind

theorem immExt_uType : ExtendUnit.immExt (w.extractLsb 31 7) .uType = uBits w := by
  rw [ExtendUnit.immExt, uBits]
  ext i hi
  simp only [BitVec.getElem_append]
  grind

end Formats

section Opcodes

variable {w : BitVec 32}

theorem immOf_of_immSrc (src : ImmSrc) (h : InstructionDecoder.immSrc (opOf w) = src) :
    immOf w = ExtendUnit.immExt (w.extractLsb 31 7) src := by
  rw [immOf, h]

theorem immOf_iType (ho : opOf w = Opcode.load.asUInt ∨ opOf w = Opcode.immediate.asUInt ∨
    opOf w = Opcode.jalr.asUInt) : immOf w = (iBits w).signExtend 32 := by
  rw [immOf_of_immSrc .iType (by rcases ho with h | h | h <;> rw [h] <;> rfl),
    immExt_iType]

theorem immOf_store (ho : opOf w = Opcode.store.asUInt) :
    immOf w = (sBits w).signExtend 32 := by
  rw [immOf_of_immSrc .sType (by rw [ho]; rfl), immExt_sType]

theorem immOf_branch (ho : opOf w = Opcode.branch.asUInt) :
    immOf w = (bBits w).signExtend 32 := by
  rw [immOf_of_immSrc .bType (by rw [ho]; rfl), immExt_bType]

theorem immOf_jal (ho : opOf w = Opcode.jal.asUInt) : immOf w = (jBits w).signExtend 32 := by
  rw [immOf_of_immSrc .jType (by rw [ho]; rfl), immExt_jType]

theorem immOf_uType (ho : opOf w = Opcode.lui.asUInt ∨ opOf w = Opcode.auipc.asUInt) :
    immOf w = uBits w := by
  rw [immOf_of_immSrc .uType (by rcases ho with h | h <;> rw [h] <;> rfl), immExt_uType]

end Opcodes

end Perilus

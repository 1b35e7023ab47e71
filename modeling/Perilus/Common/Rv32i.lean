import Mathlib.Logic.Function.Basic
import Perilus.Common.ByteMemory
/-!
# RV32I, written over the integers

The base integer instruction set as arithmetic: a word is a natural
number and its fields are digits of it, a register holds a number below
`2 ^ 32`, and a result is wrapped to one. Only legal encodings decode.
The memory is an array of `N` bytes, little-endian, in which an access
goes to its place.
-/

namespace Rv32i

open ByteMemory

/-! ## Numbers -/

/-- An integer modulo `2 ^ 32`. -/
def wrap (z : ℤ) : ℕ := (z % 2 ^ 32).toNat

/-- An `n`-bit number read as two's complement. -/
def signed (n v : ℕ) : ℤ := if 2 * v < 2 ^ n then v else v - 2 ^ n

/-- The `n` bits of a word from bit `lo` on. -/
def field (w lo n : ℕ) : ℕ := w / 2 ^ lo % 2 ^ n

/-! ## Instructions -/

abbrev Reg := Fin 32

/-- The functions of the register instructions. -/
inductive Alu
  | add | sub | sll | slt | sltu | xor | srl | sra | or | and
  deriving DecidableEq, Repr

/-- The conditions of the branches. -/
inductive Condition
  | eq | ne | lt | ge | ltu | geu
  deriving DecidableEq, Repr

inductive Instr
  | lui (rd : Reg) (imm : ℤ)
  | auipc (rd : Reg) (imm : ℤ)
  | jal (rd : Reg) (imm : ℤ)
  | jalr (rd rs1 : Reg) (imm : ℤ)
  | branch (c : Condition) (rs1 rs2 : Reg) (imm : ℤ)
  /-- A load of `width` bytes, sign- or zero-extended. -/
  | load (width : ℕ) (extend : Bool) (rd rs1 : Reg) (imm : ℤ)
  | store (width : ℕ) (rs1 rs2 : Reg) (imm : ℤ)
  | aluImm (f : Alu) (rd rs1 : Reg) (imm : ℤ)
  | alu (f : Alu) (rd rs1 rs2 : Reg)
  | fence
  | ecall
  | ebreak
  deriving DecidableEq

/-! ## Decoding -/

section Decode

variable (w : ℕ)

def rd : Reg := Fin.ofNat 32 (field w 7 5)
def rs1 : Reg := Fin.ofNat 32 (field w 15 5)
def rs2 : Reg := Fin.ofNat 32 (field w 20 5)
def funct3 : ℕ := field w 12 3
def funct7 : ℕ := field w 25 7

def immI : ℤ := signed 12 (field w 20 12)

def immS : ℤ := signed 12 (field w 25 7 * 2 ^ 5 + field w 7 5)

def immB : ℤ :=
  signed 13 (field w 31 1 * 2 ^ 12 + field w 7 1 * 2 ^ 11 + field w 25 6 * 2 ^ 5 +
    field w 8 4 * 2)

def immJ : ℤ :=
  signed 21 (field w 31 1 * 2 ^ 20 + field w 12 8 * 2 ^ 12 + field w 20 1 * 2 ^ 11 +
    field w 21 10 * 2)

def immU : ℤ := field w 12 20 * 2 ^ 12

def conditionOf : ℕ → Option Condition
  | 0 => some .eq
  | 1 => some .ne
  | 4 => some .lt
  | 5 => some .ge
  | 6 => some .ltu
  | 7 => some .geu
  | _ => none

/-- The width of a load, and whether it sign-extends; a word has nothing
to extend. -/
def loadOf : ℕ → Option (ℕ × Bool)
  | 0 => some (1, true)
  | 1 => some (2, true)
  | 2 => some (4, false)
  | 4 => some (1, false)
  | 5 => some (2, false)
  | _ => none

/-- The width of a store. -/
def storeOf : ℕ → Option ℕ
  | 0 => some 1
  | 1 => some 2
  | 2 => some 4
  | _ => none

/-- The ten register-register functions. -/
def aluOf (funct3 funct7 : ℕ) : Option Alu :=
  match funct3, funct7 with
  | 0, 0 => some .add
  | 0, 32 => some .sub
  | 1, 0 => some .sll
  | 2, 0 => some .slt
  | 3, 0 => some .sltu
  | 4, 0 => some .xor
  | 5, 0 => some .srl
  | 5, 32 => some .sra
  | 6, 0 => some .or
  | 7, 0 => some .and
  | _, _ => none

/-- The nine register-immediate functions with their operand, which for a
shift is the amount alone. -/
def aluImmOf : Option (Alu × ℤ) :=
  match funct3 w with
  | 0 => some (.add, immI w)
  | 1 => if funct7 w = 0 then some (.sll, field w 20 5) else none
  | 2 => some (.slt, immI w)
  | 3 => some (.sltu, immI w)
  | 4 => some (.xor, immI w)
  | 5 =>
    if funct7 w = 0 then some (.srl, field w 20 5)
    else if funct7 w = 32 then some (.sra, field w 20 5)
    else none
  | 6 => some (.or, immI w)
  | 7 => some (.and, immI w)
  | _ => none

/-- The instruction a word encodes, if it is a legal one. -/
def decode : Option Instr :=
  match field w 0 7 with
  | 0b0110111 => some (.lui (rd w) (immU w))
  | 0b0010111 => some (.auipc (rd w) (immU w))
  | 0b1101111 => some (.jal (rd w) (immJ w))
  | 0b1100111 => if funct3 w = 0 then some (.jalr (rd w) (rs1 w) (immI w)) else none
  | 0b1100011 => (conditionOf (funct3 w)).map fun c => .branch c (rs1 w) (rs2 w) (immB w)
  | 0b0000011 => (loadOf (funct3 w)).map fun p => .load p.1 p.2 (rd w) (rs1 w) (immI w)
  | 0b0100011 => (storeOf (funct3 w)).map fun width => .store width (rs1 w) (rs2 w) (immS w)
  | 0b0010011 => (aluImmOf w).map fun p => .aluImm p.1 (rd w) (rs1 w) p.2
  | 0b0110011 => (aluOf (funct3 w) (funct7 w)).map fun f => .alu f (rd w) (rs1 w) (rs2 w)
  | 0b0001111 => if funct3 w = 0 then some .fence else none
  | 0b1110011 =>
    if w = 0x00000073 then some .ecall else if w = 0x00100073 then some .ebreak else none
  | _ => none

end Decode

/-! ## Execution -/

/-- What a register instruction computes. -/
def Alu.eval (f : Alu) (a b : ℕ) : ℕ :=
  match f with
  | add => (a + b) % 2 ^ 32
  | sub => wrap (a - b)
  | sll => a * 2 ^ (b % 32) % 2 ^ 32
  | slt => if signed 32 a < signed 32 b then 1 else 0
  | sltu => if a < b then 1 else 0
  | xor => a ^^^ b
  | srl => a / 2 ^ (b % 32)
  | sra => wrap (signed 32 a / 2 ^ (b % 32))
  | or => a ||| b
  | and => a &&& b

/-- Whether a branch is taken. -/
def Condition.holds (c : Condition) (a b : ℕ) : Bool :=
  match c with
  | eq => decide (a = b)
  | ne => decide (a ≠ b)
  | lt => decide (signed 32 a < signed 32 b)
  | ge => decide (signed 32 b ≤ signed 32 a)
  | ltu => decide (a < b)
  | geu => decide (b ≤ a)

/-- The pc, the registers and the memory. -/
@[ext] structure State (N : ℕ) where
  pc : ℕ
  x : Reg → ℕ
  mem : Bytes N

namespace State

section Registers

variable {N : ℕ} (s : State N)

/-- Register 0 reads as zero. -/
def reg (r : Reg) : ℕ := if r = 0 then 0 else s.x r

/-- Register 0 ignores writes. -/
def set (r : Reg) (v : ℕ) : State N :=
  if r = 0 then s else { s with x := Function.update s.x r v }

@[simp] theorem set_mem (r : Reg) (v : ℕ) : (s.set r v).mem = s.mem := by
  rw [set]
  split <;> rfl

/-- What a register holds after a write. -/
theorem set_x (r r' : Reg) (v : ℕ) :
    (s.set r v).x r' = if r = 0 ∨ r' ≠ r then s.x r' else v := by
  rw [set]
  by_cases h : r = 0
  · rw [if_pos h, if_pos (.inl h)]
  · rw [if_neg h]
    by_cases hr : r' = r
    · rw [if_neg (by tauto), hr]
      exact Function.update_self _ _ _
    · rw [if_pos (.inr hr)]
      exact Function.update_of_ne hr _ _

/-- The address of the next word. -/
def next : ℕ := wrap (s.pc + 4)

end Registers

section Step

variable {N : ℕ} [NeZero N] (s : State N)

/-- The effect of an instruction. The operands of a jump are read before
its link is written. -/
def execute (i : Instr) : State N :=
  match i with
  | .lui rd imm => { s.set rd (wrap imm) with pc := s.next }
  | .auipc rd imm => { s.set rd (wrap (s.pc + imm)) with pc := s.next }
  | .jal rd imm => { s.set rd s.next with pc := wrap (s.pc + imm) }
  | .jalr rd rs1 imm => { s.set rd s.next with pc := wrap (s.reg rs1 + imm) / 2 * 2 }
  | .branch c rs1 rs2 imm =>
    { s with pc := if c.holds (s.reg rs1) (s.reg rs2) then wrap (s.pc + imm) else s.next }
  | .load width extend rd rs1 imm =>
    let v := load s.mem (place N width (wrap (s.reg rs1 + imm))) width
    { s.set rd (if extend then wrap (signed (8 * width) v) else v) with pc := s.next }
  | .store width rs1 rs2 imm =>
    { s with
      pc := s.next
      mem := store s.mem (place N width (wrap (s.reg rs1 + imm))) width (s.reg rs2) }
  | .aluImm f rd rs1 imm => { s.set rd (f.eval (s.reg rs1) (wrap imm)) with pc := s.next }
  | .alu f rd rs1 rs2 => { s.set rd (f.eval (s.reg rs1) (s.reg rs2)) with pc := s.next }
  | .fence | .ecall | .ebreak => { s with pc := s.next }

/-- The word at the pc. -/
def fetch : ℕ := load s.mem (place N 4 s.pc) 4

/-- **One step**, where the word at the pc is a legal instruction. -/
def step : Option (State N) := (decode s.fetch).map s.execute

end Step

end State

end Rv32i

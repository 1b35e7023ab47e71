import Perilus.Common.Rv32i
/-!
# Perilus — the words outside RV32I

The control unit looks at the opcode and, of the other fields, at no more
than it needs, so a word whose opcode it knows always does something.
`Dialect` is the instruction set this makes, over integers as `Rv32i` is:
the base instruction set, and a meaning for each of its reserved
encodings.
-/

namespace Perilus

open Rv32i

/-- What a word does: an instruction of RV32I, or a jump and link register
that computes its link and its target with another ALU function. -/
inductive Dialect
  | rv32i (i : Instr)
  | jalr (f : Rv32i.Alu) (rd rs1 : Reg) (imm : ℤ)
  deriving DecidableEq

namespace Dialect

/-- The ALU function of a funct3, of which bit 30 picks the alternative. -/
def aluAny (funct3 : ℕ) (alternative : Bool) : Rv32i.Alu :=
  match funct3 with
  | 0 => if alternative then .sub else .add
  | 1 => .sll
  | 2 => .slt
  | 3 => .sltu
  | 4 => .xor
  | 5 => if alternative then .sra else .srl
  | 6 => .or
  | _ => .and

section Decode

variable (w : ℕ)

/-- Bit 30. -/
def alternative : Bool := decide (funct7 w / 32 % 2 = 1)

/-- **The reserved encodings.** A load or a store of no legal width is of
a word, or of the width of the unsigned load; a branch of no condition is
not taken; of funct7 only bit 30 counts; and every fence and every
environment word is skipped. -/
def reserved : Option Dialect :=
  match field w 0 7 with
  | 0b1100111 =>
    some (.jalr (aluAny (Rv32i.funct3 w) (alternative w)) (Rv32i.rd w) (Rv32i.rs1 w) (immI w))
  | 0b1100011 => some (.rv32i .fence)
  | 0b0000011 => some (.rv32i (.load 4 false (Rv32i.rd w) (Rv32i.rs1 w) (immI w)))
  | 0b0100011 =>
    let width := if Rv32i.funct3 w = 4 then 1 else if Rv32i.funct3 w = 5 then 2 else 4
    some (.rv32i (.store width (Rv32i.rs1 w) (Rv32i.rs2 w) (immS w)))
  | 0b0010011 =>
    some (.rv32i (.aluImm (aluAny (Rv32i.funct3 w) (alternative w)) (Rv32i.rd w) (Rv32i.rs1 w)
      (field w 20 5)))
  | 0b0110011 =>
    some (.rv32i (.alu (aluAny (Rv32i.funct3 w) (alternative w)) (Rv32i.rd w) (Rv32i.rs1 w)
      (Rv32i.rs2 w)))
  | 0b0001111 | 0b1110011 => some (.rv32i .fence)
  | _ => none

/-- The meaning of a word, if its opcode is one of the eleven. -/
def decode : Option Dialect :=
  match Rv32i.decode w with
  | some i => some (.rv32i i)
  | none => reserved w

/-- The clock cycles a word takes. -/
def cycles : ℕ :=
  match field w 0 7 with
  | 0b0000011 => 5
  | 0b0100011 | 0b0110011 | 0b0010011 | 0b1101111 | 0b1100111 => 4
  | 0b1100011 | 0b0110111 | 0b0010111 => 3
  | _ => 2

end Decode

section Step

variable {N : ℕ} [NeZero N] (s : Rv32i.State N)

/-- The effect of a word. -/
def execute : Dialect → Rv32i.State N
  | .rv32i i => s.execute i
  | .jalr f rd rs1 imm =>
    { s.set rd (f.eval s.pc 4) with pc := f.eval (s.reg rs1) (wrap imm) / 2 * 2 }

/-- **One step**, where the word at the pc has a meaning. -/
def step : Option (Rv32i.State N) := (decode s.fetch).map (execute s)

end Step

/-- **The dialect extends RV32I.** -/
theorem step_of_rv32i {N : ℕ} [NeZero N] {s t : Rv32i.State N} (h : s.step = some t) :
    step s = some t := by
  obtain ⟨i, hi, rfl⟩ := Option.map_eq_some_iff.1 h
  rw [step, decode, hi]
  rfl

/-- `mul x3, x1, x2` of the M extension is `add x3, x1, x2` here. -/
example : decode 0x022081b3 = some (.rv32i (.alu .add 3 1 2)) := by decide

/-! ## Under a clock -/

/-- A machine `phase` cycles into the word at its pc. -/
structure Timed (N : ℕ) where
  machine : Rv32i.State N
  phase : ℕ

namespace Timed

section Cycle

variable {N : ℕ} [NeZero N] (t : Timed N)

/-- **One cycle.** A word takes effect in its last one, and a word without
a meaning has none. -/
def tick : Timed N :=
  match step t.machine with
  | none => { t with phase := t.phase + 1 }
  | some s =>
    if t.phase + 1 < cycles t.machine.fetch then { t with phase := t.phase + 1 } else ⟨s, 0⟩

/-- The link of a jump and link register is written a cycle early. -/
def Linked : Prop := field t.machine.fetch 0 7 = 0b1100111 ∧ t.phase = 3

instance decidableLinked : Decidable t.Linked :=
  inferInstanceAs (Decidable (_ ∧ _))

/-- **A reset**, which gives the word in flight up. -/
def reset : Timed N where
  machine :=
    { t.machine with
      pc := 0
      x := if t.Linked then (step t.machine).elim t.machine.x Rv32i.State.x else t.machine.x }
  phase := 0

/-- It can be clocked: it is in a word, or at the start of one at an even
address. -/
def Clockable : Prop := 0 < t.phase ∨ t.machine.pc % 2 = 0

instance decidableClockable : Decidable t.Clockable :=
  inferInstanceAs (Decidable (_ ∨ _))

/-- A cycle, and whether it asserts reset. -/
def clock (reset : Bool) (t : Timed N) : Timed N := if reset then t.reset else t.tick

end Cycle

end Timed

end Dialect

end Perilus

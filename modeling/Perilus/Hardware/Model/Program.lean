import Perilus.Common.Clocked
import Perilus.Common.Rv32i
import Perilus.Hardware.Model.Arch
import Perilus.Hardware.Model.Assembler
/-!
# Perilus — assembled programs

The word the tests make of an instruction of the reference, and a list of
instructions as a program: what it does, read off the list and not off
the words.
-/

namespace Perilus

open ByteMemory Rv32i

/-! ## Instructions -/

/-- The funct3 of a branch. -/
def funct3OfCondition : Condition → BitVec 32
  | .eq => 0
  | .ne => 1
  | .lt => 4
  | .ge => 5
  | .ltu => 6
  | .geu => 7

/-- The funct3 of a load. -/
def funct3OfLoad : ℕ → Bool → BitVec 32
  | 1, true => 0
  | 2, true => 1
  | 1, false => 4
  | 2, false => 5
  | _, _ => 2

/-- The funct3 of a store. -/
def funct3OfStore : ℕ → BitVec 32
  | 1 => 0
  | 2 => 1
  | _ => 2

/-- The funct3 of a function, which `sub` and `sra` share with another. -/
def funct3OfAlu : Rv32i.Alu → BitVec 32
  | .add | .sub => 0
  | .sll => 1
  | .slt => 2
  | .sltu => 3
  | .xor => 4
  | .srl | .sra => 5
  | .or => 6
  | .and => 7

/-- **The word of an instruction**, put together by the format of its
test. -/
def assemble : Instr → BitVec 32
  | .lui rd imm => testUType (BitVec.ofInt 32 imm) (BitVec.ofNat 32 rd) 0x37
  | .auipc rd imm => testUType (BitVec.ofInt 32 imm) (BitVec.ofNat 32 rd) 0x17
  | .jal rd imm => assembleJType (BitVec.ofNat 32 rd) (BitVec.ofInt 32 imm)
  | .jalr rd rs1 imm =>
    assembleIType 0 false (BitVec.ofNat 32 rd) (BitVec.ofNat 32 rs1) (BitVec.ofInt 32 imm) 103
  | .branch c rs1 rs2 imm =>
    testBType (funct3OfCondition c) (BitVec.ofNat 32 rs1) (BitVec.ofNat 32 rs2)
      (BitVec.ofInt 32 imm)
  | .load width extend rd rs1 imm =>
    assembleIType (funct3OfLoad width extend) false (BitVec.ofNat 32 rd) (BitVec.ofNat 32 rs1)
      (BitVec.ofInt 32 imm) 3
  | .store width rs1 rs2 imm =>
    testSType (funct3OfStore width) (BitVec.ofNat 32 rs1) (BitVec.ofNat 32 rs2)
      (BitVec.ofInt 32 imm)
  | .aluImm f rd rs1 imm =>
    assembleIType (funct3OfAlu f) (decide (f = .sra)) (BitVec.ofNat 32 rd) (BitVec.ofNat 32 rs1)
      (BitVec.ofInt 32 imm) 19
  | .alu f rd rs1 rs2 =>
    testRType (funct3OfAlu f) (decide (f = .sub ∨ f = .sra)) (BitVec.ofNat 32 rd)
      (BitVec.ofNat 32 rs1) (BitVec.ofNat 32 rs2)
  | .fence => 0x0000000f
  | .ecall => 0x00000073
  | .ebreak => 0x00100073

/-- The immediates that fit `n` bits. -/
def FitsBits (n : ℕ) (imm : ℤ) : Prop := -2 ^ n ≤ 2 * imm ∧ 2 * imm < 2 ^ n

instance decidableFitsBits (n : ℕ) (imm : ℤ) : Decidable (FitsBits n imm) :=
  inferInstanceAs (Decidable (_ ∧ _))

/-- **It has a word**: its immediate fits its format, and it is a load or
a store of a legal width and no subtraction of an immediate. -/
def Encodable : Instr → Prop
  | .lui _ imm | .auipc _ imm => 0 ≤ imm ∧ imm < 2 ^ 32 ∧ imm % 2 ^ 12 = 0
  | .jal _ imm => FitsBits 21 imm ∧ imm % 2 = 0
  | .jalr _ _ imm => FitsBits 12 imm
  | .branch _ _ _ imm => FitsBits 13 imm ∧ imm % 2 = 0
  | .load width extend _ _ imm =>
    (width, extend) ∈ [(1, true), (2, true), (4, false), (1, false), (2, false)] ∧ FitsBits 12 imm
  | .store width _ _ imm => width ∈ [1, 2, 4] ∧ FitsBits 12 imm
  | .aluImm f _ _ imm =>
    match f with
    | .sub => False
    | .sll | .srl | .sra => 0 ≤ imm ∧ imm < 32
    | _ => FitsBits 12 imm
  | .alu _ _ _ _ | .fence | .ecall | .ebreak => True

instance decidableEncodable : (i : Instr) → Decidable (Encodable i)
  | .lui _ _ | .auipc _ _ => inferInstanceAs (Decidable (_ ∧ _))
  | .jal _ _ | .branch _ _ _ _ | .load _ _ _ _ _ | .store _ _ _ _ =>
    inferInstanceAs (Decidable (_ ∧ _))
  | .jalr _ _ imm => decidableFitsBits 12 imm
  | .aluImm .sub _ _ _ => .isFalse id
  | .aluImm .sll _ _ _ | .aluImm .srl _ _ _ | .aluImm .sra _ _ _ =>
    inferInstanceAs (Decidable (_ ∧ _))
  | .aluImm .add _ _ imm | .aluImm .slt _ _ imm | .aluImm .sltu _ _ imm | .aluImm .xor _ _ imm
  | .aluImm .or _ _ imm | .aluImm .and _ _ imm => decidableFitsBits 12 imm
  | .alu _ _ _ _ | .fence | .ecall | .ebreak => .isTrue trivial

/-- The opcode of an instruction. -/
def opcodeOf : Instr → Opcode
  | .lui _ _ => .lui
  | .auipc _ _ => .auipc
  | .jal _ _ => .jal
  | .jalr _ _ _ => .jalr
  | .branch _ _ _ _ => .branch
  | .load _ _ _ _ _ => .load
  | .store _ _ _ _ => .store
  | .aluImm _ _ _ _ => .immediate
  | .alu _ _ _ _ => .rType
  | .fence => .fence
  | .ecall | .ebreak => .env

/-! ## Programs -/

/-- **A program**: instructions that have words, which fit a memory of `N`
bytes. -/
structure Program (N : ℕ) where
  instrs : List Instr
  encodable : ∀ i ∈ instrs, Encodable i
  fits : 4 * instrs.length ≤ N

namespace Program

variable {N : ℕ} (p : Program N)

/-- The instruction at an address. -/
def fetch (pc : ℕ) : Option Instr := if pc % 4 = 0 then p.instrs[pc / 4]? else none

/-- An instruction stores over the program. -/
def Clobbers (s : Rv32i.State N) : Instr → Prop
  | .store width rs1 _ imm => place N width (wrap (s.reg rs1 + imm)) < 4 * p.instrs.length
  | _ => False

instance decidableClobbers (s : Rv32i.State N) : (i : Instr) → Decidable (p.Clobbers s i)
  | .store _ _ _ _ => inferInstanceAs (Decidable (_ < _))
  | .lui _ _ | .auipc _ _ | .jal _ _ | .jalr _ _ _ | .branch _ _ _ _ | .load _ _ _ _ _
  | .aluImm _ _ _ _ | .alu _ _ _ _ | .fence | .ecall | .ebreak => .isFalse id

section Step

variable [NeZero N]

/-- **One step of the program**, which ends where the pc leaves it and
where it is about to be stored over. -/
def step (s : Rv32i.State N) : Option (Rv32i.State N) :=
  (p.fetch s.pc).bind fun i => if p.Clobbers s i then none else some (s.execute i)

/-- The cycles of the next `n` instructions. -/
def time (n : ℕ) (s : Rv32i.State N) : ℕ :=
  Clocked.runCost p.step (fun s => (p.fetch s.pc).elim 0 fun i => (opcodeOf i).latency) n s

/-- A memory holds the program's words from address 0 on. -/
def In (m : Bytes N) : Prop :=
  ∀ k (hk : k < p.instrs.length), load m (4 * k) 4 = (assemble p.instrs[k]).toNat

instance decidableIn (m : Bytes N) : Decidable (p.In m) := Nat.decidableBallLT _ _

end Step

end Program

end Perilus

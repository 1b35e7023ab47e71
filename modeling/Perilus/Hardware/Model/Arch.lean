import Perilus.Hardware.Model.Datapath
/-!
# Perilus — the design, an instruction at a time

`Arch` is what a program can see: pc, register file and memory.
`Arch.exec` is what the design does to it between two fetches, for every
word with a supported opcode, reserved encodings included; `Arch.during`
is what a program would see half way.
-/

namespace Perilus

/-- The register file after a write the port lets through. -/
def RegisterFile.written (registerFile : Registers) (a3 : BitVec 5) (v : BitVec 32) : Registers :=
  if a3 = 0 then registerFile else Function.update registerFile a3 v

/-- The memory after a write the port lets through. -/
def Memory.stored {k : ℕ} (memory : Words k) (address : BitVec 32) (dataMask : DataMask)
    (v : BitVec 32) : Words k :=
  write memory (index k address) (writeLanes dataMask (byteOffset address) v)
    (maskValue dataMask (byteOffset address))

/-- The access width the control unit asks for in a load or a store. -/
def accessMask (funct3 : BitVec 3) : DataMask :=
  if funct3 = 0 ∨ funct3 = 4 then .byte else if funct3 = 1 ∨ funct3 = 5 then .half else .word

/-- The word a fetch reads. -/
def fetched (memory : Words memoryBits) (address : BitVec 32) : BitVec 32 :=
  Memory.readData memory address .word false

/-- The ALU function an instruction's own fields select. -/
def arithmeticOf (instr : BitVec 32) : AluControl :=
  AluDecoder.aluControl .arithmetic (funct3Of instr) (funct7_5Of instr) (opOf instr)

/-- The ALU function a branch compares with. -/
def comparisonOf (instr : BitVec 32) : AluControl :=
  AluDecoder.aluControl .branch (funct3Of instr) (funct7_5Of instr) (opOf instr)

/-! ## What a program sees -/

/-- The program-visible state. -/
@[ext] structure Arch where
  pc : BitVec 32
  registerFile : Registers
  memory : Words memoryBits

/-- The program-visible part of a machine state. -/
def State.arch (s : State) : Arch := ⟨s.pc, s.registerFile, s.memory⟩

@[simp] theorem State.arch_pc (s : State) : s.arch.pc = s.pc := rfl
@[simp] theorem State.arch_registerFile (s : State) : s.arch.registerFile = s.registerFile := rfl
@[simp] theorem State.arch_memory (s : State) : s.arch.memory = s.memory := rfl

namespace Arch

variable (a : Arch)

/-- The instruction word at the pc. -/
def word : BitVec 32 := fetched a.memory a.pc

def op : BitVec 7 := opOf a.word

def funct3 : BitVec 3 := funct3Of a.word

def rd : BitVec 5 := rdOf a.word

def imm : BitVec 32 := immOf a.word

def rd1 : BitVec 32 := RegisterFile.rd a.registerFile (rs1Of a.word)

def rd2 : BitVec 32 := RegisterFile.rd a.registerFile (rs2Of a.word)

/-- The pc the fetch leaves. -/
def nextPc : BitVec 32 := (a.pc + 4) &&& ~~~1

/-- The effective address of a load or a store. -/
def address : BitVec 32 := a.rd1 + a.imm

/-- What a load brings to its destination. -/
def loaded : BitVec 32 :=
  Memory.readData a.memory a.address (accessMask a.funct3)
    (ControlUnit.signExtData Opcode.load.asUInt a.funct3)

/-- What a jump and link register writes: the ALU function is the one
its funct3 selects. -/
def jalrLink : BitVec 32 := Alu.aluResult (arithmeticOf a.word) a.pc 4

def jalrTarget : BitVec 32 := Alu.aluResult (arithmeticOf a.word) a.rd1 a.imm &&& ~~~1

/-- The target of a jump and link or a taken branch. -/
def target : BitVec 32 := (a.pc + a.imm) &&& ~~~1

/-- What an instruction that ends in `aluWb` writes. -/
def aluValue : BitVec 32 :=
  if a.op = Opcode.jal.asUInt then a.pc + 4
  else if a.op = Opcode.rType.asUInt then Alu.aluResult (arithmeticOf a.word) a.rd1 a.rd2
  else Alu.aluResult (arithmeticOf a.word) a.rd1 a.imm

def taken : Bool :=
  ControlUnit.branchTaken a.funct3 (Alu.zero (comparisonOf a.word) a.rd1 a.rd2)
    (Alu.lessThan (comparisonOf a.word) a.rd1 a.rd2)

/-- Falling through to the next word. -/
def advance : Arch := { a with pc := a.nextPc }

/-- Writing the destination register and falling through. -/
def write (v : BitVec 32) : Arch :=
  { a with pc := a.nextPc, registerFile := RegisterFile.written a.registerFile a.rd v }

/-- **What one instruction does.** An unsupported opcode never comes back
to a fetch; what the program sees meanwhile is the next pc. -/
def exec : Arch :=
  match Opcode.ofUInt? a.op with
  | none => a.advance
  | some .load => a.write a.loaded
  | some .store =>
    { a with
      pc := a.nextPc
      memory := Memory.stored a.memory a.address (accessMask a.funct3) a.rd2 }
  | some .rType | some .immediate => a.write a.aluValue
  | some .jal => { a.write a.aluValue with pc := a.target }
  | some .jalr => { a.write a.jalrLink with pc := a.jalrTarget }
  | some .branch => { a with pc := if a.taken then a.target else a.nextPc }
  | some .lui => a.write a.imm
  | some .auipc => a.write (a.pc + a.imm)
  | some .env | some .fence => a.advance

/-- What a program would see in FSM state `st` of the instruction fetched
at `a`. -/
def during (st : ControlUnitState) : Arch :=
  match st with
  | .fetch => a
  | .jalrJump => a.write a.jalrLink
  | .aluWb => if a.op = Opcode.jal.asUInt then { a with pc := a.target } else a.advance
  | _ => a.advance

end Arch

/-- The opcodes an FSM state serves. -/
def Serves (st : ControlUnitState) (op : BitVec 7) : Prop :=
  match st with
  | .fetch | .decode => True
  | .memAdr => op = Opcode.load.asUInt ∨ op = Opcode.store.asUInt
  | .memRead | .memWb => op = Opcode.load.asUInt
  | .memWrite => op = Opcode.store.asUInt
  | .executeR => op = Opcode.rType.asUInt
  | .executeI => op = Opcode.immediate.asUInt
  | .aluWb => op = Opcode.rType.asUInt ∨ op = Opcode.immediate.asUInt ∨ op = Opcode.jal.asUInt
  | .jal => op = Opcode.jal.asUInt
  | .jalrLink | .jalrJump => op = Opcode.jalr.asUInt
  | .branch => op = Opcode.branch.asUInt
  | .lui => op = Opcode.lui.asUInt
  | .auipc => op = Opcode.auipc.asUInt

/-- The control unit is at an instruction boundary. -/
def AtFetch (s : State) : Prop := s.state = .fetch

instance : DecidablePred AtFetch := fun s => inferInstanceAs (Decidable (s.state = .fetch))

/-- The cycles an instruction takes from its fetch to the next. -/
def Opcode.latency : Opcode → ℕ
  | env | fence => 2
  | branch | lui | auipc => 3
  | store | rType | immediate | jal | jalr => 4
  | load => 5

/-- The FSM states an instruction goes through. -/
def Opcode.path : Opcode → List ControlUnitState
  | load => [.fetch, .decode, .memAdr, .memRead, .memWb]
  | store => [.fetch, .decode, .memAdr, .memWrite]
  | rType => [.fetch, .decode, .executeR, .aluWb]
  | immediate => [.fetch, .decode, .executeI, .aluWb]
  | jal => [.fetch, .decode, .jal, .aluWb]
  | jalr => [.fetch, .decode, .jalrLink, .jalrJump]
  | branch => [.fetch, .decode, .branch]
  | lui => [.fetch, .decode, .lui]
  | auipc => [.fetch, .decode, .auipc]
  | env | fence => [.fetch, .decode]

/-- The FSM state `i` cycles after the fetch; the path ends in `fetch`. -/
def Opcode.phase (o : Opcode) (i : ℕ) : ControlUnitState := o.path.getD i .fetch

end Perilus

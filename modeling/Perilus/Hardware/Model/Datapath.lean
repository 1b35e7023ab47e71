import Perilus.Hardware.Model.ControlUnit
/-!
# Perilus — the multi-cycle datapath

`main.scala`: the architectural and the buffer registers, the muxes
between the units, and one clock cycle of the whole design. The memory
is the `2 ^ 20` words the simulator is built with.
-/

namespace Perilus

/-- The sizes `main.scala` fixes: `1048576` words. -/
abbrev memoryBits : ℕ := 20

/-- `instr(6, 0)`. -/
def opOf (instr : BitVec 32) : BitVec 7 := (Opcode.safe (instr.extractLsb 6 0)).1

/-- `instr(14, 12)`. -/
def funct3Of (instr : BitVec 32) : BitVec 3 := instr.extractLsb 14 12

/-- `instr(30)`. -/
def funct7_5Of (instr : BitVec 32) : Bool := instr[30]

/-- `instr(19, 15)`. -/
def rs1Of (instr : BitVec 32) : BitVec 5 := instr.extractLsb 19 15

/-- `instr(24, 20)`. -/
def rs2Of (instr : BitVec 32) : BitVec 5 := instr.extractLsb 24 20

/-- `instr(11, 7)`. -/
def rdOf (instr : BitVec 32) : BitVec 5 := instr.extractLsb 11 7

/-- The immediate the extend unit drives while `instr` is held. -/
def immOf (instr : BitVec 32) : BitVec 32 :=
  ExtendUnit.immExt (instr.extractLsb 31 7) (InstructionDecoder.immSrc (opOf instr))

/-- The registers of the design and its two memories. -/
@[ext] structure State where
  /-- The control unit's state register. -/
  state : ControlUnitState
  pc : BitVec 32
  oldPc : BitVec 32
  instr : BitVec 32
  readDataBuf : BitVec 32
  rd1Buf : BitVec 32
  rd2Buf : BitVec 32
  aluOutBuf : BitVec 32
  registerFile : Registers
  memory : Words memoryBits

namespace State

variable (s : State)

/-- The main FSM's wires in this cycle. -/
def wires : ControlUnit.Fsm := ControlUnit.fsm s.state (opOf s.instr)

def aluControl : AluControl :=
  AluDecoder.aluControl s.wires.aluOp (funct3Of s.instr) (funct7_5Of s.instr) (opOf s.instr)

def srcA : BitVec 32 :=
  match s.wires.aluSrcA with
  | .pc => s.pc
  | .oldPc => s.oldPc
  | .rd1 => s.rd1Buf

def srcB : BitVec 32 :=
  match s.wires.aluSrcB with
  | .rd2 => s.rd2Buf
  | .immExt => immOf s.instr
  | .four => 4

def aluResult : BitVec 32 := Alu.aluResult s.aluControl s.srcA s.srcB

def zero : Bool := Alu.zero s.aluControl s.srcA s.srcB

def lessThan : Bool := Alu.lessThan s.aluControl s.srcA s.srcB

def pcWrite : Bool := ControlUnit.pcWrite s.wires (funct3Of s.instr) s.zero s.lessThan

def result : BitVec 32 :=
  match s.wires.resultSrc with
  | .aluOutBuf => s.aluOutBuf
  | .readDataBuf => s.readDataBuf
  | .aluResult => s.aluResult
  | .immExt => immOf s.instr

/-- What the datapath drives the memory with. -/
def memoryIn : Memory.In where
  address := if s.wires.adrSrc then s.result else s.pc
  writeData := s.rd2Buf
  writeEnable := s.wires.memWrite
  dataMask := ControlUnit.dataMask s.state (opOf s.instr) (funct3Of s.instr)
  signExtData := ControlUnit.signExtData (opOf s.instr) (funct3Of s.instr)

def readData : BitVec 32 :=
  Memory.readData s.memory s.memoryIn.address s.memoryIn.dataMask s.memoryIn.signExtData

/-- **One clock cycle.** Every `RegInit` goes to zero, and the FSM to
`fetch`, while reset is asserted; the two memories gate their own write
ports by it. -/
def clock (reset : Bool) (s : State) : State where
  state := if reset then .fetch else s.wires.next
  pc := if reset then 0 else if s.pcWrite then s.result &&& ~~~1 else s.pc
  oldPc := if reset then 0 else if s.wires.irWrite then s.pc else s.oldPc
  instr := if reset then 0 else if s.wires.irWrite then s.readData else s.instr
  readDataBuf := if reset then 0 else s.readData
  rd1Buf := if reset then 0 else RegisterFile.rd s.registerFile (rs1Of s.instr)
  rd2Buf := if reset then 0 else RegisterFile.rd s.registerFile (rs2Of s.instr)
  aluOutBuf := if reset then 0 else s.aluResult
  registerFile :=
    RegisterFile.clock s.registerFile (rdOf s.instr) s.result s.wires.regWrite reset
  memory := Memory.clock s.memory s.memoryIn reset

/-- The design with every bit zero, as a simulator that zero-initialises
it starts. -/
def zeroed : State where
  state := .fetch
  pc := 0
  oldPc := 0
  instr := 0
  readDataBuf := 0
  rd1Buf := 0
  rd2Buf := 0
  aluOutBuf := 0
  registerFile := fun _ => 0
  memory := fun _ _ => 0

end State

end Perilus

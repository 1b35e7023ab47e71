import Perilus.Hardware.Model.Arch
/-!
# Perilus — what one clock cycle does, state by state

A cycle loads every buffer (`latch`) and does one thing more, fixed by
the FSM state. Each `clock_*` equation is the whole next state with
reset low, and the `aluResult_*` and `readData_*` lemmas say what the
buffers were loaded with where a later state reads them. No later proof
unfolds `clock` again.
-/

namespace Perilus

/-- A write, with reset low, for all but `x0`. -/
@[simp] theorem RegisterFile.clock_write (registerFile : Registers) (a3 : BitVec 5)
    (v : BitVec 32) : clock registerFile a3 v true false = written registerFile a3 v := by
  by_cases h : a3 = 0 <;> simp [clock, written, h]

@[simp] theorem RegisterFile.clock_idle (registerFile : Registers) (a3 : BitVec 5)
    (v : BitVec 32) (reset : Bool) : clock registerFile a3 v false reset = registerFile := rfl

/-- Reset wins over a write. -/
@[simp] theorem RegisterFile.clock_reset (registerFile : Registers) (a3 : BitVec 5)
    (v : BitVec 32) (writeEnable3 : Bool) :
    clock registerFile a3 v writeEnable3 true = registerFile := by
  simp [clock]

section Written

variable {registerFile : Registers} {a3 r : BitVec 5} {v : BitVec 32}

theorem RegisterFile.written_self (h : a3 ≠ 0) : written registerFile a3 v a3 = v := by
  rw [written, if_neg h, Function.update_self]

theorem RegisterFile.written_of_ne (h : r ≠ a3) :
    written registerFile a3 v r = registerFile r := by
  rw [written]
  split
  · rfl
  · exact Function.update_of_ne h _ _

/-- `x0` is never written. -/
@[simp] theorem RegisterFile.written_zero : written registerFile a3 v 0 = registerFile 0 := by
  rw [written]
  split
  · rfl
  · next h => exact Function.update_of_ne (Ne.symm h) _ _

end Written

/-- The mask in the three states of an access, for a load or a store. -/
theorem accessMask_of {state : ControlUnitState} {op : BitVec 7} {funct3 : BitVec 3}
    (hs : state = .memRead ∨ state = .memWb ∨ state = .memWrite)
    (ho : op = Opcode.load.asUInt ∨ op = Opcode.store.asUInt) :
    ControlUnit.dataMask state op funct3 = accessMask funct3 := by
  rw [ControlUnit.dataMask, if_pos ⟨hs, ho⟩, accessMask]

namespace State

variable {s : State}

/-- The buffers loaded, as they are in every cycle. -/
def latch (s : State) : State :=
  { s with
    readDataBuf := s.readData
    rd1Buf := RegisterFile.rd s.registerFile (rs1Of s.instr)
    rd2Buf := RegisterFile.rd s.registerFile (rs2Of s.instr)
    aluOutBuf := s.aluResult }

/-- A reset cycle clears the registers and leaves the two memories. -/
theorem clock_true (s : State) :
    s.clock true =
      { state := .fetch, pc := 0, oldPc := 0, instr := 0, readDataBuf := 0, rd1Buf := 0,
        rd2Buf := 0, aluOutBuf := 0, registerFile := s.registerFile, memory := s.memory } := by
  simp [clock, Memory.clock]

/-- The FSM moves by its own next-state function. -/
theorem state_clock (s : State) :
    (s.clock false).state = (ControlUnit.fsm s.state (opOf s.instr)).next := rfl

section Cycle

attribute [local simp] clock latch pcWrite result wires memoryIn ControlUnit.fsm
  ControlUnit.fsmDefault ControlUnit.pcWrite Memory.clock

/-- **The word at the pc is held**, its address saved and the pc moved on. -/
theorem clock_fetch (h : s.state = .fetch) :
    s.clock false =
      { s.latch with
        state := .decode
        pc := (s.pc + 4) &&& ~~~1
        oldPc := s.pc
        instr := fetched s.memory s.pc } := by
  simp [h, aluResult, aluControl, srcA, srcB, AluDecoder.aluControl, Alu.aluResult, readData,
    fetched, ControlUnit.dataMask, Memory.readData]

/-- **The registers are read**, and the opcode picks the path. -/
theorem clock_decode (h : s.state = .decode) :
    s.clock false = { s.latch with state := ControlUnit.decodeNext (opOf s.instr) } := by
  simp [h]

theorem clock_memAdr (h : s.state = .memAdr) :
    s.clock false = { s.latch with state := ControlUnit.memAdrNext (opOf s.instr) } := by
  simp [h]

/-- The word at the address comes back, into `readDataBuf`. -/
theorem clock_memRead (h : s.state = .memRead) :
    s.clock false = { s.latch with state := .memWb } := by
  simp [h]

/-- A load writes `rd` and is over. -/
theorem clock_memWb (h : s.state = .memWb) :
    s.clock false =
      { s.latch with
        state := .fetch
        registerFile := RegisterFile.written s.registerFile (rdOf s.instr) s.readDataBuf } := by
  simp [h]

/-- A store writes memory at the address of the cycle before. -/
theorem clock_memWrite (h : s.state = .memWrite) :
    s.clock false =
      { s.latch with
        state := .fetch
        memory := Memory.stored s.memory s.aluOutBuf
          (ControlUnit.dataMask .memWrite (opOf s.instr) (funct3Of s.instr)) s.rd2Buf } := by
  simp [h, Memory.stored]

theorem clock_executeR (h : s.state = .executeR) :
    s.clock false = { s.latch with state := .aluWb } := by
  simp [h]

theorem clock_executeI (h : s.state = .executeI) :
    s.clock false = { s.latch with state := .aluWb } := by
  simp [h]

/-- What the ALU gave goes to `rd`; the end of an arithmetic instruction
and of a jal. -/
theorem clock_aluWb (h : s.state = .aluWb) :
    s.clock false =
      { s.latch with
        state := .fetch
        registerFile := RegisterFile.written s.registerFile (rdOf s.instr) s.aluOutBuf } := by
  simp [h]

/-- The pc takes the target, while the ALU makes the link. -/
theorem clock_jal (h : s.state = .jal) :
    s.clock false = { s.latch with state := .aluWb, pc := s.aluOutBuf &&& ~~~1 } := by
  simp [h]

/-- **The link of a jalr is written a cycle before it jumps**, by an ALU
that takes its operation from the word. -/
theorem clock_jalrLink (h : s.state = .jalrLink) :
    s.clock false =
      { s.latch with
        state := .jalrJump
        registerFile := RegisterFile.written s.registerFile (rdOf s.instr)
          (Alu.aluResult (arithmeticOf s.instr) s.oldPc 4) } := by
  simp [h, aluResult, aluControl, srcA, srcB, arithmeticOf]

/-- And the target comes out of the same operation. -/
theorem clock_jalrJump (h : s.state = .jalrJump) :
    s.clock false =
      { s.latch with
        state := .fetch
        pc := Alu.aluResult (arithmeticOf s.instr) s.rd1Buf (immOf s.instr) &&& ~~~1 } := by
  simp [h, aluResult, aluControl, srcA, srcB, arithmeticOf]

/-- **A branch is decided here**, and its target was made in `decode`. -/
theorem clock_branch (h : s.state = .branch) :
    s.clock false =
      { s.latch with
        state := .fetch
        pc :=
          if ControlUnit.branchTaken (funct3Of s.instr)
              (Alu.zero (comparisonOf s.instr) s.rd1Buf s.rd2Buf)
              (Alu.lessThan (comparisonOf s.instr) s.rd1Buf s.rd2Buf) then
            s.aluOutBuf &&& ~~~1
          else s.pc } := by
  simp [h, zero, lessThan, aluControl, srcA, srcB, comparisonOf]
  rfl

theorem clock_lui (h : s.state = .lui) :
    s.clock false =
      { s.latch with
        state := .fetch
        registerFile := RegisterFile.written s.registerFile (rdOf s.instr) (immOf s.instr) } := by
  simp [h]

/-- The address saved at the fetch, and not the pc, is added to. -/
theorem clock_auipc (h : s.state = .auipc) :
    s.clock false =
      { s.latch with
        state := .fetch
        registerFile := RegisterFile.written s.registerFile (rdOf s.instr)
          (s.oldPc + immOf s.instr) } := by
  simp [h, aluResult, aluControl, srcA, srcB, AluDecoder.aluControl, Alu.aluResult]

end Cycle

/-! ## What the buffers were loaded with -/

section Buffers

attribute [local simp] aluResult aluControl srcA srcB wires ControlUnit.fsm
  ControlUnit.fsmDefault AluDecoder.aluControl Alu.aluResult

/-- The target of a branch or a jal is made before either is known to be
one. -/
theorem aluResult_decode (h : s.state = .decode) : s.aluResult = s.oldPc + immOf s.instr := by
  simp [h]

/-- The address of a load or a store. -/
theorem aluResult_memAdr (h : s.state = .memAdr) : s.aluResult = s.rd1Buf + immOf s.instr := by
  simp [h]

theorem aluResult_jal (h : s.state = .jal) : s.aluResult = s.oldPc + 4 := by
  simp [h]

theorem aluResult_executeR (h : s.state = .executeR) :
    s.aluResult = Alu.aluResult (arithmeticOf s.instr) s.rd1Buf s.rd2Buf := by
  simp [h, arithmeticOf]

theorem aluResult_executeI (h : s.state = .executeI) :
    s.aluResult = Alu.aluResult (arithmeticOf s.instr) s.rd1Buf (immOf s.instr) := by
  simp [h, arithmeticOf]

/-- The address lines show the pc outside an access. -/
theorem readData_decode (h : s.state = .decode) : s.readData = fetched s.memory s.pc := by
  simp [h, readData, memoryIn, fetched, ControlUnit.dataMask, Memory.readData]

theorem readData_memRead (h : s.state = .memRead) :
    s.readData =
      Memory.readData s.memory s.aluOutBuf
        (ControlUnit.dataMask .memRead (opOf s.instr) (funct3Of s.instr))
        (ControlUnit.signExtData (opOf s.instr) (funct3Of s.instr)) := by
  simp [h, readData, memoryIn, result]

end Buffers

end State

end Perilus

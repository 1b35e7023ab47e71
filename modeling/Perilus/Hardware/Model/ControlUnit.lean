import Perilus.Hardware.Model.Memory
/-!
# Perilus — the control unit

`controlUnit.scala`: the main FSM with its default wires, the ALU decoder
and the instruction decoder. The opcode wire carries the raw seven bits,
valid or not, so a comparison with a named opcode is one with its value.
-/

namespace Perilus

/-- `object ControlUnitState`. -/
inductive ControlUnitState
  | fetch | decode | memAdr | memRead | memWb | memWrite | executeR | aluWb | executeI | jal
  | jalrLink | jalrJump | branch | lui | auipc
  deriving DecidableEq, Repr

/-- `object Opcode`. -/
inductive Opcode
  | load | fence | immediate | auipc | store | rType | lui | branch | jalr | jal | env
  deriving DecidableEq, Repr

namespace Opcode

/-- The value each opcode is given. -/
@[simp] def asUInt : Opcode → BitVec 7
  | load => 0b0000011
  | fence => 0b0001111
  | immediate => 0b0010011
  | auipc => 0b0010111
  | store => 0b0100011
  | rType => 0b0110011
  | lui => 0b0110111
  | branch => 0b1100011
  | jalr => 0b1100111
  | jal => 0b1101111
  | env => 0b1110011

/-- The eleven values of the enumeration, in order. -/
def all : List Opcode :=
  [load, fence, immediate, auipc, store, rType, lui, branch, jalr, jal, env]

/-- The opcode a raw value names, if any. -/
def ofUInt? (x : BitVec 7) : Option Opcode := all.find? fun o => o.asUInt = x

/-- `Opcode.safe`: the raw value with its validity, which the datapath
does not read. -/
def safe (x : BitVec 7) : BitVec 7 × Bool := (x, (ofUInt? x).isSome)

end Opcode

/-- The ALU decoder. -/
def AluDecoder.aluControl (aluOp : AluOp) (funct3 : BitVec 3) (funct7_5 : Bool)
    (op : BitVec 7) : AluControl :=
  match aluOp with
  | .auipc => .add
  | .memory => .add
  | .branch =>
    if funct3 = 0 ∨ funct3 = 1 then .sub
    else if funct3 = 4 ∨ funct3 = 5 then .slt
    else if funct3 = 6 ∨ funct3 = 7 then .sltu
    else .sub
  | .arithmetic =>
    if funct3 = 0b000 ∧ (op = Opcode.jalr.asUInt ∨ !op[5] ∨ (op[5] ∧ !funct7_5)) then .add
    else if funct3 = 0b000 ∧ op[5] ∧ funct7_5 then .sub
    else if funct3 = 0b001 then .sll
    else if funct3 = 0b010 then .slt
    else if funct3 = 0b011 then .sltu
    else if funct3 = 0b100 then .xor
    else if funct3 = 0b101 ∧ !funct7_5 then .srl
    else if funct3 = 0b101 ∧ funct7_5 then .sra
    else if funct3 = 0b110 then .or
    else if funct3 = 0b111 then .and
    else .add

/-- The instruction decoder. Its input `funct3` drives nothing. -/
def InstructionDecoder.immSrc (op : BitVec 7) : ImmSrc :=
  if op = Opcode.load.asUInt then .iType
  else if op = Opcode.store.asUInt then .sType
  else if op = Opcode.branch.asUInt then .bType
  else if op = Opcode.immediate.asUInt then .iType
  else if op = Opcode.jal.asUInt then .jType
  else if op = Opcode.lui.asUInt then .uType
  else if op = Opcode.auipc.asUInt then .uType
  else .iType

namespace ControlUnit

/-- The wires the main FSM drives, and the state register's next value. -/
structure Fsm where
  adrSrc : Bool
  irWrite : Bool
  memWrite : Bool
  regWrite : Bool
  aluSrcA : AluSrcA
  aluSrcB : AluSrcB
  resultSrc : ResultSrc
  aluOp : AluOp
  branch : Bool
  pcUpdate : Bool
  next : ControlUnitState

/-- What the wires hold where no state drives them; the state register
keeps its value. -/
def fsmDefault (state : ControlUnitState) : Fsm where
  adrSrc := false
  irWrite := false
  memWrite := false
  regWrite := false
  aluSrcA := .pc
  aluSrcB := .rd2
  resultSrc := .aluOutBuf
  aluOp := .memory
  branch := false
  pcUpdate := false
  next := state

/-- Where `decode` goes. No arm matches an opcode outside the
enumeration, and the state stays. -/
def decodeNext (op : BitVec 7) : ControlUnitState :=
  if op = Opcode.load.asUInt ∨ op = Opcode.store.asUInt then .memAdr
  else if op = Opcode.rType.asUInt then .executeR
  else if op = Opcode.immediate.asUInt then .executeI
  else if op = Opcode.jal.asUInt then .jal
  else if op = Opcode.jalr.asUInt then .jalrLink
  else if op = Opcode.branch.asUInt then .branch
  else if op = Opcode.lui.asUInt then .lui
  else if op = Opcode.auipc.asUInt then .auipc
  else if op = Opcode.env.asUInt ∨ op = Opcode.fence.asUInt then .fetch
  else .decode

/-- Where `memAdr` goes: a switch of two cases and no default. -/
def memAdrNext (op : BitVec 7) : ControlUnitState :=
  if op = Opcode.load.asUInt then .memRead
  else if op = Opcode.store.asUInt then .memWrite
  else .memAdr

/-- The main FSM. -/
def fsm (state : ControlUnitState) (op : BitVec 7) : Fsm :=
  let wires := fsmDefault state
  match state with
  | .fetch =>
    { wires with adrSrc := false, irWrite := true, aluSrcA := .pc, aluSrcB := .four,
                 aluOp := .memory, resultSrc := .aluResult, pcUpdate := true, next := .decode }
  | .decode =>
    { wires with aluSrcA := .oldPc, aluSrcB := .immExt, aluOp := .memory, next := decodeNext op }
  | .memAdr =>
    { wires with aluSrcA := .rd1, aluSrcB := .immExt, aluOp := .memory, next := memAdrNext op }
  | .memRead => { wires with resultSrc := .aluOutBuf, adrSrc := true, next := .memWb }
  | .memWb => { wires with resultSrc := .readDataBuf, regWrite := true, next := .fetch }
  | .memWrite =>
    { wires with resultSrc := .aluOutBuf, adrSrc := true, memWrite := true, next := .fetch }
  | .executeR =>
    { wires with aluSrcA := .rd1, aluSrcB := .rd2, aluOp := .arithmetic, next := .aluWb }
  | .aluWb => { wires with resultSrc := .aluOutBuf, regWrite := true, next := .fetch }
  | .executeI =>
    { wires with aluSrcA := .rd1, aluSrcB := .immExt, aluOp := .arithmetic, next := .aluWb }
  | .jal =>
    { wires with aluSrcA := .oldPc, aluSrcB := .four, resultSrc := .aluOutBuf, aluOp := .memory,
                 pcUpdate := true, next := .aluWb }
  | .jalrLink =>
    { wires with aluSrcA := .oldPc, aluSrcB := .four, resultSrc := .aluResult, regWrite := true,
                 aluOp := .arithmetic, next := .jalrJump }
  | .jalrJump =>
    { wires with aluSrcA := .rd1, aluSrcB := .immExt, resultSrc := .aluResult,
                 aluOp := .arithmetic, pcUpdate := true, next := .fetch }
  | .branch =>
    { wires with aluSrcA := .rd1, aluSrcB := .rd2, resultSrc := .aluOutBuf, aluOp := .branch,
                 branch := true, next := .fetch }
  | .lui => { wires with resultSrc := .immExt, regWrite := true, next := .fetch }
  | .auipc =>
    { wires with resultSrc := .aluResult, aluSrcA := .oldPc, aluSrcB := .immExt, aluOp := .auipc,
                 regWrite := true, next := .fetch }

/-- The output `dataMask`. -/
def dataMask (state : ControlUnitState) (op : BitVec 7) (funct3 : BitVec 3) : DataMask :=
  if (state = .memRead ∨ state = .memWb ∨ state = .memWrite) ∧
      (op = Opcode.load.asUInt ∨ op = Opcode.store.asUInt) then
    if funct3 = 0 ∨ funct3 = 4 then .byte
    else if funct3 = 1 ∨ funct3 = 5 then .half
    else .word
  else .word

/-- The output `signExtData`. -/
def signExtData (op : BitVec 7) (funct3 : BitVec 3) : Bool :=
  decide (op = Opcode.load.asUInt ∧ (funct3 = 0 ∨ funct3 = 1))

/-- Whether a branch instruction's condition holds, read off the ALU's
two flags. -/
def branchTaken (funct3 : BitVec 3) (zero lessThan : Bool) : Bool :=
  (funct3 == 0 && zero) || (funct3 == 1 && !zero) ||
    ((funct3 == 4 || funct3 == 6) && lessThan) || ((funct3 == 5 || funct3 == 7) && !lessThan)

/-- The output `pcWrite`. -/
def pcWrite (wires : Fsm) (funct3 : BitVec 3) (zero lessThan : Bool) : Bool :=
  (wires.branch && branchTaken funct3 zero lessThan) || wires.pcUpdate

end ControlUnit

end Perilus

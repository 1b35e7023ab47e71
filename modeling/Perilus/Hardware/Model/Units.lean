import Mathlib.Logic.Function.Basic
import Mathlib.Data.Fin.VecNotation
/-!
# Perilus — the combinational units

`alu.scala`, `extendUnit.scala` and `registerFile.scala`. A Chisel
`UInt(n.W)` is a `BitVec n`, a `Cat` is `++` and a slice `x(hi, lo)` is
`extractLsb hi lo`; a `Mem` is the function from its addresses to its
entries, read combinationally and written at the clock edge.
-/

namespace Perilus

/-- `object AluControl`. -/
inductive AluControl
  | add | sub | sll | slt | sltu | xor | srl | sra | or | and
  deriving DecidableEq, Repr

/-- `object AluSrcA`. -/
inductive AluSrcA
  | pc | oldPc | rd1
  deriving DecidableEq, Repr

/-- `object AluSrcB`. -/
inductive AluSrcB
  | rd2 | immExt | four
  deriving DecidableEq, Repr

/-- `object AluOp`. -/
inductive AluOp
  | memory | branch | arithmetic | auipc
  deriving DecidableEq, Repr

/-- `object ResultSrc`. -/
inductive ResultSrc
  | aluOutBuf | readDataBuf | aluResult | immExt
  deriving DecidableEq, Repr

/-- `object ImmSrc`. -/
inductive ImmSrc
  | iType | sType | bType | jType | uType
  deriving DecidableEq, Repr

/-- A Chisel `Bool` driving a 32-bit wire: bit 0, the rest zero. -/
def boolToWord (b : Bool) : BitVec 32 := (BitVec.ofBool b).setWidth 32

/-! ## The ALU -/

namespace Alu

/-- The output `aluResult`. -/
def aluResult (aluControl : AluControl) (srcA srcB : BitVec 32) : BitVec 32 :=
  let srcBShift := srcB.extractLsb 4 0
  match aluControl with
  | .add => srcA + srcB
  | .sub => srcA - srcB
  | .sll => srcA <<< srcBShift
  | .slt => boolToWord (srcA.slt srcB)
  | .sltu => boolToWord (srcA.ult srcB)
  | .xor => srcA ^^^ srcB
  | .srl => srcA >>> srcBShift
  | .sra => srcA.sshiftRight' srcBShift
  | .or => srcA ||| srcB
  | .and => srcA &&& srcB

/-- The output `lessThan`, driven by the two comparisons only. -/
def lessThan (aluControl : AluControl) (srcA srcB : BitVec 32) : Bool :=
  match aluControl with
  | .slt | .sltu => aluResult aluControl srcA srcB == 1
  | _ => false

/-- The output `zero`. -/
def zero (aluControl : AluControl) (srcA srcB : BitVec 32) : Bool :=
  aluResult aluControl srcA srcB == 0

end Alu

/-! ## The extend unit -/

namespace ExtendUnit

/-- The output `immExt`. The input is `instr(31, 7)`, so instruction bit
`i` is bit `i - 7` here. -/
def immExt (input : BitVec 25) (immSrc : ImmSrc) : BitVec 32 :=
  match immSrc with
  | .iType => BitVec.fill 20 input[24] ++ input.extractLsb 24 13
  | .sType => BitVec.fill 20 input[24] ++ input.extractLsb 24 18 ++ input.extractLsb 4 0
  | .bType =>
    BitVec.fill 20 input[24] ++ input.extractLsb 0 0 ++ input.extractLsb 23 18 ++
      input.extractLsb 4 1 ++ 0#1
  | .jType =>
    BitVec.fill 12 input[24] ++ input.extractLsb 12 5 ++ input.extractLsb 13 13 ++
      input.extractLsb 23 14 ++ 0#1
  | .uType => input.extractLsb 24 5 ++ 0#12

end ExtendUnit

/-! ## The register file -/

/-- `Mem(32, UInt(width))`. -/
abbrev Registers := BitVec 5 → BitVec 32

namespace RegisterFile

/-- A read port, `rd1` at `a1` or `rd2` at `a2`: entry 0 reads as zero
whatever it holds. -/
def rd (registerFile : Registers) (a : BitVec 5) : BitVec 32 :=
  if a = 0 then 0 else registerFile a

/-- The debug port `regData`. -/
def regData (registerFile : Registers) (reg : BitVec 5) : BitVec 32 :=
  registerFile reg

/-- The write port at the clock edge. -/
def clock (registerFile : Registers) (a3 : BitVec 5) (writeData3 : BitVec 32)
    (writeEnable3 reset : Bool) : Registers :=
  if writeEnable3 && a3 != 0 && !reset then Function.update registerFile a3 writeData3
  else registerFile

end RegisterFile

end Perilus

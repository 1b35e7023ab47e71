import Mathlib.Data.Nat.Notation
/-!
# Perilus — the assemblers of the tests

How the tests of the design (`main.scala` under `src/test`) put an
instruction word together. A Scala `Int` is 32 bits, and `>>` shifts its
sign in. No test assembles a `jal`; `assembleJType` is the format the
manual gives, written as the others are.
-/

namespace Perilus

/-- `assembleIType`; the value of `rs1` it is also given plays no part. -/
def assembleIType (funct3 : BitVec 32) (funct7_5 : Bool) (rd rs1 imm op : BitVec 32) :
    BitVec 32 :=
  let immWithFunct7_5Set := if funct7_5 then imm ||| 1 <<< 10 else imm
  let immShifted := (immWithFunct7_5Set &&& 0xfff) <<< 20
  let rs1Shifted := (rs1 &&& 0x1f) <<< 15
  let funct3Shifted := (funct3 &&& 0x7) <<< 12
  let rdShifted := (rd &&& 0x1f) <<< 7
  let opMasked := op &&& 0x7f
  immShifted ||| rs1Shifted ||| funct3Shifted ||| rdShifted ||| opMasked

/-- The word `testSType` runs. -/
def testSType (funct3 rs1 rs2 imm : BitVec 32) : BitVec 32 :=
  let immUpper := (imm &&& 0xfe0) <<< 20
  let rs2Shifted := (rs2 &&& 0x1f) <<< 20
  let rs1Shifted := (rs1 &&& 0x1f) <<< 15
  let funct3Shifted := (funct3 &&& 0x7) <<< 12
  let immLower := (imm &&& 0x1f) <<< 7
  let op := 0x23
  immUpper ||| rs2Shifted ||| rs1Shifted ||| funct3Shifted ||| immLower ||| op

/-- The word `testBType` runs. -/
def testBType (funct3 rs1 rs2 imm : BitVec 32) : BitVec 32 :=
  let immUpper := ((imm &&& 0x1000).sshiftRight 6 ||| (imm &&& 0x7e0).sshiftRight 5) <<< 25
  let rs2Shifted := (rs2 &&& 0x1f) <<< 20
  let rs1Shifted := (rs1 &&& 0x1f) <<< 15
  let funct3Shifted := (funct3 &&& 0x7) <<< 12
  let immLower := (imm &&& 0x1e ||| (imm &&& 0x800).sshiftRight 11) <<< 7
  let op := 0x63
  immUpper ||| rs2Shifted ||| rs1Shifted ||| funct3Shifted ||| immLower ||| op

/-- The word `testUType` runs. -/
def testUType (imm rd op : BitVec 32) : BitVec 32 :=
  let immMasked := imm &&& 0xfffff000
  let rdShifted := (rd &&& 0x1f) <<< 7
  immMasked ||| rdShifted ||| op

/-- The word `testRType` runs. -/
def testRType (funct3 : BitVec 32) (funct7_5 : Bool) (rd rs1 rs2 : BitVec 32) : BitVec 32 :=
  let funct7 := (if funct7_5 then (1 : BitVec 32) <<< 5 else 0) <<< 25
  let rs2Shifted := (rs2 &&& 0x1f) <<< 20
  let rs1Shifted := (rs1 &&& 0x1f) <<< 15
  let funct3Shifted := (funct3 &&& 0x7) <<< 12
  let rdShifted := (rd &&& 0x1f) <<< 7
  let op := 51
  funct7 ||| rs2Shifted ||| rs1Shifted ||| funct3Shifted ||| rdShifted ||| op

/-- A `jal`, for which the tests have no assembler. -/
def assembleJType (rd imm : BitVec 32) : BitVec 32 :=
  let immSign := (imm &&& 0x100000) <<< 11
  let immLow := (imm &&& 0x7fe) <<< 20
  let immBit11 := (imm &&& 0x800) <<< 9
  let immMiddle := imm &&& 0xff000
  let rdShifted := (rd &&& 0x1f) <<< 7
  let op := 0x6f
  immSign ||| immLow ||| immBit11 ||| immMiddle ||| rdShifted ||| op

/-- The `jal x7, 0x1e` of the tests. -/
example : assembleJType 7 0x1e = 0x01e003ef := by decide

end Perilus

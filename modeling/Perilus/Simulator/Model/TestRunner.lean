import Perilus.Common.Text
import Perilus.Simulator.Model.Core
/-!
# Simulator — the test runner

`sim/cli/src/main.rs`: load a program, pulse the clock until an `ebreak`
is about to be executed, and read the verdict off `x1`.
-/

namespace Perilus

/-- `EBREAK_INSTRUCTION`. -/
def ebreakInstruction : BitVec 32 := 0x00100073

/-- `TEST_MAX_CYCLES`. -/
def testMaxCycles : ℕ := 1000000

/-- `TEST_PASS_VALUE`. -/
def testPassValue : BitVec 32 := 0xebbb3689

/-- `TEST_FAIL_VALUE`. -/
def testFailValue : BitVec 32 := 0xd02a545a

/-- Where a run of the `Test` command ends: its result, the clock pulses
it made and the simulator it leaves. -/
structure TestRun where
  result : Except String Unit
  cycles : ℕ
  perilus : Simulator

/-- The verdict a test leaves in `x1`. -/
def testVerdict (result : BitVec 32) : Except String Unit :=
  if result = testPassValue then .ok ()
  else if result = testFailValue then .error "Test failed"
  else .error ("Got unexpected test result 0x" ++ hex08 result)

/-- What the loop looks for after a pulse: at an instruction boundary, a pc
outside memory or an `ebreak` ends the run. -/
def testCheck (p : Simulator) : Option (Except String Unit) :=
  if p.getControlUnitState = 0 then
    let pc := p.getPc
    match p.getMemory (pc / 4).toNat with
    | none =>
      some (.error ("Program counter diverged to an address outside memory: 0x" ++ hex08 pc))
    | some instr =>
      if instr = ebreakInstruction then some (testVerdict (p.getRegisters 1)) else none
  else none

/-- The loop of the `Test` command, `cycles` pulses in. -/
def testLoop (cycles : ℕ) (p : Simulator) : TestRun :=
  let p := p.pulseClock
  let cycles := cycles + 1
  if cycles > testMaxCycles then
    ⟨.error "Test execution hit maximum cycle count limit", cycles, p⟩
  else
    match testCheck p with
    | some result => ⟨result, cycles, p⟩
    | none => testLoop cycles p
termination_by testMaxCycles - cycles

/-- The `Test` command, given what reading the file returned. -/
def testCommand (contents : Except String (List (BitVec 8))) : Option TestRun := do
  let (loaded, p) ← Simulator.init.loadFile contents
  match loaded with
  | .error e => return ⟨.error e, 0, p⟩
  | .ok () => return testLoop 0 p

end Perilus

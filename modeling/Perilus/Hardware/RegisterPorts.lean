import Mathlib.Data.List.Induction
import Perilus.Hardware.Helpers.Cycle
/-!
# Perilus — the ports of the register file

The two read ports return zero at address 0 whatever entry 0 holds, and
the write port leaves that entry alone. The debug port reads the memory
as it is, so it agrees with them as long as entry 0 holds zero, which is
whether it did at the start.
-/

namespace Perilus

namespace RegisterFile

/-- The inputs of one cycle. -/
structure In where
  a1 : BitVec 5
  a2 : BitVec 5
  a3 : BitVec 5
  writeData3 : BitVec 32
  writeEnable3 : Bool
  reset : Bool

/-- What the read ports and the debug port show. -/
structure Out where
  rd1 : BitVec 32
  rd2 : BitVec 32
  regData : BitVec 32
  deriving DecidableEq

/-- The outputs with these addresses at the three ports. -/
def out (registerFile : Registers) (a1 a2 reg : BitVec 5) : Out where
  rd1 := rd registerFile a1
  rd2 := rd registerFile a2
  regData := regData registerFile reg

/-- The register file after these cycles. -/
def run (initRegs : Registers) (cycles : List In) : Registers :=
  cycles.foldl (fun registerFile io =>
    clock registerFile io.a3 io.writeData3 io.writeEnable3 io.reset) initRegs

/-- Whether a cycle writes entry `r`. -/
def In.writes (io : In) (r : BitVec 5) : Bool := io.writeEnable3 && !io.reset && io.a3 == r

/-- The data of the last cycle that wrote entry `r`, or the initial
entry. -/
def lastWritten (initRegs : Registers) (cycles : List In) (r : BitVec 5) : BitVec 32 :=
  ((cycles.reverse.find? fun io => io.writes r).map In.writeData3).getD (initRegs r)

/-- **The architectural register `r`.** -/
def architectural (initRegs : Registers) (cycles : List In) (r : BitVec 5) : BitVec 32 :=
  if r = 0 then 0 else lastWritten initRegs cycles r

/-- **All three ports show it**, at every address. -/
def PortsAgree (initRegs : Registers) (cycles : List In) : Prop :=
  ∀ r, out (run initRegs cycles) r r r =
    { rd1 := architectural initRegs cycles r
      rd2 := architectural initRegs cycles r
      regData := architectural initRegs cycles r }

variable {initRegs : Registers}

theorem run_append (cycles : List In) (io : In) :
    run initRegs (cycles ++ [io]) =
      clock (run initRegs cycles) io.a3 io.writeData3 io.writeEnable3 io.reset :=
  List.foldl_append

/-- No cycle writes entry 0. -/
theorem clock_zero (registerFile : Registers) (io : In) :
    clock registerFile io.a3 io.writeData3 io.writeEnable3 io.reset 0 = registerFile 0 := by
  rw [clock]
  split
  · next hw =>
    have hne : io.a3 ≠ 0 := by
      rintro h
      simp [h] at hw
    exact Function.update_of_ne hne.symm _ _
  · rfl

theorem run_zero (cycles : List In) : run initRegs cycles 0 = initRegs 0 := by
  induction cycles using List.reverseRecOn with
  | nil => rfl
  | append_singleton cycles io ih => rw [run_append, clock_zero, ih]

/-- A cycle writes the entry it says it writes, and no other. -/
theorem clock_of_ne_zero (registerFile : Registers) (io : In) {r : BitVec 5} (hr : r ≠ 0) :
    clock registerFile io.a3 io.writeData3 io.writeEnable3 io.reset r =
      if io.writes r then io.writeData3 else registerFile r := by
  rw [clock, In.writes]
  by_cases ha : io.a3 = r
  · -- the guard against entry 0 does not apply
    subst ha
    have hne : (io.a3 != 0) = true := bne_iff_ne.2 hr
    rw [hne, beq_self_eq_true, Bool.and_true, Bool.and_true]
    split
    · exact Function.update_self _ _ _
    · rfl
  · have hne : (io.a3 == r) = false := beq_false_of_ne ha
    rw [hne, Bool.and_false]
    split
    · exact Function.update_of_ne (Ne.symm ha) _ _
    · rfl

/-- **Any other entry holds what was last written to it.** -/
theorem run_of_ne_zero {r : BitVec 5} (hr : r ≠ 0) (cycles : List In) :
    run initRegs cycles r = lastWritten initRegs cycles r := by
  induction cycles using List.reverseRecOn with
  | nil => rfl
  | append_singleton cycles io ih =>
    rw [run_append, clock_of_ne_zero _ _ hr, ih, lastWritten, lastWritten,
      List.reverse_append, List.reverse_singleton, List.singleton_append, List.find?_cons]
    cases io.writes r <;> rfl

/-- The read ports show the architectural register. -/
theorem rd_run (cycles : List In) (r : BitVec 5) :
    rd (run initRegs cycles) r = architectural initRegs cycles r := by
  rw [rd, architectural]
  split
  · rfl
  · next hr => exact run_of_ne_zero hr cycles

/-- **The three ports agree exactly if entry 0 held zero at the start.** -/
theorem portsAgree_iff (initRegs : Registers) (cycles : List In) :
    PortsAgree initRegs cycles ↔ initRegs 0 = 0 := by
  constructor
  · intro h
    have hdebug : run initRegs cycles 0 = 0 := congrArg Out.regData (h 0)
    rwa [run_zero] at hdebug
  · intro hzero r
    have hdebug : regData (run initRegs cycles) r = architectural initRegs cycles r := by
      rw [regData, architectural]
      split
      · next hr => rw [hr, run_zero, hzero]
      · next hr => exact run_of_ne_zero hr cycles
    rw [out, rd_run, hdebug]

/-- **The debug port shows a nonzero x0**, where the file it was loaded
from has ones in every entry. -/
theorem debug_shows_x0 : ¬ PortsAgree (fun _ => 0xffffffff) [] := by
  intro h
  exact absurd (congrArg Out.regData (h 0)) (by decide)

end RegisterFile

end Perilus

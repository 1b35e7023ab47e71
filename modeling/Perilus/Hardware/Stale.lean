import Perilus.Hardware.Helpers.Progress
/-!
# Perilus — what a fetch forgets

At a fetch the instruction register, `oldPc` and the buffers are dead:
two machines that differ only there are observed alike for good. The
relation carried is equality, but for what a fetch and the `decode` after
it have not yet overwritten.
-/

namespace Perilus

open Clocked

/-- What an observer of the FSM state, pc, register file and memory can
tell apart. -/
structure SameView (s t : State) : Prop where
  state : s.state = t.state
  pc : s.pc = t.pc
  registerFile : s.registerFile = t.registerFile
  memory : s.memory = t.memory

/-- **Two machines that will never be told apart**: alike to a program at
a fetch, with one instruction register and `oldPc` besides in `decode`,
and equal anywhere else. -/
inductive Alike : State → State → Prop
  | fetch {s t : State} : AtFetch s → AtFetch t → s.arch = t.arch → Alike s t
  | decode {s t : State} :
      s.state = .decode → t.state = .decode → s.arch = t.arch → s.instr = t.instr →
        s.oldPc = t.oldPc → Alike s t
  | same (s : State) : Alike s s

namespace Alike

variable {s t : State}

theorem state_eq (h : Alike s t) : s.state = t.state := by
  cases h with
  | fetch hs ht _ => exact Eq.trans hs ht.symm
  | decode hs ht _ _ _ => rw [hs, ht]
  | same => rfl

theorem arch_eq (h : Alike s t) : s.arch = t.arch := by
  cases h with
  | fetch _ _ ha => exact ha
  | decode _ _ ha _ _ => exact ha
  | same => rfl

/-- A reset clears what tells them apart. -/
theorem clock_true (h : Alike s t) : Alike (s.clock true) (t.clock true) := by
  have hrf : s.registerFile = t.registerFile := congrArg Arch.registerFile h.arch_eq
  have hmem : s.memory = t.memory := congrArg Arch.memory h.arch_eq
  rw [State.clock_true s, State.clock_true t, hrf, hmem]
  exact .same _

/-- **A fetch loads the instruction register and `oldPc`.** -/
theorem clock_fetch (hs : AtFetch s) (ht : AtFetch t) (ha : s.arch = t.arch) :
    Alike (s.clock false) (t.clock false) := by
  have hpc : s.pc = t.pc := congrArg Arch.pc ha
  have hrf : s.registerFile = t.registerFile := congrArg Arch.registerFile ha
  have hmem : s.memory = t.memory := congrArg Arch.memory ha
  rw [State.clock_fetch hs, State.clock_fetch ht]
  refine .decode rfl rfl ?_ ?_ hpc
  · exact Arch.ext (by simp only [State.arch_pc, hpc]) hrf hmem
  · simp only [hpc, hmem]

/-- **`decode` loads the rest**, so the two are one machine from here on. -/
theorem clock_decode (hs : s.state = .decode) (ht : t.state = .decode) (ha : s.arch = t.arch)
    (hi : s.instr = t.instr) (ho : s.oldPc = t.oldPc) :
    Alike (s.clock false) (t.clock false) := by
  have hpc : s.pc = t.pc := congrArg Arch.pc ha
  have hrf : s.registerFile = t.registerFile := congrArg Arch.registerFile ha
  have hmem : s.memory = t.memory := congrArg Arch.memory ha
  have hread : s.readData = t.readData := by
    rw [State.readData_decode hs, State.readData_decode ht, hpc, hmem]
  have halu : s.aluResult = t.aluResult := by
    rw [State.aluResult_decode hs, State.aluResult_decode ht, hi, ho]
  have heq : s.clock false = t.clock false := by
    rw [State.clock_decode hs, State.clock_decode ht]
    simp only [State.latch, hread, halu, hpc, hrf, hmem, hi, ho]
  rw [heq]
  exact .same _

theorem clock (reset : Bool) (h : Alike s t) : Alike (s.clock reset) (t.clock reset) := by
  cases reset with
  | true => exact h.clock_true
  | false =>
    cases h with
    | fetch hs ht ha => exact clock_fetch hs ht ha
    | decode hs ht ha hi ho => exact clock_decode hs ht ha hi ho
    | same => exact .same _

end Alike

/-- **No stale value leaks.** Two machines at a fetch that agree on pc,
register file and memory agree on them, and on the FSM state, after any
number of cycles of any common reset schedule. -/
theorem no_stale_leak {s t : State} (hs : AtFetch s) (h : SameView s t) (reset : ℕ → Bool)
    (n : ℕ) : SameView (trace State.clock reset s n) (trace State.clock reset t n) := by
  have ht : AtFetch t := h.state.symm.trans hs
  have halike : Alike (trace State.clock reset s n) (trace State.clock reset t n) :=
    trace_related (fun r _ _ => Alike.clock r)
      (.fetch hs ht (Arch.ext h.pc h.registerFile h.memory)) n
  have ha := halike.arch_eq
  exact ⟨halike.state_eq, congrArg Arch.pc ha, congrArg Arch.registerFile ha,
    congrArg Arch.memory ha⟩

/-- The zeroed design, and one whose buffers are left over from a jump. -/
theorem no_stale_leak_zeroed :
    SameView (trace State.clock (fun n => n == 5) State.zeroed 7)
      (trace State.clock (fun n => n == 5)
        { State.zeroed with
          instr := 0x01e003ef, oldPc := 8, rd1Buf := 1, rd2Buf := 2, aluOutBuf := 3,
          readDataBuf := 4 } 7) :=
  no_stale_leak (s := State.zeroed) rfl ⟨rfl, rfl, rfl, rfl⟩ (fun n => n == 5) 7

end Perilus

import Perilus.Hardware.Helpers.EvenPc
import Perilus.Hardware.Helpers.Progress
/-!
# Perilus — what the buffers hold, cycle by cycle

Every buffer of the datapath is loaded in every cycle, so each means
something in the states that read it and nothing in the others. In those
it holds what the instruction fetched last has it hold, in every run from
a reset, whatever further resets there are.
-/

namespace Perilus

open Clocked

/-- **What the datapath holds in a cycle `s`** of the instruction fetched
in the cycle `u`. -/
structure Buffers (u s : State) : Prop where
  /-- Outside `fetch` and `decode` the FSM state is one of the opcode's. -/
  serves : Serves s.state (opOf s.instr)
  /-- A case of `memAdr`'s switch applies. -/
  memAdr : s.state = .memAdr →
    ControlUnit.memAdrNext (opOf s.instr) = .memRead ∨
      ControlUnit.memAdrNext (opOf s.instr) = .memWrite
  instr : s.state ≠ .fetch → s.instr = fetched u.memory u.pc
  oldPc : s.state ≠ .fetch → s.oldPc = u.pc
  rd1Buf : s.state ∈ [ControlUnitState.memAdr, .executeR, .executeI, .branch, .jalrJump] →
    s.rd1Buf = RegisterFile.rd u.registerFile (rs1Of s.instr)
  rd2Buf : s.state ∈ [ControlUnitState.executeR, .branch, .memWrite] →
    s.rd2Buf = RegisterFile.rd u.registerFile (rs2Of s.instr)
  /-- The target of a jump or a branch. -/
  target : s.state ∈ [ControlUnitState.jal, .branch] → s.aluOutBuf = s.oldPc + immOf s.instr
  /-- The address of a load or a store. -/
  address : s.state ∈ [ControlUnitState.memRead, .memWrite] →
    s.aluOutBuf = RegisterFile.rd u.registerFile (rs1Of s.instr) + immOf s.instr
  /-- The pc is the next word's, but after the jump of a `jal`. -/
  pc : s.state ≠ .fetch → (s.state = .aluWb → opOf s.instr ≠ Opcode.jal.asUInt) →
    s.pc = s.oldPc + 4

/-! ## One instruction -/

namespace InFlight

variable {a : Arch} {s : State}

theorem serves_instr (h : InFlight a s) : Serves s.state (opOf s.instr) := by
  by_cases hst : s.state = .fetch
  · rw [hst]
    trivial
  · rw [h.opOf_instr hst]
    exact h.serves

theorem rd1Buf (h : InFlight a s)
    (hst : s.state ∈ [ControlUnitState.memAdr, .executeR, .executeI, .branch, .jalrJump]) :
    s.rd1Buf = a.rd1 := by
  simp only [List.mem_cons, List.not_mem_nil, or_false] at hst
  rcases hst with hst | hst | hst | hst | hst
  · exact Decoded.rd1Buf (h.buffered_at hst)
  · exact Decoded.rd1Buf (h.buffered_at hst)
  · exact Decoded.rd1Buf (h.buffered_at hst)
  · exact Decoded.rd1Buf (h.buffered_at hst)
  · -- loaded again as the link was written, from the file as it was before
    exact h.buffered_at hst

theorem rd2Buf (h : InFlight a s)
    (hst : s.state ∈ [ControlUnitState.executeR, .branch, .memWrite]) : s.rd2Buf = a.rd2 := by
  simp only [List.mem_cons, List.not_mem_nil, or_false] at hst
  rcases hst with hst | hst | hst
  · exact Decoded.rd2Buf (h.buffered_at hst)
  · exact Decoded.rd2Buf (h.buffered_at hst)
  · exact And.right (h.buffered_at hst)

theorem aluOutBuf_target (h : InFlight a s) (hst : s.state ∈ [ControlUnitState.jal, .branch]) :
    s.aluOutBuf = a.pc + a.imm := by
  simp only [List.mem_cons, List.not_mem_nil, or_false] at hst
  rcases hst with hst | hst
  · exact Decoded.aluOutBuf (h.buffered_at hst)
  · exact Decoded.aluOutBuf (h.buffered_at hst)

theorem aluOutBuf_address (h : InFlight a s)
    (hst : s.state ∈ [ControlUnitState.memRead, .memWrite]) : s.aluOutBuf = a.address := by
  simp only [List.mem_cons, List.not_mem_nil, or_false] at hst
  rcases hst with hst | hst
  · exact h.buffered_at hst
  · exact And.left (h.buffered_at hst)

theorem pc_eq (h : InFlight a s) (hst : s.state ≠ .fetch)
    (ho : s.state = .aluWb → a.op ≠ Opcode.jal.asUInt) : s.pc = a.nextPc :=
  (congrArg Arch.pc h.visible).trans (Arch.during_pc hst ho)

/-- **A cycle of an instruction fetched at an even pc.** -/
theorem buffers {u s : State} (h : InFlight u.arch s) (hu : EvenWord u.pc) : Buffers u s where
  serves := h.serves_instr
  memAdr hst := by
    rw [h.opOf_instr (by rw [hst]; decide)]
    rcases h.serves_at hst with ho | ho
    · left
      rw [ho]
      rfl
    · right
      rw [ho]
      rfl
  instr := h.instr
  oldPc := h.oldPc
  rd1Buf hst := by
    rw [h.instr (ne_of_mem_of_not_mem hst (by decide))]
    exact h.rd1Buf hst
  rd2Buf hst := by
    rw [h.instr (ne_of_mem_of_not_mem hst (by decide))]
    exact h.rd2Buf hst
  target hst := by
    have hne : s.state ≠ .fetch := ne_of_mem_of_not_mem hst (by decide)
    rw [h.instr hne, h.oldPc hne]
    exact h.aluOutBuf_target hst
  address hst := by
    rw [h.instr (ne_of_mem_of_not_mem hst (by decide))]
    exact h.aluOutBuf_address hst
  pc hne ho := by
    rw [h.opOf_instr hne] at ho
    rw [h.pc_eq hne ho, h.oldPc hne]
    exact hu.add_four.and_not_one_eq

end InFlight

/-! ## Every run -/

/-- The pc stays even under any resets. -/
theorem State.evenInv_trace (s₀ : State) (reset : ℕ → Bool) (t : ℕ) :
    (trace State.clock reset (s₀.clock true) t).EvenInv := by
  induction t with
  | zero => exact evenInv_clock_true s₀
  | succ t ih =>
    rw [trace_succ]
    exact ih.clock (reset t)

/-- **The buffers hold what the instruction in flight has them hold**, in
every cycle after a reset, for any program and any schedule of resets. The
cycle `f` is the latest fetch. -/
theorem buffers_right (s₀ : State) (reset : ℕ → Bool) (t : ℕ) :
    let σ := trace State.clock reset (s₀.clock true)
    ∃ f ≤ t, AtFetch (σ f) ∧ (∀ i, f < i → i ≤ t → ¬ AtFetch (σ i)) ∧ Buffers (σ f) (σ t) := by
  intro σ
  obtain ⟨f, hft, hfetch, hno, -, hfl⟩ := exists_inFlight s₀ reset t
  exact ⟨f, hft, hfetch, hno, hfl.buffers (State.evenInv_trace s₀ reset f).pc⟩

/-- `lw x1, 8(x0)` on its way, three cycles after its fetch. -/
example :
    let σ := trace State.clock (fun _ => false)
      (State.clock true { State.zeroed with memory := fun _ => VecInit 0x83 0x20 0x80 0x00 })
    (σ 3).state = .memRead ∧ (σ 3).instr = 0x00802083 ∧ (σ 3).oldPc = 0 ∧ (σ 3).pc = 4 ∧
      (σ 3).aluOutBuf = 8 := by
  decide

end Perilus

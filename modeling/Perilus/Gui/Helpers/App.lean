import Perilus.Gui.Model.Command
import Perilus.Simulator.Helpers.Core
/-!
# Debugger — what each command does to the machine

The commands act on the design and on the application's copy of the pc;
most of them on neither. A command of the clock is a number of pulses
and at most one look at the pc at the end.
-/

namespace Perilus

/-- The pulses of a `RunToPc` frame. -/
def pulsesToPc (target : BitVec 32) : ℕ → ℕ → Simulator → ℕ
  | budget, runCycles, p =>
    if p.getControlUnitState = 0 ∧ p.getPc = target then 0
    else if runCycles + 1 ≥ maxRunCycles then 1
    else
      match budget with
      | 0 => 1
      | budget + 1 => pulsesToPc target budget (runCycles + 1) p.pulseClock + 1

/-- The clock pulses `logic` makes. -/
def SimApp.framePulses (app : SimApp) (budget : ℕ) : ℕ :=
  match app.runState with
  | .idle => 0
  | .freeRun => budget
  | .runToPc target => pulsesToPc target budget app.runCycles app.perilus

namespace SimApp

variable (app : SimApp)

/-! ## The clock -/

@[simp] theorem syncPc_perilus : app.syncPc.perilus = app.perilus := by
  rw [syncPc]
  split <;> rfl

theorem syncPc_currentPc :
    app.syncPc.currentPc =
      if AtFetch app.perilus.rtl then app.perilus.rtl.pc else app.currentPc := by
  rw [syncPc, apply_ite SimApp.currentPc]
  exact if_congr app.perilus.getControlUnitState_eq_zero rfl rfl

/-- **The loop of `next_instruction`** pulses the clock up to the first
boundary it meets, if its states do not run out before. -/
theorem finishInstruction_spec (states : ℕ) (p : Simulator) :
    ∃ k ≤ states, finishInstruction states p = Simulator.pulseClock^[k] p ∧
      (∀ i < k, ¬ AtFetch (Simulator.pulseClock^[i] p).rtl) ∧
      (k = states ∨ AtFetch (Simulator.pulseClock^[k] p).rtl) := by
  induction states generalizing p with
  | zero => exact ⟨0, le_rfl, rfl, fun i hi => absurd hi (Nat.not_lt_zero i), .inl rfl⟩
  | succ states ih =>
    rw [finishInstruction]
    split
    · next h =>
      exact ⟨0, Nat.zero_le _, rfl, fun i hi => absurd hi (Nat.not_lt_zero i),
        .inr (p.getControlUnitState_eq_zero.1 h)⟩
    · next h =>
      obtain ⟨k, hk, heq, hbefore, hend⟩ := ih p.pulseClock
      refine ⟨k + 1, by omega, heq, ?_, hend.imp_left (by omega)⟩
      rintro (- | i) hi
      · exact mt p.getControlUnitState_eq_zero.2 h
      · exact hbefore i (by omega)

theorem nextInstruction_perilus :
    app.nextInstruction.perilus =
      finishInstruction (maxStatesPerInstruction - 1) app.perilus.pulseClock := by
  rw [nextInstruction]
  split <;> exact syncPc_perilus _

/-- **`next_instruction`, in clock cycles.** -/
theorem nextInstruction_spec (hr : app.perilus.reset = false) :
    ∃ k, 0 < k ∧ k ≤ maxStatesPerInstruction ∧
      app.nextInstruction.perilus.rtl = (State.clock false)^[k] app.perilus.rtl ∧
      (∀ i, 0 < i → i < k → ¬ AtFetch ((State.clock false)^[i] app.perilus.rtl)) ∧
      (k = maxStatesPerInstruction ∨ AtFetch ((State.clock false)^[k] app.perilus.rtl)) := by
  obtain ⟨k, hk, heq, hbefore, hend⟩ :=
    finishInstruction_spec (maxStatesPerInstruction - 1) app.perilus.pulseClock
  have hrtl : ∀ i, (Simulator.pulseClock^[i] app.perilus.pulseClock).rtl =
      (State.clock false)^[i + 1] app.perilus.rtl := fun i =>
    (app.perilus.iterate_pulseClock hr (i + 1)).1
  rw [maxStatesPerInstruction] at *
  refine ⟨k + 1, Nat.succ_pos k, by omega, ?_, ?_, ?_⟩
  · rw [nextInstruction_perilus, maxStatesPerInstruction, heq, hrtl]
  · rintro (- | i) hi hlt
    · exact absurd hi (Nat.lt_irrefl 0)
    · rw [← hrtl]
      exact hbefore i (by omega)
  · rw [← hrtl]
    exact hend.imp_left (by omega)

/-! ## Frames -/

theorem runToPcLoop_spec (target : BitVec 32) (budget : ℕ) :
    (runToPcLoop target budget app).perilus =
        Simulator.pulseClock^[pulsesToPc target budget app.runCycles app.perilus] app.perilus ∧
      (runToPcLoop target budget app).currentPc = app.currentPc := by
  induction budget generalizing app with
  | zero =>
    rw [runToPcLoop, pulsesToPc]
    split
    · exact ⟨rfl, rfl⟩
    · dsimp only
      split <;> exact ⟨rfl, rfl⟩
  | succ budget ih =>
    rw [runToPcLoop, pulsesToPc]
    split
    · exact ⟨rfl, rfl⟩
    · -- the limit ends the loop, or the budget carries it on
      dsimp only
      split
      · exact ⟨rfl, rfl⟩
      · exact ih _

/-- **A frame is its pulses** -/
theorem logic_perilus (budget : ℕ) :
    (app.logic budget).perilus = Simulator.pulseClock^[app.framePulses budget] app.perilus := by
  rw [logic, framePulses]
  rcases app.runState with - | - | target <;> dsimp only
  · rfl
  · exact syncPc_perilus _
  · rw [syncPc_perilus]
    exact (runToPcLoop_spec app target budget).1

theorem logic_idle {app : SimApp} (h : app.runState = .idle) (budget : ℕ) :
    app.logic budget = app := by
  rw [logic, h]

/-- **and one look at the pc**, unless it is idle. -/
theorem logic_currentPc {app : SimApp} (h : app.runState ≠ .idle) (budget : ℕ) :
    (app.logic budget).currentPc =
      if AtFetch (app.logic budget).perilus.rtl then (app.logic budget).perilus.rtl.pc
      else app.currentPc := by
  rw [logic]
  rcases hrun : app.runState with - | - | target <;> dsimp only
  · exact absurd hrun h
  · rw [syncPc_perilus]
    exact syncPc_currentPc _
  · rw [syncPc_perilus, syncPc_currentPc, (runToPcLoop_spec app target budget).2]

end SimApp

end Perilus

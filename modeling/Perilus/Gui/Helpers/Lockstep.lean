import Perilus.Gui.Helpers.Positions
import Perilus.Gui.RunToPc
import Perilus.Hardware.Lockstep
/-!
# Debugger — its machine in lockstep with the reference

A command of the clock is a number of cycles of both, whichever loop
counts them; a write between two words is the same write to both.
-/

namespace Perilus

open Clocked Dialect Digits ByteMemory

/-! ## Cycles -/

/-- **Any number of cycles.** -/
theorem Lockstep.ticks {s : State} {t : Timed memoryBytes} (h : Lockstep s t) (hc : t.Clockable)
    (n : ℕ) :
    Lockstep ((State.clock false)^[n] s) (Timed.tick^[n] t) ∧ (Timed.tick^[n] t).Clockable := by
  induction n with
  | zero => exact ⟨h, hc⟩
  | succ n ih =>
    rw [Function.iterate_succ_apply', Function.iterate_succ_apply']
    exact ih.1.tick ih.2

section Finish

variable {s : State} {t : Timed memoryBytes} {m : Rv32i.State memoryBytes}

/-- Short of its last cycle a word is in flight. -/
theorem ticks_of_lt (hstep : Dialect.step t.machine = some m) {n : ℕ}
    (hn : t.phase + n < Dialect.cycles t.machine.fetch) :
    Timed.tick^[n] t = { t with phase := t.phase + n } := by
  induction n with
  | zero => rfl
  | succ n ih =>
    rw [Function.iterate_succ_apply', ih (by omega), Timed.tick]
    dsimp only
    rw [hstep]
    dsimp only
    rw [if_pos (by omega)]
    rfl

/-- And with it the word has taken effect. -/
theorem ticks_last (hstep : Dialect.step t.machine = some m)
    (hlt : t.phase < Dialect.cycles t.machine.fetch) :
    Timed.tick^[Dialect.cycles t.machine.fetch - t.phase] t = ⟨m, 0⟩ := by
  obtain ⟨n, hn⟩ : ∃ n, Dialect.cycles t.machine.fetch = t.phase + (n + 1) :=
    ⟨Dialect.cycles t.machine.fetch - t.phase - 1, by omega⟩
  rw [hn, Nat.add_sub_cancel_left, Function.iterate_succ_apply',
    ticks_of_lt hstep (by omega), Timed.tick]
  dsimp only
  rw [hstep]
  dsimp only
  rw [if_neg (by omega)]

theorem Dialect.cycles_le (w : ℕ) : Dialect.cycles w ≤ 5 := by
  unfold Dialect.cycles
  split <;> decide

/-- A word is left in time. -/
theorem Lockstep.phase_lt (h : Lockstep s t) (hc : t.Clockable)
    (hstep : Dialect.step t.machine = some m) : t.phase < Dialect.cycles t.machine.fetch := by
  obtain ⟨f, hf⟩ := h
  have heven := hf.even_of_clockable hc
  rw [← hf.isa] at hstep
  have hnext := (dialect_boundary ⟨hf.fetch, heven⟩ hstep).1
  rw [hf.isa] at hnext
  by_contra hge
  exact hf.inside _ hnext.pos (Nat.not_lt.1 hge) hnext.here

/-- **Up to the first fetch, or for `n` cycles**, is to the end of the
word. -/
theorem Lockstep.finish_eq (h : Lockstep s t) (hc : t.Clockable) {k n : ℕ} (hk : 0 < k)
    (hn : 5 ≤ n) (hbefore : ∀ i, 0 < i → i < k → ¬ AtFetch ((State.clock false)^[i] s))
    (hend : k = n ∨ AtFetch ((State.clock false)^[k] s)) :
    Timed.tick^[k] t = t.finish n := by
  rw [Timed.finish]
  rcases hstep : Dialect.step t.machine with - | m <;> dsimp only
  · -- it never comes back
    have hstuck : ∀ i, Timed.tick^[i] t = { t with phase := t.phase + i } := by
      intro i
      induction i with
      | zero => rfl
      | succ i ih =>
        rw [Function.iterate_succ_apply', ih, Timed.tick]
        dsimp only
        rw [hstep]
        rfl
    have hno : ¬ AtFetch ((State.clock false)^[k] s) := by
      rw [(h.ticks hc k).1.atFetch_iff, hstuck]
      exact Nat.ne_of_gt (Nat.add_pos_right _ hk)
    rw [hend.resolve_right hno]
  · have hlt := h.phase_lt hc hstep
    have hfive := Dialect.cycles_le t.machine.fetch
    have hlast := ticks_last hstep hlt
    have hk' : k = Dialect.cycles t.machine.fetch - t.phase := by
      rcases Nat.lt_trichotomy k (Dialect.cycles t.machine.fetch - t.phase) with hlt' | heq | hgt
      · have hfetch := hend.resolve_left (by omega)
        rw [(h.ticks hc k).1.atFetch_iff, ticks_of_lt hstep (by omega)] at hfetch
        dsimp only at hfetch
        omega
      · exact heq
      · refine absurd ?_ (hbefore _ (by omega) hgt)
        rw [(h.ticks hc _).1.atFetch_iff, hlast]
    rw [hk', hlast]

end Finish

/-! ## The loop that runs to a pc -/

/-- **The search for the goal.** -/
theorem Dialect.Timed.cyclesTo_eq {t : Timed memoryBytes} {target limit n : ℕ} (hle : n ≤ limit)
    (hbefore : ∀ i < n, ¬ (Timed.tick^[i] t).AtTarget target)
    (hhere : n < limit → (Timed.tick^[n] t).AtTarget target) : t.cyclesTo target limit = n := by
  rw [Timed.cyclesTo]
  rcases Nat.eq_or_lt_of_le hle with rfl | hlt
  · have hnone : (List.range n).find? (fun i => (Timed.tick^[i] t).AtTarget target) = none := by
      rw [List.find?_eq_none]
      intro i hi
      simpa using hbefore i (List.mem_range.1 hi)
    rw [hnone]
    rfl
  · have hsome : (List.range limit).find? (fun i => (Timed.tick^[i] t).AtTarget target) =
        some n := by
      rw [List.find?_range_eq_some]
      refine ⟨by simpa using hhere hlt, List.mem_range.2 hlt, ?_⟩
      intro i hi
      simpa using hbefore i hi
    rw [hsome]
    rfl

/-- The most pulses of a frame that runs to a pc. -/
def frameLimit (budget runCycles : ℕ) : ℕ := min (budget + 1) (max 1 (maxRunCycles - runCycles))

/-- **What the loop of a frame does**, in `n` pulses of `limit`. -/
structure LoopRan (app : SimApp) (target : BitVec 32) (limit n : ℕ) (app' : SimApp) : Prop where
  le : n ≤ limit
  before : ∀ i < n, ¬ Simulator.AtTarget target (Simulator.pulseClock^[i] app.perilus)
  here : n < limit → Simulator.AtTarget target (Simulator.pulseClock^[n] app.perilus)
  perilus : app'.perilus = Simulator.pulseClock^[n] app.perilus
  currentPc : app'.currentPc = app.currentPc
  runCycles : app'.runCycles = app.runCycles + n
  runState : app'.runState =
    if n < limit ∨ maxRunCycles ≤ app.runCycles + n then .idle else app.runState
  panes : app'.panes = app.panes

namespace LoopRan

variable {app app' : SimApp} {target : BitVec 32} {limit n : ℕ}

/-- The goal test succeeds. -/
theorem goal (hat : Simulator.AtTarget target app.perilus) (hlimit : 0 < limit) :
    LoopRan app target limit 0
      { app with status := "Reached PC 0x" ++ hex08 target, runState := .idle } where
  le := Nat.zero_le limit
  before i hi := absurd hi (Nat.not_lt_zero i)
  here _ := hat
  perilus := rfl
  currentPc := rfl
  runCycles := rfl
  runState := by rw [if_pos (.inl hlimit)]
  panes := rfl

/-- The first pulse is the last. -/
theorem last (hat : ¬ Simulator.AtTarget target app.perilus) (status : String)
    (runState : RunState)
    (hstate : runState = if maxRunCycles ≤ app.runCycles + 1 then .idle else app.runState) :
    LoopRan app target 1 1
      { app with
        perilus := app.perilus.pulseClock, runCycles := app.runCycles + 1, status, runState } where
  le := le_rfl
  before i hi := by
    obtain rfl : i = 0 := by omega
    exact hat
  here hlt := absurd hlt (Nat.lt_irrefl 1)
  perilus := rfl
  currentPc := rfl
  runCycles := rfl
  runState := by
    rw [hstate]
    exact if_congr (by omega) rfl rfl
  panes := rfl

/-- One pulse, and the rest of the loop. -/
theorem succ (hat : ¬ Simulator.AtTarget target app.perilus)
    (h : LoopRan { app with perilus := app.perilus.pulseClock, runCycles := app.runCycles + 1 }
      target limit n app') : LoopRan app target (limit + 1) (n + 1) app' where
  le := Nat.succ_le_succ h.le
  before i hi := by
    rcases i with - | i
    · exact hat
    · exact h.before i (by omega)
  here hlt := h.here (by omega)
  perilus := h.perilus
  currentPc := h.currentPc
  runCycles := by rw [h.runCycles, Nat.add_assoc, Nat.add_comm 1]
  runState := by
    rw [h.runState]
    refine if_congr ?_ rfl rfl
    dsimp only
    omega
  panes := h.panes

end LoopRan

theorem runToPcLoop_ran (target : BitVec 32) (budget : ℕ) (app : SimApp) :
    ∃ n, LoopRan app target (frameLimit budget app.runCycles) n
      (SimApp.runToPcLoop target budget app) := by
  induction budget generalizing app with
  | zero =>
    have hone : frameLimit 0 app.runCycles = 1 := by
      rw [frameLimit]
      omega
    rw [SimApp.runToPcLoop, hone]
    split
    · next hat => exact ⟨0, .goal hat Nat.one_pos⟩
    · next hat =>
      dsimp only
      split
      · next hmax => exact ⟨1, .last hat _ _ (by rw [if_pos hmax])⟩
      · next hmax => exact ⟨1, .last hat _ _ (by rw [if_neg hmax])⟩
  | succ budget ih =>
    rw [SimApp.runToPcLoop]
    split
    · next hat =>
      refine ⟨0, .goal hat ?_⟩
      rw [frameLimit]
      omega
    · next hat =>
      dsimp only
      split
      · next hmax =>
        have hone : frameLimit (budget + 1) app.runCycles = 1 := by
          rw [frameLimit]
          omega
        rw [hone]
        exact ⟨1, .last hat _ _ (by rw [if_pos hmax])⟩
      · next hmax =>
        have hsucc : frameLimit (budget + 1) app.runCycles =
            frameLimit budget (app.runCycles + 1) + 1 := by
          rw [frameLimit, frameLimit]
          omega
        obtain ⟨n, hn⟩ := ih { app with
          perilus := app.perilus.pulseClock, runCycles := app.runCycles + 1 }
        rw [hsucc]
        exact ⟨n + 1, hn.succ hat⟩

/-! ## The machine under the application -/

/-- **The application runs the reference**: its design is in step with it,
and at the start of a word its copy of the pc is current. -/
structure RunsAs (app : SimApp) (t : Timed memoryBytes) : Prop where
  reset : app.perilus.reset = false
  lockstep : Lockstep app.perilus.rtl t
  currentPc : t.phase = 0 → app.currentPc = app.perilus.rtl.pc

namespace RunsAs

variable {app app' : SimApp} {t : Timed memoryBytes}

theorem congr (h : RunsAs app t) (hp : app'.perilus = app.perilus)
    (hpc : app'.currentPc = app.currentPc) : RunsAs app' t := by
  refine ⟨?_, ?_, ?_⟩
  · rw [hp]
    exact h.reset
  · rw [hp]
    exact h.lockstep
  · rw [hp, hpc]
    exact h.currentPc

theorem syncPc (h : RunsAs app t) : RunsAs app.syncPc t := by
  refine ⟨?_, ?_, ?_⟩
  · rw [SimApp.syncPc_perilus]
    exact h.reset
  · rw [SimApp.syncPc_perilus]
    exact h.lockstep
  · intro h0
    rw [SimApp.syncPc_currentPc, SimApp.syncPc_perilus, if_pos (h.lockstep.atFetch_iff.2 h0)]

/-- **Pulses, and a look at the pc.** -/
theorem ticks (h : RunsAs app t) (hc : t.Clockable) {n : ℕ}
    (hp : app'.perilus = Simulator.pulseClock^[n] app.perilus)
    (hpc : app'.currentPc =
      if AtFetch app'.perilus.rtl then app'.perilus.rtl.pc else app.currentPc) :
    RunsAs app' (Timed.tick^[n] t) := by
  obtain ⟨hrtl, hreset⟩ := app.perilus.iterate_pulseClock h.reset n
  have hin : Lockstep app'.perilus.rtl (Timed.tick^[n] t) := by
    rw [hp, hrtl]
    exact (h.lockstep.ticks hc n).1
  refine ⟨by rw [hp, hreset], hin, ?_⟩
  intro h0
  rw [hpc, if_pos (hin.atFetch_iff.2 h0)]

/-- The goal of a run is one. -/
theorem atTarget_iff (h : RunsAs app t) (hc : t.Clockable) (target : BitVec 32) (i : ℕ) :
    Simulator.AtTarget target (Simulator.pulseClock^[i] app.perilus) ↔
      (Timed.tick^[i] t).AtTarget target.toNat := by
  have hin := (h.lockstep.ticks hc i).1
  rw [Simulator.AtTarget, Simulator.getControlUnitState_eq_zero, Simulator.getPc,
    (app.perilus.iterate_pulseClock h.reset i).1, Timed.AtTarget]
  constructor
  · rintro ⟨hfetch, hpc⟩
    have h0 := hin.atFetch_iff.1 hfetch
    refine ⟨h0, ?_⟩
    rw [← hin.isa h0]
    exact congrArg BitVec.toNat hpc
  · rintro ⟨h0, hpc⟩
    rw [← hin.isa h0] at hpc
    exact ⟨hin.atFetch_iff.2 h0, BitVec.eq_of_toNat_eq hpc⟩

/-! ## Writes between two words -/

/-- **A write.** -/
theorem write {f : Rv32i.State memoryBytes → Rv32i.State memoryBytes} (h : RunsAs app t)
    (h0 : t.phase = 0) (hreset : app'.perilus.reset = app.perilus.reset)
    (hstate : app'.perilus.rtl.state = app.perilus.rtl.state)
    (hisa : app'.perilus.rtl.arch.isa = f app.perilus.rtl.arch.isa)
    (hpc : app'.currentPc = app'.perilus.rtl.pc) : RunsAs app' ⟨f t.machine, 0⟩ := by
  have hfetch : AtFetch app'.perilus.rtl := by
    rw [AtFetch, hstate]
    exact h.lockstep.atFetch_iff.2 h0
  have hin := Lockstep.of_fetch hfetch
  rw [hisa, h.lockstep.isa h0] at hin
  exact ⟨hreset.trans h.reset, hin, fun _ => hpc⟩

theorem writeMemory (h : RunsAs app t) (h0 : t.phase = 0) (memory : Words memoryBits) :
    RunsAs { app with perilus := app.perilus.withMemory memory }
      ⟨{ t.machine with mem := Memory.flat memory }, 0⟩ :=
  h.write (f := fun s => { s with mem := Memory.flat memory }) h0 rfl rfl rfl (h.currentPc h0)

theorem writePc (h : RunsAs app t) (h0 : t.phase = 0) (value : BitVec 32) :
    RunsAs { app with perilus := app.perilus.setPc value, currentPc := value }
      ⟨{ t.machine with pc := value.toNat }, 0⟩ :=
  h.write (f := fun s => { s with pc := value.toNat }) h0 rfl rfl rfl rfl

theorem writeRegister (h : RunsAs app t) (h0 : t.phase = 0) (register : Fin 32)
    (value : BitVec 32) :
    RunsAs { app with perilus := app.perilus.setRegister register value }
      ⟨{ t.machine with x := Function.update t.machine.x register value.toNat }, 0⟩ := by
  refine h.write (f := fun s => { s with x := Function.update s.x register value.toNat }) h0 rfl rfl
    (Rv32i.State.ext rfl ?_ rfl) (h.currentPc h0)
  funext r
  have hne : BitVec.ofNat 5 (r : ℕ) = BitVec.ofNat 5 (register : ℕ) ↔ r = register := by
    rw [← BitVec.toNat_inj, BitVec.toNat_ofNat, BitVec.toNat_ofNat, Nat.mod_eq_of_lt r.isLt,
      Nat.mod_eq_of_lt register.isLt, Fin.ext_iff]
  change (Function.update app.perilus.rtl.registerFile (BitVec.ofNat 5 register) value
    (BitVec.ofNat 5 r)).toNat =
      Function.update app.perilus.rtl.arch.isa.x register value.toNat r
  by_cases hr : r = register
  · rw [hr, Function.update_self, Function.update_self]
  · rw [Function.update_of_ne (mt hne.1 hr), Function.update_of_ne hr]
    rfl

end RunsAs

end Perilus

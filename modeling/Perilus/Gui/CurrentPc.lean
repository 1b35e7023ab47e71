import Perilus.Common.Reachable
import Perilus.Gui.Helpers.App
import Perilus.Simulator.Helpers.Load
/-!
# Debugger — the PC cell and the current instruction

`current_pc` is a copy that `sync_pc` refreshes at a fetch and leaves
alone elsewhere. It stays right as long as the machine cannot move on to
another instruction between two looks; a frame that pulses through a
fetch and stops short of the next one is where it can.
-/

namespace Perilus

open Transition

/-- The address of the current instruction: the pc at a fetch, `oldPc`
while an instruction is in flight. -/
def State.instrPc (s : State) : BitVec 32 := if AtFetch s then s.pc else s.oldPc

/-- **The PC cell names the current instruction.** -/
def PcCellRight (app : SimApp) : Prop := app.currentPc = app.perilus.rtl.instrPc

/-- The operations that do not edit the pc. -/
def Command.KeepsPc : Command → Prop
  | .stepCycle | .nextInstruction | .reset | .loadPath _ _ | .runToPc _ | .toggleFreeRun | .stop
  | .frame _ => True
  | _ => False

/-- `i` is the last fetch from the first of `n` pulses on. -/
def LastFetch (s : State) (n i : ℕ) : Prop :=
  0 < i ∧ i ≤ n ∧ AtFetch ((State.clock false)^[i] s) ∧
    ∀ j, i < j → j ≤ n → ¬ AtFetch ((State.clock false)^[j] s)

/-- **A frame that does not lose the instruction**: it ends at a fetch, or
the instruction in flight at its end is the one in flight at its start,
or was fetched at the address the cell showed. -/
def SimApp.FrameInStep (app : SimApp) (budget : ℕ) : Prop :=
  AtFetch ((State.clock false)^[app.framePulses budget] app.perilus.rtl) ∨
    ∀ i, LastFetch app.perilus.rtl (app.framePulses budget) i →
      ((State.clock false)^[i] app.perilus.rtl).pc = app.currentPc

/-- A step that keeps the cell right. -/
def InStep (app : SimApp) (c : Command) : Prop :=
  c.KeepsPc ∧ ∀ budget, c = .frame budget → app.FrameInStep budget

/-! ## The instruction at hand -/

namespace State

variable {s : State}

theorem instrPc_of_fetch (h : AtFetch s) : s.instrPc = s.pc := if_pos h

theorem instrPc_of_not_fetch (h : ¬ AtFetch s) : s.instrPc = s.oldPc := if_neg h

/-- A fetch saves its address, and nothing else writes `oldPc`. -/
theorem oldPc_clock (s : State) : (s.clock false).oldPc = s.instrPc := by
  change (if s.wires.irWrite then s.pc else s.oldPc) = _
  have hir : s.wires.irWrite ↔ AtFetch s := by
    rw [wires, AtFetch]
    cases s.state <;> simp [ControlUnit.fsm, ControlUnit.fsmDefault]
  exact if_congr hir rfl rfl

/-- The instruction at hand is the same until the next fetch. -/
theorem instrPc_iterate {m n : ℕ} (hmn : m ≤ n)
    (h : ∀ j, m < j → j ≤ n → ¬ AtFetch ((clock false)^[j] s)) :
    ((clock false)^[n] s).instrPc = ((clock false)^[m] s).instrPc := by
  induction n, hmn using Nat.le_induction with
  | base => rfl
  | succ n hmn ih =>
    rw [instrPc_of_not_fetch (h (n + 1) (by omega) le_rfl), Function.iterate_succ_apply',
      oldPc_clock]
    exact ih fun j hj hjn => h j hj (by omega)

/-- Either the pulses meet no fetch or one of those they meet is the last. -/
theorem lastFetch_or (s : State) (n : ℕ) :
    (∀ j, 0 < j → j ≤ n → ¬ AtFetch ((clock false)^[j] s)) ∨ ∃ i, LastFetch s n i := by
  induction n with
  | zero => exact .inl fun j hj hjn => absurd hj (by omega)
  | succ n ih =>
    by_cases hat : AtFetch ((clock false)^[n + 1] s)
    · exact .inr ⟨n + 1, Nat.succ_pos n, le_rfl, hat, fun j hj hjn => absurd hj (by omega)⟩
    · rcases ih with hnone | ⟨i, hpos, hin, hi, hlast⟩
      · left
        intro j hj hjn
        rcases Nat.eq_or_lt_of_le hjn with rfl | hlt
        · exact hat
        · exact hnone j hj (by omega)
      · refine .inr ⟨i, hpos, by omega, hi, ?_⟩
        intro j hj hjn
        rcases Nat.eq_or_lt_of_le hjn with rfl | hlt
        · exact hat
        · exact hlast j hj (by omega)

end State

/-! ## Frames -/

/-- **A frame keeps the cell right exactly if it does not lose the
instruction.** -/
theorem pcCellRight_logic {app : SimApp} {budget : ℕ} (hr : app.perilus.reset = false)
    (h : PcCellRight app) : PcCellRight (app.logic budget) ↔ app.FrameInStep budget := by
  have hrtl : (app.logic budget).perilus.rtl =
      (State.clock false)^[app.framePulses budget] app.perilus.rtl := by
    rw [SimApp.logic_perilus]
    exact (app.perilus.iterate_pulseClock hr _).1
  have hcell : (app.logic budget).currentPc =
      if AtFetch (app.logic budget).perilus.rtl then (app.logic budget).perilus.rtl.pc
      else app.currentPc := by
    by_cases hidle : app.runState = .idle
    · rw [SimApp.logic_idle hidle]
      split
      · next hat => exact h.trans (State.instrPc_of_fetch hat)
      · rfl
    · exact SimApp.logic_currentPc hidle budget
  rw [PcCellRight, hcell, hrtl, SimApp.FrameInStep]
  by_cases hat : AtFetch ((State.clock false)^[app.framePulses budget] app.perilus.rtl)
  · rw [if_pos hat, State.instrPc_of_fetch hat]
    exact ⟨fun _ => .inl hat, fun _ => rfl⟩
  · -- cut inside an instruction, which the last fetch tells
    rw [if_neg hat, or_iff_right hat]
    rcases State.lastFetch_or app.perilus.rtl (app.framePulses budget) with hnone | ⟨i, hi⟩
    · rw [State.instrPc_iterate (Nat.zero_le _) hnone]
      exact ⟨fun _ i hi => absurd hi.2.2.1 (hnone i hi.1 hi.2.1), fun _ => h⟩
    · rw [State.instrPc_iterate hi.2.1 hi.2.2.2, State.instrPc_of_fetch hi.2.2.1]
      refine ⟨?_, fun hall => (hall i hi).symm⟩
      intro heq j hj
      -- the last fetch is the only one
      rcases Nat.lt_trichotomy i j with hlt | rfl | hlt
      · exact absurd hj.2.2.1 (hi.2.2.2 j hlt hj.2.1)
      · exact heq.symm
      · exact absurd hi.2.2.1 (hj.2.2.2 i hlt hi.2.1)

/-! ## Commands -/

section Commands

variable {app app' : SimApp}

/-- Looking at the pc after cycles that stay in the instruction or end at
a fetch. -/
theorem PcCellRight.syncPc (h : PcCellRight app) (app' : SimApp)
    (hpc : app'.currentPc = app.currentPc)
    (hinstr : ¬ AtFetch app'.perilus.rtl →
      app'.perilus.rtl.instrPc = app.perilus.rtl.instrPc) : PcCellRight app'.syncPc := by
  rw [PcCellRight, SimApp.syncPc_currentPc, SimApp.syncPc_perilus]
  by_cases hat : AtFetch app'.perilus.rtl
  · rw [if_pos hat, State.instrPc_of_fetch hat]
  · rw [if_neg hat, hinstr hat, hpc]
    exact h

theorem pcCellRight_stepCycle (hr : app.perilus.reset = false) (h : PcCellRight app) :
    PcCellRight app.stepCycle := by
  refine h.syncPc { app with perilus := app.perilus.pulseClock } rfl ?_
  intro hat
  change ¬ AtFetch app.perilus.pulseClock.rtl at hat
  change app.perilus.pulseClock.rtl.instrPc = _
  rw [State.instrPc_of_not_fetch hat, Simulator.pulseClock_rtl, hr, State.oldPc_clock]

theorem nextInstruction_currentPc :
    app.nextInstruction.currentPc =
      if AtFetch app.nextInstruction.perilus.rtl then app.nextInstruction.perilus.rtl.pc
      else app.currentPc := by
  rw [SimApp.nextInstruction_perilus, SimApp.nextInstruction]
  split <;> exact SimApp.syncPc_currentPc _

theorem pcCellRight_nextInstruction (hr : app.perilus.reset = false) (h : PcCellRight app) :
    PcCellRight app.nextInstruction := by
  obtain ⟨k, hpos, -, hrtl, hbefore, -⟩ := app.nextInstruction_spec hr
  rw [PcCellRight, nextInstruction_currentPc]
  by_cases hat : AtFetch app.nextInstruction.perilus.rtl
  · rw [if_pos hat, State.instrPc_of_fetch hat]
  · rw [if_neg hat, h, hrtl]
    have hno : ∀ j, 0 < j → j ≤ k → ¬ AtFetch ((State.clock false)^[j] app.perilus.rtl) := by
      intro j hj hjk
      rcases Nat.eq_or_lt_of_le hjk with rfl | hlt
      · rwa [← hrtl]
      · exact hbefore j hj hlt
    exact (State.instrPc_iterate (Nat.zero_le k) hno).symm

theorem nextInstruction_reset (hr : app.perilus.reset = false) :
    app.nextInstruction.perilus.reset = false := by
  obtain ⟨k, -, heq, -⟩ := SimApp.finishInstruction_spec (SimApp.maxStatesPerInstruction - 1)
    app.perilus.pulseClock
  rw [SimApp.nextInstruction_perilus, heq]
  exact (app.perilus.pulseClock.iterate_pulseClock hr k).2

/-- A reset ends at a fetch. -/
theorem pcCellRight_reset (h : PcCellRight app) : PcCellRight app.reset :=
  h.syncPc { app with perilus := app.perilus.resetPulse, runState := .idle } rfl
    fun hat => absurd (by rw [AtFetch, Simulator.resetPulse_rtl]; rfl) hat

/-- Loading a file moves neither the pc nor the control unit. -/
theorem pcCellRight_loadPath {path : String} {contents : Except String (List (BitVec 8))}
    (hr : app.perilus.reset = false) (h : PcCellRight app)
    (hs : app.loadPath path contents = some app') :
    app'.perilus.reset = false ∧ PcCellRight app' := by
  obtain ⟨⟨result, p⟩, hload, happ⟩ := Option.bind_eq_some_iff.1 hs
  obtain ⟨memory, rfl⟩ := Simulator.loadFile_eq_withMemory hload
  obtain rfl := Option.some.inj happ
  refine ⟨?_, h.syncPc _ rfl fun _ => rfl⟩
  rw [SimApp.syncPc_perilus]
  exact hr

/-- **One step.** -/
theorem pcCellRight_exec {c : Command} (hr : app.perilus.reset = false) (h : PcCellRight app)
    (hc : c.KeepsPc) (hs : app.exec c = some app') :
    app'.perilus.reset = false ∧ (PcCellRight app' ↔ InStep app c) := by
  -- every command but a frame is in step
  have hstay : app'.perilus.reset = false ∧ PcCellRight app' →
      (∀ budget, c ≠ .frame budget) →
      app'.perilus.reset = false ∧ (PcCellRight app' ↔ InStep app c) := fun ⟨hr', h'⟩ hne =>
    ⟨hr', fun _ => ⟨hc, fun budget hb => absurd hb (hne budget)⟩, fun _ => h'⟩
  cases c with
  | stepCycle =>
    cases hs
    refine hstay ⟨?_, pcCellRight_stepCycle hr h⟩ nofun
    exact (congrArg Simulator.reset (SimApp.syncPc_perilus _)).trans hr
  | nextInstruction =>
    cases hs
    exact hstay ⟨nextInstruction_reset hr, pcCellRight_nextInstruction hr h⟩ nofun
  | reset =>
    cases hs
    refine hstay ⟨?_, pcCellRight_reset h⟩ nofun
    exact congrArg Simulator.reset (SimApp.syncPc_perilus _)
  | loadPath path contents => exact hstay (pcCellRight_loadPath hr h hs) nofun
  | runToPc target => cases hs; exact hstay ⟨hr, h⟩ nofun
  | toggleFreeRun => cases hs; exact hstay ⟨hr, h⟩ nofun
  | stop => cases hs; exact hstay ⟨hr, h⟩ nofun
  | frame budget =>
    cases hs
    have hr' : (app.logic budget).perilus.reset = false := by
      rw [SimApp.logic_perilus]
      exact (app.perilus.iterate_pulseClock hr _).2
    have hiff : app.FrameInStep budget ↔ InStep app (.frame budget) := by
      constructor
      · intro hf
        refine ⟨hc, ?_⟩
        intro b hb
        cases hb
        exact hf
      · intro hi
        exact hi.2 budget rfl
    exact ⟨hr', (pcCellRight_logic hr h).trans hiff⟩
  | _ => exact absurd hc (by simp [Command.KeepsPc])

end Commands

/-! ## Runs -/

/-- **The PC cell names the current instruction in every run whose frames
stay in step**, and the first frame that does not makes it wrong. -/
theorem pcCellRight_of_inStep {app : SimApp} (h : Reachable SimApp.exec InStep SimApp.new app) :
    PcCellRight app ∧ ∀ c app', c.KeepsPc → app.exec c = some app' →
      (PcCellRight app' ↔ InStep app c) := by
  have hinv : app.perilus.reset = false ∧ PcCellRight app := by
    refine h.invariant (P := fun app => app.perilus.reset = false ∧ PcCellRight app) ⟨rfl, rfl⟩
      fun ⟨hr, hright⟩ hok hs => ?_
    obtain ⟨hr', hiff⟩ := pcCellRight_exec hr hright hok.1 hs
    exact ⟨hr', hiff.2 hok⟩
  exact ⟨hinv.2, fun c app' hc hs => (pcCellRight_exec hinv.1 hinv.2 hc hs).2⟩

/-- `addi x1, x0, 5` loaded and run freely, in a frame that ends at the
next fetch. -/
theorem pcCellRight_frame :
    ∃ app, run SimApp.exec [.loadPath "addi.bin" (.ok [0x93, 0x00, 0x50, 0x00]), .toggleFreeRun]
        SimApp.new = some app ∧
      PcCellRight (app.logic 4) ∧ (app.logic 4).currentPc = 4 := by
  let cs : List Command :=
    [.loadPath "addi.bin" (.ok [0x93, 0x00, 0x50, 0x00]), .toggleFreeRun]
  have hrun : (run SimApp.exec cs SimApp.new).map (fun app =>
      (((State.clock false)^[app.framePulses 4] app.perilus.rtl).state,
        (app.logic 4).currentPc)) = some (.fetch, 4) := by decide
  obtain ⟨app, happ, hobserved⟩ := Option.map_eq_some_iff.1 hrun
  obtain ⟨hfetch, hcell⟩ := Prod.mk.inj hobserved
  have hreach : Reachable SimApp.exec InStep SimApp.new app :=
    .run_of_forall (by simp [cs, InStep, Command.KeepsPc]) .init happ
  have hframe : InStep app (.frame 4) := by
    refine ⟨trivial, ?_⟩
    intro budget hbudget
    obtain rfl := Command.frame.inj hbudget
    exact .inl hfetch
  exact ⟨app, happ, (pcCellRight_of_inStep (.next (.frame 4) hreach hframe rfl)).1, hcell⟩

/-- **A frame that loses the instruction.** The program is one `ecall`,
over zeroed memory; three pulses of free running end in `decode` of the
word at 4, and the cell shows 0. -/
theorem pcCell_stale :
    ∃ app, Reachable SimApp.exec (fun _ c => c.KeepsPc) SimApp.new app ∧ ¬ PcCellRight app := by
  let cs : List Command :=
    [.loadPath "ecall.bin" (.ok [0x73, 0x00, 0x00, 0x00]), .toggleFreeRun, .frame 3]
  have hrun : (run SimApp.exec cs SimApp.new).map
      (fun app => (app.currentPc, app.perilus.rtl.instrPc)) = some (0, 4) := by decide
  obtain ⟨app, hreach, happ⟩ := Reachable.of_observed (fun _ c => c.KeepsPc)
    (by simp [cs, Command.KeepsPc]) hrun
  obtain ⟨hshown, haddr⟩ := Prod.mk.inj happ
  refine ⟨app, hreach, ?_⟩
  rw [PcCellRight, hshown, haddr]
  decide

end Perilus

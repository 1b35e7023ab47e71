import Perilus.Common.Clocked
import Perilus.Gui.Helpers.App
import Perilus.Hardware.Helpers.Integers
import Perilus.Hardware.Helpers.Progress
import Perilus.Simulator.Helpers.Load
/-!
# Debugger — running to a pc

`run_to_pc` starts a run that `logic` carries on in frames, each cut when
its time is up. The loop tests the goal, pulses, and tests the limit, so
a run ends after the pulses to its target whatever the frames; but after
the last pulse it allows itself it does not look at the goal again.
-/

namespace Perilus

open Clocked

/-- The goal of the run: in fetch, at the target. -/
def Simulator.AtTarget (target : BitVec 32) (p : Simulator) : Prop :=
  p.getControlUnitState = 0 ∧ p.getPc = target

/-- The status of a run that met its target. -/
def reachedStatus (target : BitVec 32) : String := "Reached PC 0x" ++ hex08 target

/-- The status of one that gave up. -/
def notReachedStatus (target : BitVec 32) : String :=
  "Stopped: did not reach PC 0x" ++ hex08 target ++ " after " ++ toString maxRunCycles ++ " cycles"

namespace SimApp

variable (app : SimApp) (target : BitVec 32) (budgets : ℕ → ℕ)

/-- The application after so many frames of a run to a pc, frame `i` with
time for `budgets i` pulses after its first. -/
def frames (n : ℕ) : SimApp :=
  trace (fun budget app => app.logic budget) budgets (app.runToPc target) n

/-- **The run goes idle after exactly `c` pulses**, with a status, and
stays so. -/
def EndsAfter (c : ℕ) (status : String) : Prop :=
  ∃ n, (∀ i < n, (app.frames target budgets i).runState = .runToPc target) ∧
    ∀ i, n ≤ i → (app.frames target budgets i).runState = .idle ∧
      (app.frames target budgets i).perilus = Simulator.pulseClock^[c] app.perilus ∧
      (app.frames target budgets i).status = status

/-- **The run is exact**: it ends where it first meets the target, if that
is within the limit, and at the limit otherwise. -/
structure RunExact : Prop where
  reached : ∀ c ≤ maxRunCycles,
    FirstAt Simulator.pulseClock (Simulator.AtTarget target) app.perilus c →
      app.EndsAfter target budgets c (reachedStatus target)
  notReached :
    (∀ c ≤ maxRunCycles, ¬ Simulator.AtTarget target (Simulator.pulseClock^[c] app.perilus)) →
      app.EndsAfter target budgets maxRunCycles (notReachedStatus target)

end SimApp

/-! ## One frame -/

/-- A run that has made `k` pulses from `p` and goes on. -/
structure Running (target : BitVec 32) (p : Simulator) (k : ℕ) (app : SimApp) : Prop where
  runState : app.runState = .runToPc target
  perilus : app.perilus = Simulator.pulseClock^[k] p
  runCycles : app.runCycles = k
  lt : k < maxRunCycles
  before : ∀ i < k, ¬ Simulator.AtTarget target (Simulator.pulseClock^[i] p)

/-- How a run from `p` can end, and after how many pulses. -/
inductive Outcome (target : BitVec 32) (p : Simulator) : ℕ → String → Prop
  | reached {c : ℕ} (hlt : c < maxRunCycles)
      (h : FirstAt Simulator.pulseClock (Simulator.AtTarget target) p c) :
      Outcome target p c (reachedStatus target)
  | notReached
      (h : ∀ i < maxRunCycles, ¬ Simulator.AtTarget target (Simulator.pulseClock^[i] p)) :
      Outcome target p maxRunCycles (notReachedStatus target)

/-- A run that has ended. -/
structure Ended (target : BitVec 32) (p : Simulator) (c : ℕ) (status : String) (app : SimApp) :
    Prop where
  outcome : Outcome target p c status
  runState : app.runState = .idle
  perilus : app.perilus = Simulator.pulseClock^[c] p
  status : app.status = status

section Frame

variable {target : BitVec 32} {p : Simulator} {k : ℕ} {app : SimApp}

theorem Running.start (app : SimApp) : Running target app.perilus 0 (app.runToPc target) where
  runState := rfl
  perilus := rfl
  runCycles := rfl
  lt := by decide
  before i hi := absurd hi (Nat.not_lt_zero i)

theorem Running.syncPc (h : Running target p k app) : Running target p k app.syncPc := by
  rw [SimApp.syncPc]
  split
  · exact ⟨h.runState, h.perilus, h.runCycles, h.lt, h.before⟩
  · exact h

theorem Ended.syncPc {c : ℕ} {status : String} (h : Ended target p c status app) :
    Ended target p c status app.syncPc := by
  rw [SimApp.syncPc]
  split
  · exact ⟨h.outcome, h.runState, h.perilus, h.status⟩
  · exact h

/-- The goal test succeeds. -/
theorem Running.goal (h : Running target p k app)
    (hat : app.perilus.getControlUnitState = 0 ∧ app.perilus.getPc = target) :
    Ended target p k (reachedStatus target)
      { app with status := reachedStatus target, runState := .idle } := by
  rw [h.perilus] at hat
  exact ⟨.reached h.lt ⟨hat, h.before⟩, rfl, h.perilus, rfl⟩

/-- It fails, so the target is further away. -/
theorem Running.before_succ (h : Running target p k app)
    (hat : ¬ (app.perilus.getControlUnitState = 0 ∧ app.perilus.getPc = target)) :
    ∀ i < k + 1, ¬ Simulator.AtTarget target (Simulator.pulseClock^[i] p) := by
  intro i hi
  rcases Nat.eq_or_lt_of_le (Nat.le_of_lt_succ hi) with rfl | hlt
  · rw [← h.perilus]
    exact hat
  · exact h.before i hlt

theorem Running.pulseClock (h : Running target p k app) :
    app.perilus.pulseClock = Simulator.pulseClock^[k + 1] p := by
  rw [h.perilus, Function.iterate_succ_apply']

/-- The pulse after it is the last one, and the goal is not tested again. -/
theorem Running.limit (h : Running target p k app)
    (hat : ¬ (app.perilus.getControlUnitState = 0 ∧ app.perilus.getPc = target))
    (hlimit : app.runCycles + 1 ≥ maxRunCycles) :
    Ended target p maxRunCycles (notReachedStatus target)
      { app with
        perilus := app.perilus.pulseClock, runCycles := app.runCycles + 1
        status := notReachedStatus target, runState := .idle } := by
  rw [h.runCycles] at hlimit
  have hk : k + 1 = maxRunCycles := Nat.le_antisymm h.lt hlimit
  have hbefore := h.before_succ hat
  have hpulse := h.pulseClock
  rw [hk] at hbefore hpulse
  exact ⟨.notReached hbefore, rfl, hpulse, rfl⟩

/-- Or the run goes on. -/
theorem Running.next (h : Running target p k app)
    (hat : ¬ (app.perilus.getControlUnitState = 0 ∧ app.perilus.getPc = target))
    (hlimit : ¬ app.runCycles + 1 ≥ maxRunCycles) :
    Running target p (k + 1)
      { app with perilus := app.perilus.pulseClock, runCycles := app.runCycles + 1 } := by
  rw [h.runCycles] at hlimit
  exact ⟨h.runState, h.pulseClock, congrArg (· + 1) h.runCycles, Nat.lt_of_not_le hlimit,
    h.before_succ hat⟩

/-- **The loop of a frame** carries the run on or ends it. -/
theorem Running.runToPcLoop (h : Running target p k app) (budget : ℕ) :
    (∃ k', k < k' ∧ Running target p k' (SimApp.runToPcLoop target budget app)) ∨
      ∃ c status, Ended target p c status (SimApp.runToPcLoop target budget app) := by
  induction budget generalizing app k with
  | zero =>
    rw [SimApp.runToPcLoop]
    split
    · next hat => exact .inr ⟨k, _, h.goal hat⟩
    · next hat =>
      dsimp only
      split
      · next hlimit => exact .inr ⟨_, _, h.limit hat hlimit⟩
      · next hlimit => exact .inl ⟨k + 1, Nat.lt_succ_self k, h.next hat hlimit⟩
  | succ budget ih =>
    rw [SimApp.runToPcLoop]
    split
    · next hat => exact .inr ⟨k, _, h.goal hat⟩
    · next hat =>
      dsimp only
      split
      · next hlimit => exact .inr ⟨_, _, h.limit hat hlimit⟩
      · next hlimit =>
        rcases ih (h.next hat hlimit) with ⟨k', hk', hrunning⟩ | hended
        · exact .inl ⟨k', by omega, hrunning⟩
        · exact .inr hended

/-- **A frame of the run.** -/
theorem Running.logic (h : Running target p k app) (budget : ℕ) :
    (∃ k', k < k' ∧ Running target p k' (app.logic budget)) ∨
      ∃ c status, Ended target p c status (app.logic budget) := by
  have hlogic : app.logic budget = (SimApp.runToPcLoop target budget app).syncPc := by
    rw [SimApp.logic, h.runState]
  rw [hlogic]
  rcases h.runToPcLoop budget with ⟨k', hk', hrunning⟩ | ⟨c, status, hended⟩
  · exact .inl ⟨k', hk', hrunning.syncPc⟩
  · exact .inr ⟨c, status, hended.syncPc⟩

end Frame

/-! ## The run -/

section Run

variable {app : SimApp} {target : BitVec 32} {budgets : ℕ → ℕ}

/-- The frames up to one, and the pulses made by then. -/
theorem SimApp.frames_running_or_ended (app : SimApp) (target : BitVec 32) (budgets : ℕ → ℕ)
    (n : ℕ) :
    (∃ k, n ≤ k ∧ Running target app.perilus k (app.frames target budgets n)) ∨
      ∃ c status, Ended target app.perilus c status (app.frames target budgets n) := by
  induction n with
  | zero => exact .inl ⟨0, le_rfl, .start app⟩
  | succ n ih =>
    have hframe : app.frames target budgets (n + 1) =
      (app.frames target budgets n).logic (budgets n) := rfl
    rcases ih with ⟨k, hk, hrunning⟩ | ⟨c, status, hended⟩
    · rw [hframe]
      rcases hrunning.logic (budgets n) with ⟨k', hk', hrunning'⟩ | hended
      · exact .inl ⟨k', by omega, hrunning'⟩
      · exact .inr hended
    · refine .inr ⟨c, status, ?_⟩
      rw [hframe, SimApp.logic_idle hended.runState]
      exact hended

/-- An idle application stays as it is. -/
theorem SimApp.frames_idle {n : ℕ} (h : (app.frames target budgets n).runState = .idle) {i : ℕ}
    (hi : n ≤ i) : app.frames target budgets i = app.frames target budgets n := by
  induction i, hi using Nat.le_induction with
  | base => rfl
  | succ i hi ih =>
    have hframe : app.frames target budgets (i + 1) =
      (app.frames target budgets i).logic (budgets i) := rfl
    rw [hframe, ih, SimApp.logic_idle h]

/-- **Every run ends**, the way one of the outcomes says. -/
theorem SimApp.exists_endsAfter (app : SimApp) (target : BitVec 32) (budgets : ℕ → ℕ) :
    ∃ c status, Outcome target app.perilus c status ∧
      app.EndsAfter target budgets c status := by
  classical
  -- every frame of a run makes a pulse
  have hex : ∃ n c status, Ended target app.perilus c status (app.frames target budgets n) := by
    refine ⟨maxRunCycles, ?_⟩
    rcases app.frames_running_or_ended target budgets maxRunCycles with ⟨k, hk, hrunning⟩ | hended
    · exact absurd hrunning.lt (Nat.not_lt_of_le hk)
    · exact hended
  obtain ⟨c, status, hended⟩ := Nat.find_spec hex
  refine ⟨c, status, hended.outcome, Nat.find hex, ?_, ?_⟩
  · intro i hi
    rcases app.frames_running_or_ended target budgets i with ⟨k, -, hrunning⟩ | hended'
    · exact hrunning.runState
    · -- and not before the first frame that ends it
      exact absurd hended' (Nat.find_min hex hi)
  · intro i hi
    rw [SimApp.frames_idle hended.runState hi]
    exact ⟨hended.runState, hended.perilus, hended.status⟩

/-- A run ends in one way. -/
theorem SimApp.EndsAfter.status_eq {c c' : ℕ} {status status' : String}
    (h : app.EndsAfter target budgets c status) (h' : app.EndsAfter target budgets c' status') :
    status = status' := by
  obtain ⟨n, -, hn⟩ := h
  obtain ⟨n', -, hn'⟩ := h'
  -- compare them at a frame after both ends
  obtain ⟨-, -, hstatus⟩ := hn (max n n') (le_max_left _ _)
  obtain ⟨-, -, hstatus'⟩ := hn' (max n n') (le_max_right _ _)
  exact hstatus.symm.trans hstatus'

theorem reached_ne_stopped (s t u : String) :
    "Reached PC 0x" ++ s ≠ "Stopped: did not reach PC 0x" ++ t ++ " after " ++ u ++ " cycles" := by
  intro h
  have hfirst := congrArg (fun s : String => s.toList.head?) h
  simp at hfirst

theorem reachedStatus_ne : reachedStatus target ≠ notReachedStatus target :=
  reached_ne_stopped _ _ _

/-- A target first met after the last pulse is reported as not met. -/
theorem not_runExact_of_firstAt
    (h : FirstAt Simulator.pulseClock (Simulator.AtTarget target) app.perilus maxRunCycles) :
    ¬ app.RunExact target budgets := by
  intro hexact
  obtain ⟨c, status, houtcome, hends⟩ := app.exists_endsAfter target budgets
  have hstatus := (hexact.reached maxRunCycles le_rfl h).status_eq hends
  cases houtcome with
  | reached hlt hfirst =>
    obtain rfl := hfirst.unique h
    exact Nat.lt_irrefl _ hlt
  | notReached _ => exact reachedStatus_ne hstatus

/-- **A run to a pc is exact unless it first meets its target after the
last pulse it allows itself**, however its frames are cut. -/
theorem runExact_iff :
    app.RunExact target budgets ↔
      ¬ FirstAt Simulator.pulseClock (Simulator.AtTarget target) app.perilus maxRunCycles := by
  refine ⟨fun hexact h => not_runExact_of_firstAt h hexact, ?_⟩
  intro hlast
  obtain ⟨c, status, houtcome, hends⟩ := app.exists_endsAfter target budgets
  constructor
  · intro c' hc' hfirst
    cases houtcome with
    | reached hlt hfirst' =>
      obtain rfl := hfirst.unique hfirst'
      exact hends
    | notReached hno =>
      rcases Nat.eq_or_lt_of_le hc' with rfl | hlt
      · exact absurd hfirst hlast
      · exact absurd hfirst.here (hno c' hlt)
  · intro hno
    cases houtcome with
    | reached hlt hfirst => exact absurd hfirst.here (hno c hlt.le)
    | notReached _ => exact hends

end Run

/-! ## A target at the limit -/

/-- An image of `ecall`s, 4 MiB of them. -/
def ecalls : List (BitVec 8) :=
  (List.range Simulator.memorySizeBytes).map fun i => if i % 4 = 0 then 0x73 else 0

theorem fetched_ecalls (pc : BitVec 32) : fetched (imageMemory ecalls) pc = 0x73 := by
  have hbyte : ∀ (idx : BitVec memoryBits) (i : Fin 4),
      imageMemory ecalls idx i = if i = 0 then 0x73 else 0 := by
    intro idx i
    have hlt : 4 * idx.toNat + i < Simulator.memorySizeBytes := by
      have hidx : idx.toNat < Simulator.memorySizeWords := idx.isLt
      have hi := i.isLt
      rw [Simulator.memorySizeBytes]
      omega
    rw [imageMemory, ecalls, List.getD_eq_getElem?_getD, List.getElem?_map,
      List.getElem?_range hlt]
    fin_cases i <;> simp
  simp only [fetched, Memory.readData, hbyte]
  rfl

/-- **Two cycles an `ecall`.** -/
theorem ecalls_run {s : State} (hs : AtFetch s) (hpc : s.pc = 0)
    (hm : s.memory = imageMemory ecalls) (n : ℕ) :
    AtFetch ((State.clock false)^[2 * n] s) ∧
      ((State.clock false)^[2 * n] s).pc = BitVec.ofNat 32 (4 * n) ∧
      ((State.clock false)^[2 * n] s).memory = imageMemory ecalls := by
  induction n with
  | zero => exact ⟨hs, hpc, hm⟩
  | succ n ih =>
    obtain ⟨hat, hpc', hm'⟩ := ih
    have hop : ((State.clock false)^[2 * n] s).arch.op = Opcode.env.asUInt := by
      rw [Arch.op, Arch.word, State.arch_memory, hm', fetched_ecalls]
      rfl
    have hiter : (State.clock false)^[2 * (n + 1)] s =
        (State.clock false)^[Opcode.env.latency] ((State.clock false)^[2 * n] s) := by
      rw [← Function.iterate_add_apply, Opcode.latency, Nat.mul_succ, Nat.add_comm]
    have harch := arch_latency hat hop
    rw [Arch.exec_env (.inl hop), ← hiter] at harch
    have hnext := atFetch_latency hat hop
    rw [← hiter] at hnext
    refine ⟨hnext, ?_, (congrArg Arch.memory harch).trans hm'⟩
    have hpc'' : ((State.clock false)^[2 * (n + 1)] s).pc =
        (BitVec.ofNat 32 (4 * n) + 4) &&& ~~~1 := by
      rw [← hpc']
      exact congrArg Arch.pc harch
    rw [hpc'']
    apply BitVec.eq_of_toNat_eq
    rw [toNat_and_not_one, BitVec.toNat_add, BitVec.toNat_ofNat, BitVec.toNat_ofNat,
      show BitVec.toNat (4 : BitVec 32) = 4 from rfl]
    omega

/-- The `n`-th of them is met after `2n` pulses, and not before. -/
theorem firstAt_ecalls {p : Simulator} (hr : p.reset = false) (hrtl : p.rtl = State.boot ecalls)
    {n : ℕ} (hn : 4 * n < 2 ^ 32) :
    FirstAt Simulator.pulseClock (Simulator.AtTarget (BitVec.ofNat 32 (4 * n))) p (2 * n) := by
  have hs : AtFetch p.rtl := by rw [hrtl]; rfl
  have hpc : p.rtl.pc = 0 := by rw [hrtl]; rfl
  have hm : p.rtl.memory = imageMemory ecalls := by rw [hrtl, State.boot]
  have hiff : ∀ i, Simulator.AtTarget (BitVec.ofNat 32 (4 * n)) (Simulator.pulseClock^[i] p) ↔
      AtFetch ((State.clock false)^[i] p.rtl) ∧
        ((State.clock false)^[i] p.rtl).pc = BitVec.ofNat 32 (4 * n) := by
    intro i
    rw [Simulator.AtTarget, Simulator.getControlUnitState_eq_zero, Simulator.getPc,
      (p.iterate_pulseClock hr i).1, AtFetch]
  constructor
  · obtain ⟨hat, hpc', -⟩ := ecalls_run hs hpc hm n
    exact (hiff _).2 ⟨hat, hpc'⟩
  · intro i hi hat
    obtain ⟨hfetch, htarget⟩ := (hiff i).1 hat
    obtain ⟨hat', hpc', hm'⟩ := ecalls_run hs hpc hm (i / 2)
    rcases Nat.mod_two_eq_zero_or_one i with heven | hodd
    · -- a boundary, of an earlier one
      rw [show i = 2 * (i / 2) by omega, hpc'] at htarget
      have hnat := congrArg BitVec.toNat htarget
      rw [BitVec.toNat_ofNat, BitVec.toNat_ofNat] at hnat
      omega
    · -- in `decode`
      rw [show i = 2 * (i / 2) + 1 by omega, Function.iterate_succ_apply', AtFetch,
        State.clock_fetch hat'] at hfetch
      cases hfetch

/-- A new application with an image loaded. -/
theorem SimApp.new_loadPath (path : String) {image : List (BitVec 8)}
    (h : image.length ≤ Simulator.memorySizeBytes) :
    ∃ app, SimApp.new.loadPath path (.ok image) = some app ∧ app.perilus.reset = false ∧
      app.perilus.rtl = State.boot image := by
  have hload : SimApp.new.perilus.loadFile (.ok image) =
      some (.ok (), Simulator.init.withMemory (imageMemory image)) := Simulator.init_loadBytes h
  rw [SimApp.loadPath, hload]
  refine ⟨_, rfl, ?_, ?_⟩
  · rw [SimApp.syncPc_perilus]
    rfl
  · rw [SimApp.syncPc_perilus]
    rfl

/-- **A run that reaches its target and says it did not.** The 25,000,000th
of the `ecall`s, which the pc meets after exactly 50,000,000 pulses. -/
theorem runToPc_missed :
    ∃ app, SimApp.new.loadPath "ecalls.bin" (.ok ecalls) = some app ∧
      ∀ budgets, ¬ app.RunExact 0x05f5e100 budgets := by
  have hlength : ecalls.length ≤ Simulator.memorySizeBytes := by
    rw [ecalls, List.length_map, List.length_range]
  obtain ⟨app, happ, hr, hrtl⟩ := SimApp.new_loadPath "ecalls.bin" hlength
  refine ⟨app, happ, ?_⟩
  intro budgets
  have hn : 4 * 25000000 < 2 ^ 32 := by decide
  have hfirst := firstAt_ecalls hr hrtl hn
  have hmax : 2 * 25000000 = maxRunCycles := by decide
  rw [hmax] at hfirst
  exact not_runExact_of_firstAt hfirst

end Perilus

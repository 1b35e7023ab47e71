import Perilus.Gui.Helpers.Machine
import Perilus.Hardware.Helpers.NextFetch
/-!
# Debugger — setting the pc

`set_pc_to_cursor` writes the pc in whatever FSM state the control unit
is in. What the instruction in flight does to registers and memory is
the same without it; whether the next fetch is at the cursor depends on
whether that instruction has a pc write of its own ahead (`pcAhead`).
-/

namespace Perilus

open Clocked Transition

/-- The control unit is at a fetch. -/
def Simulator.Fetching (p : Simulator) : Prop := AtFetch p.rtl

/-- **Setting the pc takes effect `n` pulses on**: with it and without it
the next fetch is there, with it the fetch reads the word under the
cursor, and up to there registers and memory are the same. -/
structure SetPcAt (app : SimApp) (n : ℕ) : Prop where
  unset : FirstAt Simulator.pulseClock Simulator.Fetching app.perilus n
  set : FirstAt Simulator.pulseClock Simulator.Fetching app.setPcToCursor.perilus n
  fetches : Memory.index memoryBits (Simulator.pulseClock^[n] app.setPcToCursor.perilus).getPc =
    Memory.index memoryBits app.cursorWord
  registerFile : ∀ i ≤ n, (Simulator.pulseClock^[i] app.setPcToCursor.perilus).rtl.registerFile =
    (Simulator.pulseClock^[i] app.perilus).rtl.registerFile
  memory : ∀ i ≤ n, (Simulator.pulseClock^[i] app.setPcToCursor.perilus).rtl.memory =
    (Simulator.pulseClock^[i] app.perilus).rtl.memory

def SetPcTakesEffect (app : SimApp) : Prop := ∃ n, SetPcAt app n

/-- The first fetch, in clock cycles. -/
theorem Simulator.firstAt_fetching {p : Simulator} (hr : p.reset = false) {n : ℕ} :
    FirstAt pulseClock Fetching p n ↔ FirstAt (State.clock false) AtFetch p.rtl n := by
  have hiff : ∀ i, Fetching (pulseClock^[i] p) ↔ AtFetch ((State.clock false)^[i] p.rtl) := by
    intro i
    rw [Fetching, (p.iterate_pulseClock hr i).1]
  constructor
  · intro h
    exact ⟨(hiff n).1 h.here, fun i hi => mt (hiff i).2 (h.before i hi)⟩
  · intro h
    exact ⟨(hiff n).2 h.here, fun i hi => mt (hiff i).1 (h.before i hi)⟩

/-- **Up to the next fetch** the two runs differ in the pc alone. -/
theorem State.ButPc.iterate {s t : State} {n : ℕ} (h : ButPc s t)
    (hn : ∀ i < n, ¬ AtFetch ((State.clock false)^[i] s)) :
    ∀ i ≤ n, ButPc ((State.clock false)^[i] s) ((State.clock false)^[i] t) := by
  intro i
  induction i with
  | zero => intro _; exact h
  | succ i ih =>
    intro hi
    rw [Function.iterate_succ_apply', Function.iterate_succ_apply']
    exact (ih (by omega)).clock (hn i (by omega))

section SetPc

variable {app : SimApp} (hr : app.perilus.reset = false)
  (hs : Serves app.perilus.rtl.state (opOf app.perilus.rtl.instr))
  (ho : app.perilus.rtl.Supported)
include hr hs ho

/-- **The next fetch after `set_pc_to_cursor`** is where it was, at the
pc the instruction in flight is still to write or else at the cursor. -/
theorem nextFetch_setPc :
    ∃ n, FirstAt Simulator.pulseClock Simulator.Fetching app.perilus n ∧
      FirstAt Simulator.pulseClock Simulator.Fetching app.setPcToCursor.perilus n ∧
      (Simulator.pulseClock^[n] app.setPcToCursor.perilus).getPc =
        app.perilus.rtl.pcAhead.getD app.cursorWord := by
  have hr' : app.setPcToCursor.perilus.reset = false := hr
  have hunset := State.firstAt_cyclesLeft hs ho
  have hset := State.firstAt_cyclesLeft (s := app.setPcToCursor.perilus.rtl) hs ho
  refine ⟨_, (Simulator.firstAt_fetching hr).2 hunset.1,
    (Simulator.firstAt_fetching hr').2 hset.1, ?_⟩
  rw [Simulator.getPc, (Simulator.iterate_pulseClock _ hr' _).1]
  exact hset.2

theorem setPcTakesEffect_iff_pcAhead :
    SetPcTakesEffect app ↔ ∀ pc, app.perilus.rtl.pcAhead = some pc →
      Memory.index memoryBits pc = Memory.index memoryBits app.cursorWord := by
  have hr' : app.setPcToCursor.perilus.reset = false := hr
  obtain ⟨n, hunset, hset, hpc⟩ := nextFetch_setPc hr hs ho
  constructor
  · rintro ⟨m, hm⟩ pc hahead
    -- there is only one next fetch
    obtain rfl := hm.set.unique hset
    rw [← hm.fetches, hpc, hahead]
    rfl
  · intro hahead
    have hbut := (State.ButPc.of_write app.perilus.rtl app.cursorWord).iterate
      ((Simulator.firstAt_fetching hr).1 hunset).before
    refine ⟨n, hunset, hset, ?_, ?_, ?_⟩
    · rw [hpc]
      rcases hnone : app.perilus.rtl.pcAhead with - | pc
      · rfl
      · exact hahead pc hnone
    · intro i hi
      rw [(Simulator.iterate_pulseClock _ hr i).1, (Simulator.iterate_pulseClock _ hr' i).1]
      exact (hbut i hi).registerFile
    · intro i hi
      rw [(Simulator.iterate_pulseClock _ hr i).1, (Simulator.iterate_pulseClock _ hr' i).1]
      exact (hbut i hi).memory

end SetPc

/-- **Setting the pc takes effect exactly if the instruction in flight has
no pc write ahead of it**, or one that names the word under the cursor. -/
theorem setPcTakesEffect_iff {app : SimApp}
    (h : Reachable SimApp.exec (fun _ _ => True) SimApp.new app)
    (ho : app.perilus.rtl.Supported) :
    SetPcTakesEffect app ↔ ∀ pc, app.perilus.rtl.pcAhead = some pc →
      Memory.index memoryBits pc = Memory.index memoryBits app.cursorWord := by
  obtain ⟨hr, hs⟩ := SimApp.serves_of_reachable h
  exact setPcTakesEffect_iff_pcAhead hr hs ho

/-- The `decode` of an `addi`. -/
theorem setPcTakesEffect_addi :
    ∃ app, Reachable SimApp.exec (fun _ _ => True) SimApp.new app ∧
      app.perilus.rtl.state = .decode ∧ SetPcTakesEffect app := by
  let cs : List Command := [.loadPath "addi.bin" (.ok [0x13, 0x00, 0x00, 0x00]), .stepCycle]
  have hrun : (run SimApp.exec cs SimApp.new).map (fun app =>
      (app.perilus.rtl.state, opOf app.perilus.rtl.instr, app.perilus.rtl.pcAhead)) =
      some (.decode, Opcode.immediate.asUInt, none) := by decide
  obtain ⟨app, hreach, happ⟩ := Reachable.of_observed (fun _ _ => True) (fun _ _ _ => trivial) hrun
  simp only [Prod.mk.injEq] at happ
  obtain ⟨hstate, hop, hahead⟩ := happ
  refine ⟨app, hreach, hstate, (setPcTakesEffect_iff hreach ?_).2 ?_⟩
  · intro _
    rw [hop]
    rfl
  · intro pc hpc
    rw [hahead] at hpc
    cases hpc

/-- **A pc that is lost.** The `decode` of a `jal` to 8; the cursor is on
the word at 0, and the next fetch is at 8. -/
theorem setPc_lost :
    ∃ app, Reachable SimApp.exec (fun _ _ => True) SimApp.new app ∧
      app.perilus.rtl.Supported ∧ app.cursorWord = 0 ∧ ¬ SetPcTakesEffect app := by
  let cs : List Command := [.loadPath "jal.bin" (.ok [0x6f, 0x00, 0x80, 0x00]), .stepCycle]
  have hrun : (run SimApp.exec cs SimApp.new).map (fun app =>
      (app.cursorWord, opOf app.perilus.rtl.instr, app.perilus.rtl.pcAhead)) =
      some (0, Opcode.jal.asUInt, some 8) := by decide
  obtain ⟨app, hreach, happ⟩ := Reachable.of_observed (fun _ _ => True) (fun _ _ _ => trivial) hrun
  simp only [Prod.mk.injEq] at happ
  obtain ⟨hcursor, hop, hahead⟩ := happ
  have hsupported : app.perilus.rtl.Supported := by
    intro _
    rw [hop]
    rfl
  refine ⟨app, hreach, hsupported, hcursor, ?_⟩
  obtain ⟨hr, hs⟩ := SimApp.serves_of_reachable hreach
  intro heffect
  have hidx := (setPcTakesEffect_iff_pcAhead hr hs hsupported).1 heffect 8 hahead
  rw [hcursor] at hidx
  exact absurd hidx (by decide)

end Perilus

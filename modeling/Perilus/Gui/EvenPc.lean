import Perilus.Common.Reachable
import Perilus.Gui.Helpers.Edit
import Perilus.Hardware.Helpers.EvenPc
/-!
# Debugger — an even pc

The design masks bit 0 of the pc and the debugger writes around the mask.
`set_pc_to_cursor` aligns what it writes, a cleared digit is even, and a
typed one is written as it is; so every command but an odd last digit of
the PC cell leaves an even pc even.
-/

namespace Perilus

open Transition

/-- An odd digit typed as the last one of the PC cell. -/
def OddDigit (app : SimApp) (c : Command) : Prop :=
  ∃ nibble, c = .editNibble nibble ∧ nibble.getLsbD 0 = true ∧ app.OnPcCell ∧ app.regNib = 7

namespace Simulator

variable {p p' : Simulator}

theorem evenInv_pulses (h : p.rtl.EvenInv) (n : ℕ) : (pulseClock^[n] p).rtl.EvenInv := by
  induction n with
  | zero => exact h
  | succ n ih =>
    rw [Function.iterate_succ_apply', pulseClock_rtl]
    exact ih.clock _

/-- Memory has no part in it. -/
theorem evenInv_withMemory (h : p.rtl.EvenInv) (memory : Words memoryBits) :
    (p.withMemory memory).rtl.EvenInv := ⟨h.pc, h.oldPc, h.serves, h.linkBuf⟩

/-- Nor has the register file. -/
theorem evenInv_setRegister (h : p.rtl.EvenInv) (register : Fin 32) (value : BitVec 32) :
    (p.setRegister register value).rtl.EvenInv := ⟨h.pc, h.oldPc, h.serves, h.linkBuf⟩

theorem evenInv_loadFile {contents : Except String (List (BitVec 8))}
    {result : Except String Unit} (h : p.rtl.EvenInv)
    (hs : p.loadFile contents = some (result, p')) : p'.rtl.EvenInv := by
  obtain ⟨memory, rfl⟩ := loadFile_eq_withMemory hs
  exact evenInv_withMemory h memory

/-- **An operation of the simulator** keeps its pc even. -/
theorem evenInv_exec {op : Op} (h : p.rtl.EvenInv) (hs : p.exec op = some p') :
    p'.rtl.EvenInv := by
  cases op with
  | pulseClock => exact Option.some.inj hs ▸ evenInv_pulses h 1
  | reset =>
    obtain rfl := Option.some.inj hs
    rw [resetPulse_rtl]
    exact h.clock true
  | setMemory address value =>
    have hs : p.setMemory address value = some p' := hs
    rw [setMemory_of_lt _ (lt_of_setMemory hs)] at hs
    exact Option.some.inj hs ▸ evenInv_withMemory h _
  | setMemoryByte addressBytes value =>
    have hs : p.setMemoryByte addressBytes value = some p' := hs
    rw [setMemoryByte_of_lt _ (lt_of_setMemoryByte hs)] at hs
    exact Option.some.inj hs ▸ evenInv_withMemory h _
  | setRegister register value =>
    exact Option.some.inj hs ▸ evenInv_setRegister h register value
  | loadFile contents =>
    obtain ⟨⟨result, p₁⟩, hload, rfl⟩ := Option.map_eq_some_iff.1 hs
    exact evenInv_loadFile h hload

end Simulator

namespace SimApp

/-- The pc and its copy are even, and stay so. -/
structure EvenInv (app : SimApp) : Prop where
  rtl : app.perilus.rtl.EvenInv
  currentPc : EvenWord app.currentPc

variable {app app' : SimApp}

namespace EvenInv

theorem sameMachine (h : app.EvenInv) (hs : SameMachine app app') : app'.EvenInv where
  rtl := hs.perilus ▸ h.rtl
  currentPc := hs.currentPc ▸ h.currentPc

theorem writesData (h : app.EvenInv) (hs : WritesData app app') : app'.EvenInv where
  rtl := by
    rcases hs.perilus with ⟨memory, hp⟩ | ⟨register, value, hp⟩
    · exact hp ▸ Simulator.evenInv_withMemory h.rtl memory
    · exact hp ▸ Simulator.evenInv_setRegister h.rtl register value
  currentPc := hs.currentPc ▸ h.currentPc

theorem writesPc {value : BitVec 32} (h : app.EvenInv) (hv : EvenWord value)
    (hs : WritesPc app value app') : app'.EvenInv where
  rtl := hs.perilus ▸ ⟨hv, h.rtl.oldPc, h.rtl.serves, h.rtl.linkBuf⟩
  currentPc := hs.currentPc ▸ hv

/-- The copy is taken from an even pc. -/
theorem syncPc (h : app.EvenInv) : app.syncPc.EvenInv where
  rtl := by
    rw [syncPc_perilus]
    exact h.rtl
  currentPc := by
    rw [syncPc_currentPc]
    split
    · exact h.rtl.pc
    · exact h.currentPc

theorem nextInstruction (h : app.EvenInv) : app.nextInstruction.EvenInv := by
  obtain ⟨k, -, hk, -⟩ := finishInstruction_spec (maxStatesPerInstruction - 1)
    app.perilus.pulseClock
  have hrtl : (finishInstruction (maxStatesPerInstruction - 1)
      app.perilus.pulseClock).rtl.EvenInv := by
    rw [hk]
    exact Simulator.evenInv_pulses h.rtl (k + 1)
  have hsync : (SimApp.syncPc { app with
      perilus := finishInstruction (maxStatesPerInstruction - 1)
        app.perilus.pulseClock }).EvenInv := syncPc ⟨hrtl, h.currentPc⟩
  rw [SimApp.nextInstruction]
  split <;> exact ⟨hsync.rtl, hsync.currentPc⟩

theorem logic (h : app.EvenInv) (budget : ℕ) : (app.logic budget).EvenInv := by
  have hrtl : (app.logic budget).perilus.rtl.EvenInv := by
    rw [logic_perilus]
    exact Simulator.evenInv_pulses h.rtl _
  refine ⟨hrtl, ?_⟩
  by_cases hidle : app.runState = .idle
  · rw [logic_idle hidle]
    exact h.currentPc
  · rw [logic_currentPc hidle]
    split
    · exact hrtl.pc
    · exact h.currentPc

theorem loadPath {path : String} {contents : Except String (List (BitVec 8))} (h : app.EvenInv)
    (hs : app.loadPath path contents = some app') : app'.EvenInv := by
  obtain ⟨⟨result, p⟩, hload, happ⟩ := Option.bind_eq_some_iff.1 hs
  exact Option.some.inj happ ▸ syncPc ⟨Simulator.evenInv_loadFile h.rtl hload, h.currentPc⟩

/-- `set_pc_to_cursor` writes a word's address. -/
theorem setPcToCursor (h : app.EvenInv) : app.setPcToCursor.EvenInv :=
  h.writesPc (.and_not_three _) ⟨rfl, rfl⟩

theorem backspace (h : app.EvenInv) (hs : app.backspace = some app') : app'.EvenInv := by
  rcases backspace_cases hs with hdata | ⟨n, hpc⟩
  · exact h.writesData hdata
  · exact h.writesPc (h.currentPc.clearDigit n) hpc

theorem clearCursor (h : app.EvenInv) (hs : app.clearCursor = some app') : app'.EvenInv := by
  rcases clearCursor_cases hs with hdata | hpc
  · exact h.writesData hdata
  · exact h.writesPc .zero hpc

theorem editNibble {nibble : BitVec 4} (h : app.EvenInv)
    (hs : app.editNibble (nibble.setWidth 8) = some app')
    (hc : ¬ OddDigit app (.editNibble nibble)) : app'.EvenInv := by
  rcases editNibble_cases hs with ⟨-, hdata⟩ | ⟨hcell, n, hn, hpc⟩
  · exact h.writesData hdata
  · refine h.writesPc ?_ hpc
    obtain ⟨hle, rfl⟩ := shift_eq_some.1 hn
    rcases Nat.eq_or_lt_of_le hle with hlast | hlt
    · -- the last digit, and it is an even one
      rw [hlast]
      refine EvenWord.setLastDigit.2 (Bool.eq_false_iff.2 fun hodd => ?_)
      exact hc ⟨nibble, rfl, hodd, hcell, hlast⟩
    · exact h.currentPc.setDigit (by omega)

/-- **One command.** -/
theorem exec {c : Command} (h : app.EvenInv) (hs : app.exec c = some app')
    (hc : ¬ OddDigit app c) : app'.EvenInv := by
  cases c with
  | simulator op =>
    obtain ⟨p, hp, rfl⟩ := Option.map_eq_some_iff.1 hs
    exact ⟨Simulator.evenInv_exec h.rtl hp, h.currentPc⟩
  | stepCycle =>
    have hsync : (SimApp.syncPc { app with perilus := app.perilus.pulseClock }).EvenInv :=
      syncPc ⟨Simulator.evenInv_pulses h.rtl 1, h.currentPc⟩
    exact Option.some.inj hs ▸ ⟨hsync.rtl, hsync.currentPc⟩
  | nextInstruction => exact Option.some.inj hs ▸ h.nextInstruction
  | reset =>
    have hreset : app.perilus.resetPulse.rtl.EvenInv := by
      rw [Simulator.resetPulse_rtl]
      exact h.rtl.clock true
    have hsync : (SimApp.syncPc
        { app with perilus := app.perilus.resetPulse, runState := .idle }).EvenInv :=
      syncPc ⟨hreset, h.currentPc⟩
    exact Option.some.inj hs ▸ ⟨hsync.rtl, hsync.currentPc⟩
  | loadPath path contents => exact h.loadPath hs
  | frame budget => exact Option.some.inj hs ▸ h.logic budget
  | setPcToCursor => exact Option.some.inj hs ▸ h.setPcToCursor
  | editNibble nibble => exact h.editNibble hs hc
  | backspace => exact h.backspace hs
  | clearCursor => exact h.clearCursor hs
  | moveCursor direction => exact h.sameMachine (moveCursor_sameMachine hs)
  | moveMemoryGroup forward =>
    change (if app.focus = .memory then app.moveMemoryGroup forward else some app) = _ at hs
    split at hs
    · exact h.sameMachine (moveMemoryGroup_sameMachine hs)
    · exact Option.some.inj hs ▸ h
  | selectMemory row col =>
    obtain ⟨app₁, hsel, rfl⟩ := Option.map_eq_some_iff.1 hs
    have h₁ := h.sameMachine (select_sameMachine hsel)
    exact ⟨h₁.rtl, h₁.currentPc⟩
  | runToInputPc =>
    obtain rfl := Option.some.inj hs
    rw [runToInputPc]
    split <;> exact ⟨h.rtl, h.currentPc⟩
  | jumpToAddress =>
    obtain rfl := Option.some.inj hs
    rw [jumpToAddress]
    split <;> exact ⟨h.rtl, h.currentPc⟩
  | _ => exact Option.some.inj hs ▸ ⟨h.rtl, h.currentPc⟩

end EvenInv

/-- An odd last digit is written as it is. -/
theorem not_evenPc_of_oddDigit {c : Command} (hs : app.exec c = some app')
    (hc : OddDigit app c) : ¬ app'.perilus.rtl.EvenPc := by
  obtain ⟨nibble, rfl, hodd, hcell, hnib⟩ := hc
  rcases editNibble_cases hs with ⟨hne, -⟩ | ⟨-, n, hn, hpc⟩
  · exact absurd hcell hne
  · obtain ⟨-, rfl⟩ := shift_eq_some.1 hn
    intro heven
    have hword := heven.pc
    rw [hpc.perilus, hnib] at hword
    have heven' : nibble.getLsbD 0 = false := EvenWord.setLastDigit.1 hword
    rw [hodd] at heven'
    cases heven'

end SimApp

/-- **The pc is even in every run that types no odd last digit into the PC
cell**, and the first such digit makes it odd. -/
theorem evenPc_of_no_oddDigit {app : SimApp}
    (h : Reachable SimApp.exec (fun app c => ¬ OddDigit app c) SimApp.new app) :
    app.perilus.rtl.EvenPc ∧ ∀ c app', app.exec c = some app' →
      (app'.perilus.rtl.EvenPc ↔ ¬ OddDigit app c) := by
  have hinv : app.EvenInv :=
    h.invariant ⟨State.evenInv_zeroed, rfl⟩ fun hi hok hs => hi.exec hs hok
  refine ⟨hinv.rtl.evenPc, ?_⟩
  intro c app' hs
  constructor
  · intro heven hc
    exact SimApp.not_evenPc_of_oddDigit hs hc heven
  · intro hc
    exact (hinv.exec hs hc).rtl.evenPc

/-- A click on the last digit of the PC cell, and a 2. -/
theorem evenPc_evenDigit :
    ∃ app, run SimApp.exec [.selectRegister 0 0 7, .editNibble 2] SimApp.new = some app ∧
      app.perilus.rtl.pc = 2 ∧ app.perilus.rtl.EvenPc := by
  have hclick : ¬ OddDigit SimApp.new (.selectRegister 0 0 7) := by
    rintro ⟨nibble, h, -⟩
    cases h
  have htype : ∀ app, ¬ OddDigit app (.editNibble 2) := by
    rintro app ⟨nibble, h, hodd, -⟩
    obtain rfl := Command.editNibble.inj h
    revert hodd
    decide
  exact ⟨_, rfl, rfl, (evenPc_of_no_oddDigit
    (.next (.editNibble 2) (.next (.selectRegister 0 0 7) .init hclick rfl) (htype _) rfl)).1⟩

/-- **An odd pc.** A click on the last digit of the PC cell, and a 1. -/
theorem oddPc_reached :
    ∃ app, Reachable SimApp.exec (fun _ _ => True) SimApp.new app ∧
      app.perilus.rtl.pc = 1 ∧ ¬ app.perilus.rtl.EvenPc := by
  let cs : List Command := [.selectRegister 0 0 7, .editNibble 1]
  have hrun : (run SimApp.exec cs SimApp.new).map (·.perilus.rtl.pc) = some 1 := by decide
  obtain ⟨app, hreach, hpc⟩ := Reachable.of_observed (fun _ _ => True) (fun _ _ _ => trivial) hrun
  refine ⟨app, hreach, hpc, ?_⟩
  intro heven
  have hword := heven.pc
  rw [hpc] at hword
  exact absurd hword (by simp [EvenWord])

end Perilus

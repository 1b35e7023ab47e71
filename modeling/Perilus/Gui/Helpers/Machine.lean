import Perilus.Common.Reachable
import Perilus.Gui.Helpers.Edit
import Perilus.Hardware.Helpers.EvenPc
/-!
# Debugger — what a command can do to the machine

It pulses the clock, or resets, or writes the memory, a register or the
pc (`Moves`). So what the clock and those writes preserve holds of the
machine in every reachable state.
-/

namespace Perilus

open Transition

/-- **One command's effect on the machine.** -/
inductive Moves (p : Simulator) : Simulator → Prop
  | pulses (n : ℕ) : Moves p (Simulator.pulseClock^[n] p)
  | resetPulse : Moves p p.resetPulse
  | memory (memory : Words memoryBits) : Moves p (p.withMemory memory)
  | register (register : Fin 32) (value : BitVec 32) : Moves p (p.setRegister register value)
  | pc (value : BitVec 32) : Moves p (p.setPc value)

namespace Moves

variable {p p' : Simulator} {app app' : SimApp}

theorem refl (p : Simulator) : Moves p p := pulses 0

theorem of_loadFile {contents : Except String (List (BitVec 8))} {result : Except String Unit}
    (h : p.loadFile contents = some (result, p')) : Moves p p' := by
  obtain ⟨m, rfl⟩ := Simulator.loadFile_eq_withMemory h
  exact memory m

/-- An operation of the simulator. -/
theorem of_op {op : Simulator.Op} (h : p.exec op = some p') : Moves p p' := by
  cases op with
  | pulseClock => exact Option.some.inj h ▸ pulses 1
  | reset => exact Option.some.inj h ▸ resetPulse
  | setMemory address value =>
    have h : p.setMemory address value = some p' := h
    rw [Simulator.setMemory_of_lt _ (Simulator.lt_of_setMemory h)] at h
    exact Option.some.inj h ▸ memory _
  | setMemoryByte addressBytes value =>
    have h : p.setMemoryByte addressBytes value = some p' := h
    rw [Simulator.setMemoryByte_of_lt _ (Simulator.lt_of_setMemoryByte h)] at h
    exact Option.some.inj h ▸ memory _
  | setRegister i value => exact Option.some.inj h ▸ register i value
  | loadFile contents =>
    obtain ⟨⟨result, p₁⟩, hload, rfl⟩ := Option.map_eq_some_iff.1 h
    exact of_loadFile hload

theorem of_sameMachine (h : SameMachine app app') : Moves app.perilus app'.perilus :=
  h.perilus ▸ refl app.perilus

theorem of_writesData (h : WritesData app app') : Moves app.perilus app'.perilus := by
  rcases h.perilus with ⟨m, hp⟩ | ⟨i, value, hp⟩
  · exact hp ▸ memory m
  · exact hp ▸ register i value

theorem of_writesPc {value : BitVec 32} (h : WritesPc app value app') :
    Moves app.perilus app'.perilus := h.perilus ▸ pc value

theorem of_editNibble {nibble : BitVec 8} (h : app.editNibble nibble = some app') :
    Moves app.perilus app'.perilus := by
  rcases SimApp.editNibble_cases h with ⟨-, hdata⟩ | ⟨-, n, -, hpc⟩
  · exact of_writesData hdata
  · exact of_writesPc hpc

theorem of_backspace (h : app.backspace = some app') : Moves app.perilus app'.perilus := by
  rcases SimApp.backspace_cases h with hdata | ⟨n, hpc⟩
  · exact of_writesData hdata
  · exact of_writesPc hpc

theorem of_clearCursor (h : app.clearCursor = some app') : Moves app.perilus app'.perilus := by
  rcases SimApp.clearCursor_cases h with hdata | hpc
  · exact of_writesData hdata
  · exact of_writesPc hpc

theorem of_nextInstruction (app : SimApp) : Moves app.perilus app.nextInstruction.perilus := by
  obtain ⟨k, -, hk, -⟩ := SimApp.finishInstruction_spec (SimApp.maxStatesPerInstruction - 1)
    app.perilus.pulseClock
  rw [SimApp.nextInstruction_perilus, hk]
  exact pulses (k + 1)

theorem of_loadPath {path : String} {contents : Except String (List (BitVec 8))}
    (h : app.loadPath path contents = some app') : Moves app.perilus app'.perilus := by
  obtain ⟨⟨result, p⟩, hload, happ⟩ := Option.bind_eq_some_iff.1 h
  obtain rfl := Option.some.inj happ
  rw [SimApp.syncPc_perilus]
  exact of_loadFile hload

/-- **Any command.** -/
theorem of_exec {c : Command} (h : app.exec c = some app') : Moves app.perilus app'.perilus := by
  cases c with
  | simulator op =>
    obtain ⟨p, hp, rfl⟩ := Option.map_eq_some_iff.1 h
    exact of_op hp
  | stepCycle =>
    obtain rfl := Option.some.inj h
    exact (SimApp.syncPc_perilus _).symm ▸ pulses 1
  | nextInstruction => exact Option.some.inj h ▸ of_nextInstruction app
  | reset =>
    obtain rfl := Option.some.inj h
    exact (SimApp.syncPc_perilus _).symm ▸ resetPulse
  | loadPath path contents => exact of_loadPath h
  | runToInputPc =>
    obtain rfl := Option.some.inj h
    rw [SimApp.runToInputPc]
    split <;> exact refl _
  | frame budget =>
    obtain rfl := Option.some.inj h
    rw [SimApp.logic_perilus]
    exact pulses _
  | setPcToCursor => exact Option.some.inj h ▸ pc _
  | editNibble nibble => exact of_editNibble h
  | backspace => exact of_backspace h
  | clearCursor => exact of_clearCursor h
  | moveCursor direction => exact of_sameMachine (SimApp.moveCursor_sameMachine h)
  | moveMemoryGroup forward =>
    change (if app.focus = .memory then app.moveMemoryGroup forward else some app) = _ at h
    split at h
    · exact of_sameMachine (SimApp.moveMemoryGroup_sameMachine h)
    · exact Option.some.inj h ▸ refl _
  | jumpToAddress =>
    obtain rfl := Option.some.inj h
    rw [SimApp.jumpToAddress]
    split <;> exact refl _
  | selectMemory row col =>
    obtain ⟨app₁, hsel, rfl⟩ := Option.map_eq_some_iff.1 h
    have hsame := SimApp.select_sameMachine hsel
    exact of_sameMachine ⟨hsame.perilus, hsame.currentPc⟩
  | _ => exact Option.some.inj h ▸ refl _

/-! ## What every command keeps -/

/-- Between commands reset is low. -/
theorem reset (h : Moves p p') (hr : p.reset = false) : p'.reset = false := by
  cases h with
  | pulses n => exact (p.iterate_pulseClock hr n).2
  | resetPulse => exact p.resetPulse_reset
  | _ => exact hr

/-- **The control unit is in a state its instruction can be in.** -/
theorem serves (h : Moves p p') (hr : p.reset = false)
    (hs : Serves p.rtl.state (opOf p.rtl.instr)) : Serves p'.rtl.state (opOf p'.rtl.instr) := by
  cases h with
  | pulses n =>
    -- with reset low each pulse is a cycle, and a cycle keeps it
    rw [(p.iterate_pulseClock hr n).1]
    induction n with
    | zero => exact hs
    | succ n ih =>
      rw [Function.iterate_succ_apply']
      exact State.serves_clock ih
  | resetPulse =>
    rw [Simulator.resetPulse_rtl, State.clock_true]
    trivial
  | _ => exact hs

end Moves

/-- **Reset is low and the control unit serves its instruction** in every
reachable state. -/
theorem SimApp.serves_of_reachable {ok : SimApp → Command → Prop} {app : SimApp}
    (h : Reachable SimApp.exec ok SimApp.new app) :
    app.perilus.reset = false ∧ Serves app.perilus.rtl.state (opOf app.perilus.rtl.instr) := by
  have hinit : Serves SimApp.new.perilus.rtl.state (opOf SimApp.new.perilus.rtl.instr) := trivial
  refine h.invariant (P := fun app => app.perilus.reset = false ∧
    Serves app.perilus.rtl.state (opOf app.perilus.rtl.instr)) ⟨rfl, hinit⟩ ?_
  intro s s' c ⟨hr, hs⟩ _ hexec
  have hmoves := Moves.of_exec hexec
  exact ⟨hmoves.reset hr, hmoves.serves hr hs⟩

end Perilus

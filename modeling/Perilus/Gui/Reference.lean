import Perilus.Gui.Helpers.Lockstep
import Perilus.Gui.Typing
/-!
# Debugger — it does what it is for

Whatever commands a session is made of and in whatever order, as long as
the reference debugger has an answer the application shows it.
-/

namespace Perilus

open Clocked Dialect Digits ByteMemory Transition

/-- **The application shows the reference debugger.** -/
structure Shows (app : SimApp) (t : IsaApp) : Prop where
  machine : RunsAs app t.timed
  panes : SamePanes app t
  runState : app.runState = t.runState
  runCycles : app.runCycles = t.runCycles

namespace Shows

variable {app app' : SimApp} {t t' : IsaApp}

/-! ## The clock -/

/-- A command that leaves the panes and the run as they are. -/
theorem withTimed (h : Shows app t) {timed : Timed memoryBytes} (hm : RunsAs app' timed)
    (hp : app'.panes = app.panes) (hs : app'.runState = app.runState)
    (hc : app'.runCycles = app.runCycles) : Shows app' { t with timed } where
  machine := hm
  panes := (h.panes.congr hp).withRun _ _ _
  runState := hs.trans h.runState
  runCycles := hc.trans h.runCycles

theorem clock_eq_some {f : Timed memoryBytes → Timed memoryBytes} (h : t.clock f = some t') :
    t.timed.Clockable ∧ t' = { t with timed := f t.timed } := by
  rw [IsaApp.clock] at h
  split at h
  · next hc => exact ⟨hc, (Option.some.inj h).symm⟩
  · cases h

theorem edit_eq_some {f : Rv32i.State memoryBytes → Rv32i.State memoryBytes}
    (h : t.edit f = some t') :
    t.timed.phase = 0 ∧ t' = { t with timed := ⟨f t.timed.machine, 0⟩ } := by
  rw [IsaApp.edit] at h
  split at h
  · next h0 => exact ⟨h0, (Option.some.inj h).symm⟩
  · cases h

theorem syncPc_panes (app : SimApp) : app.syncPc.panes = app.panes ∧
    app.syncPc.runState = app.runState ∧ app.syncPc.runCycles = app.runCycles := by
  rw [SimApp.syncPc]
  split <;> exact ⟨rfl, rfl, rfl⟩

theorem stepCycle (h : Shows app t) (hexec : t.clock Timed.tick = some t') :
    Shows app.stepCycle t' := by
  obtain ⟨hc, rfl⟩ := clock_eq_some hexec
  obtain ⟨hpanes, hstate, hcycles⟩ := syncPc_panes { app with perilus := app.perilus.pulseClock }
  refine h.withTimed (h.machine.ticks (n := 1) hc ?_ ?_) hpanes hstate hcycles
  · exact SimApp.syncPc_perilus _
  · refine (SimApp.syncPc_currentPc _).trans ?_
    rw [show app.stepCycle.perilus = _ from SimApp.syncPc_perilus _]

theorem nextInstruction_panes (app : SimApp) : app.nextInstruction.panes = app.panes ∧
    app.nextInstruction.runState = app.runState ∧
    app.nextInstruction.runCycles = app.runCycles := by
  rw [SimApp.nextInstruction]
  split <;> exact syncPc_panes _

theorem nextInstruction_currentPc (app : SimApp) : app.nextInstruction.currentPc =
    if AtFetch app.nextInstruction.perilus.rtl then app.nextInstruction.perilus.rtl.pc
    else app.currentPc := by
  rw [SimApp.nextInstruction_perilus, SimApp.nextInstruction]
  split <;> exact SimApp.syncPc_currentPc _

theorem nextInstruction (h : Shows app t) (hexec : t.clock (Timed.finish 64) = some t') :
    Shows app.nextInstruction t' := by
  obtain ⟨hc, rfl⟩ := clock_eq_some hexec
  obtain ⟨hpanes, hstate, hcycles⟩ := nextInstruction_panes app
  obtain ⟨k, hk, hpulses⟩ : ∃ k, Timed.tick^[k] t.timed = t.timed.finish 64 ∧
      app.nextInstruction.perilus = Simulator.pulseClock^[k] app.perilus := by
    obtain ⟨k, hle, hfinish, hbefore, hend⟩ :=
      SimApp.finishInstruction_spec (SimApp.maxStatesPerInstruction - 1) app.perilus.pulseClock
    have hrtl : ∀ i, (Simulator.pulseClock^[i] app.perilus.pulseClock).rtl =
        (State.clock false)^[i + 1] app.perilus.rtl := fun i =>
      (app.perilus.iterate_pulseClock h.machine.reset (i + 1)).1
    rw [SimApp.maxStatesPerInstruction] at hle hend
    -- one pulse, and those of the loop
    refine ⟨k + 1,
      h.machine.lockstep.finish_eq hc (Nat.succ_pos k) (by decide) ?_ ?_, ?_⟩
    · rintro (- | i) hi hlt
      · exact absurd hi (Nat.lt_irrefl 0)
      · rw [← hrtl]
        exact hbefore i (by omega)
    · rw [← hrtl]
      exact hend.imp_left (by omega)
    · rw [SimApp.nextInstruction_perilus, hfinish]
      rfl
  rw [← hk]
  exact h.withTimed (h.machine.ticks hc hpulses (nextInstruction_currentPc app)) hpanes hstate
    hcycles

/-- **A frame.** -/
theorem logic (h : Shows app t) {budget : ℕ} (hexec : t.frame budget = some t') :
    Shows (app.logic budget) t' := by
  rcases hrun : t.runState with - | - | target
  · rw [IsaApp.frame, hrun] at hexec
    rw [SimApp.logic_idle (h.runState.trans hrun)]
    exact Option.some.inj hexec ▸ h
  · rw [IsaApp.frame, hrun] at hexec
    obtain ⟨hc, rfl⟩ := clock_eq_some hexec
    have hlogic : app.logic budget =
        SimApp.syncPc { app with perilus := Simulator.pulseClock^[budget] app.perilus } := by
      rw [SimApp.logic, h.runState, hrun]
    have hbusy : app.runState ≠ .idle := by rw [h.runState, hrun]; decide
    have hcopy := SimApp.logic_currentPc hbusy budget
    obtain ⟨hpanes, hstate, hcycles⟩ :=
      syncPc_panes { app with perilus := Simulator.pulseClock^[budget] app.perilus }
    rw [← hlogic] at hpanes hstate hcycles
    refine h.withTimed (h.machine.ticks hc ?_ hcopy) hpanes hstate hcycles
    rw [hlogic, SimApp.syncPc_perilus]
  · rw [IsaApp.frame, hrun] at hexec
    obtain ⟨t₁, hclock, rfl⟩ := Option.map_eq_some_iff.1 hexec
    obtain ⟨hc, rfl⟩ := clock_eq_some hclock
    obtain ⟨n, hn⟩ := runToPcLoop_ran target budget app
    rw [h.runCycles] at hn
    -- the loop looks before every pulse, and the reference before every cycle
    have hcyclesTo : t.timed.cyclesTo target.toNat (frameLimit budget t.runCycles) = n := by
      refine Timed.cyclesTo_eq hn.le ?_ ?_
      · intro i hi
        exact mt (h.machine.atTarget_iff hc target i).2 (hn.before i hi)
      · intro hlt
        exact (h.machine.atTarget_iff hc target n).1 (hn.here hlt)
    rw [frameLimit] at hcyclesTo hn
    have hlogic : app.logic budget = (SimApp.runToPcLoop target budget app).syncPc := by
      rw [SimApp.logic, h.runState, hrun]
    have hbusy : app.runState ≠ .idle := by
      intro hidle
      rw [h.runState, hrun] at hidle
      cases hidle
    have hcopy := SimApp.logic_currentPc hbusy budget
    obtain ⟨hpanes, hstate, hcycles⟩ := syncPc_panes (SimApp.runToPcLoop target budget app)
    rw [← hlogic] at hpanes hstate hcycles
    dsimp only
    rw [hcyclesTo]
    have hmachine : RunsAs (app.logic budget) (Timed.tick^[n] t.timed) := by
      refine h.machine.ticks hc ?_ hcopy
      rw [hlogic, SimApp.syncPc_perilus, hn.perilus]
    refine ⟨hmachine, (h.panes.congr (hpanes.trans hn.panes)).withRun _ _ _, ?_, ?_⟩
    · rw [hstate, hn.runState, h.runState, h.runCycles, hrun]
    · rw [hcycles, hn.runCycles, h.runCycles]

/-! ## The cursors -/

theorem withDigit (h : Shows app t) (p : Fin memoryDigits) :
    Shows (app.withCursor p) { t with digit := p } where
  machine := h.machine.congr rfl rfl
  panes := h.panes.withCursor p
  runState := h.runState
  runCycles := h.runCycles

theorem moveMemory (h : Shows app t) (hf : t.focus = .memory) (direction : Direction) :
    ∃ app', app.moveMemory direction = some app' ∧ Shows app' (t.moveCursor direction) := by
  rw [t.moveCursor_memory hf]
  exact ⟨_, SimApp.moveMemory_grid h.panes.digit direction, h.withDigit _⟩

theorem moveRegister (h : Shows app t) (hf : t.focus = .registers) (direction : Direction) :
    ∃ app', app.moveRegister direction = some app' ∧ Shows app' (t.moveCursor direction) := by
  obtain ⟨index, nib, hmove, hcell, hnib⟩ :=
    SimApp.moveRegister_grid h.panes.cell h.panes.regNib direction
  rw [t.moveCursor_registers hf]
  exact ⟨_, hmove, h.machine.congr rfl rfl, h.panes.withRegister hcell hnib, h.runState,
    h.runCycles⟩

/-- **A move of the cursor.** -/
theorem moveCursor (h : Shows app t) (direction : Direction) :
    ∃ app', app.moveCursor direction = some app' ∧ Shows app' (t.moveCursor direction) := by
  rw [SimApp.moveCursor, h.panes.focus]
  rcases hf : t.focus with - | -
  · exact h.moveRegister hf direction
  · exact h.moveMemory hf direction

/-! ## Writes -/

/-- Bytes written in both memories. -/
theorem writeMemory (h : Shows app t) (h0 : t.timed.phase = 0) {memory : Words memoryBits}
    {mem : Bytes memoryBytes} (status : String) (hmem : Memory.flat memory = mem) :
    Shows { app with perilus := app.perilus.withMemory memory, status }
      { t with timed := ⟨{ t.timed.machine with mem }, 0⟩ } := by
  rw [← hmem]
  exact h.withTimed ((h.machine.writeMemory h0 memory).congr rfl rfl) rfl rfl rfl

/-- The memory both have. -/
theorem mem_eq (h : Shows app t) (h0 : t.timed.phase = 0) :
    t.timed.machine.mem = Memory.flat app.perilus.rtl.memory := by
  rw [← h.machine.lockstep.isa h0]
  rfl

theorem byteAt_eq (h : Shows app t) (h0 : t.timed.phase = 0) :
    app.perilus.getMemoryByte app.memAddr = some (byteAt t.timed.machine.mem t.byte) := by
  have hlt : app.memAddr.toNat < Simulator.memorySizeBytes := by
    rw [h.panes.toNat_memAddr]
    exact t.byte.isLt
  rw [app.perilus.getMemoryByte_flat hlt, h.mem_eq h0, h.panes.toNat_memAddr]

/-- **A byte written**, the one under the cursor. -/
theorem writeByte (h : Shows app t) (h0 : t.timed.phase = 0) {value : BitVec 8} {f : ℕ → ℕ}
    (status : String) (hf : value.toNat = f (byteAt t.timed.machine.mem t.byte).toNat) :
    ∃ memory, app.perilus.setMemoryByte app.memAddr value =
        some (app.perilus.withMemory memory) ∧
      Shows { app with perilus := app.perilus.withMemory memory, status }
        { t with timed := ⟨modifyByte t.byte f t.timed.machine, 0⟩ } := by
  have hlt : app.memAddr.toNat < Simulator.memorySizeBytes := by
    rw [h.panes.toNat_memAddr]
    exact t.byte.isLt
  refine ⟨_, app.perilus.setMemoryByte_of_lt hlt value, h.writeMemory h0 status ?_⟩
  rw [Memory.flat_stored_byte _ hlt, ← h.mem_eq h0, h.panes.toNat_memAddr, hf]

/-- **The cell under the cursor written.** -/
theorem writeCell (h : Shows app t) (h0 : t.timed.phase = 0) {f : BitVec 32 → BitVec 32}
    {g : ℕ → ℕ} (hf : ∀ v, (f v).toNat = g v.toNat) (status : String) :
    (app.regIndex = 0 →
      Shows { app with
          perilus := app.perilus.setPc (f app.currentPc), currentPc := f app.currentPc, status }
        { t with timed := ⟨modifyCell (Fin.ofNat 32 (t.cell / 8)) g t.timed.machine, 0⟩ }) ∧
    (app.regIndex ≠ 0 → ∃ register, Register.new app.regIndex = some register ∧
      Shows { app with
          perilus := app.perilus.setRegister register (f (app.perilus.getRegisters register))
          status }
        { t with timed := ⟨modifyCell (Fin.ofNat 32 (t.cell / 8)) g t.timed.machine, 0⟩ }) := by
  have hisa := h.machine.lockstep.isa h0
  rw [h.panes.cell_div, modifyCell]
  constructor
  · intro hzero
    rw [if_pos (Fin.ext hzero)]
    have hpc : g t.timed.machine.pc = (f app.currentPc).toNat := by
      rw [hf, h.machine.currentPc h0, ← hisa]
      rfl
    rw [hpc]
    exact h.withTimed ((h.machine.writePc h0 _).congr rfl rfl) rfl rfl rfl
  · intro hne
    refine ⟨⟨app.regIndex, h.panes.regIndex_lt⟩, dif_pos h.panes.regIndex_lt, ?_⟩
    rw [if_neg fun heq => hne (congrArg Fin.val heq)]
    have hx : g (t.timed.machine.x ⟨app.regIndex, h.panes.regIndex_lt⟩) =
        (f (app.perilus.getRegisters ⟨app.regIndex, h.panes.regIndex_lt⟩)).toNat := by
      rw [hf, ← hisa]
      rfl
    rw [hx]
    exact h.withTimed ((h.machine.writeRegister h0 _ _).congr rfl rfl) rfl rfl rfl

end Shows

/-! ## Editing -/

/-- Half a byte, as a digit of it. -/
theorem toNat_setNibble_byte (byte : BitVec 8) {nib : ℕ} (hn : nib < 2) (nibble : BitVec 4) :
    (setNibble byte nib nibble).toNat = setDigit 16 byte.toNat (1 - nib) nibble.toNat := by
  have hbyte := byte.isLt
  rw [toNat_of_nibbles (setNibble byte nib nibble)]
  rcases Nat.eq_zero_or_pos nib with rfl | hpos
  · have hlow : (nibbleOf byte 1).toNat = byte.toNat % 16 := by
      rw [nibbleOf, if_neg (by decide), Bits.toNat_extractLsb]
      omega
    rw [nibbleOf_setNibble, nibbleOf_setNibble_of_ne byte nibble hn (by decide) (by decide), hlow,
      setDigit]
    omega
  · obtain rfl : nib = 1 := by omega
    have hhigh : (nibbleOf byte 0).toNat = byte.toNat / 16 := by
      rw [nibbleOf, if_pos rfl, Bits.toNat_extractLsb]
      omega
    rw [nibbleOf_setNibble, nibbleOf_setNibble_of_ne byte nibble hn (by decide) (by decide), hhigh,
      setDigit]
    omega

namespace SimApp

variable {app : SimApp}

/-- Writing the cell under the register cursor, and a move. -/
def writeCell (app : SimApp) (f : BitVec 32 → BitVec 32) (direction : Direction) : Option SimApp :=
  if app.regIndex = 0 then
    moveRegister
      { app with perilus := app.perilus.setPc (f app.currentPc), currentPc := f app.currentPc }
      direction
  else (Register.new app.regIndex).bind fun register =>
    moveRegister
      { app with
        perilus := app.perilus.setRegister register (f (app.perilus.getRegisters register)) }
      direction

theorem editNibble_registers (hf : app.focus = .registers) (hn : app.regNib < 8)
    (nibble : BitVec 4) :
    app.editNibble (nibble.setWidth 8) =
      app.writeCell (fun v => (v &&& ~~~(0xf#32 <<< (4 * (7 - app.regNib)))) |||
        (nibble.setWidth 32 <<< (4 * (7 - app.regNib)))) .right := by
  rw [editNibble]
  split
  · next hmemory => cases hf.symm.trans hmemory
  · have hwiden : (nibble.setWidth 8).setWidth 32 = nibble.setWidth 32 := by
      refine BitVec.eq_of_toNat_eq ?_
      simp only [BitVec.toNat_setWidth]
      omega
    rw [shift_eq_some.2 ⟨Nat.le_of_lt_succ hn, rfl⟩, Nat.mul_comm, hwiden]
    rfl

theorem backspace_registers (hf : app.focus = .registers) (hn : app.regNib < 8)
    (hstart : ¬ (app.regIndex = 0 ∧ app.regNib = 0)) :
    app.backspace =
      app.writeCell (fun v => v &&& ~~~(0xf#32 <<< (4 * (7 - app.regNib)))) .left := by
  rw [backspace]
  split
  · next hmemory => cases hf.symm.trans hmemory
  · rw [if_neg hstart, shift_eq_some.2 ⟨Nat.le_of_lt_succ hn, rfl⟩, Nat.mul_comm]
    rfl

end SimApp

namespace Shows

variable {app : SimApp} {t t₁ t' : IsaApp}

/-- **A digit written to the cell under the cursor**, and a move. -/
theorem writeCell_move (h : Shows app t) (hf : t.focus = .registers) {d : ℕ}
    (hw : t.writeDigit d = some t₁) {f : BitVec 32 → BitVec 32}
    (hd : ∀ v, (f v).toNat = setDigit 16 v.toNat (7 - app.regNib) d) (direction : Direction) :
    ∃ app', app.writeCell f direction = some app' ∧ Shows app' (t₁.moveCursor direction) := by
  have hw' : t.edit (modifyCell (Fin.ofNat 32 (t.cell / 8))
      fun v => setDigit 16 v (7 - t.cell % 8) d) = some t₁ := by
    rw [IsaApp.writeDigit, hf] at hw
    exact hw
  obtain ⟨h0, rfl⟩ := edit_eq_some hw'
  rw [← h.panes.cell_mod] at hd
  obtain ⟨hpc, hregister⟩ :=
    h.writeCell h0 (g := fun v => setDigit 16 v (7 - t.cell % 8) d) hd app.status
  rw [SimApp.writeCell]
  split
  · next hzero => exact (hpc hzero).moveRegister hf direction
  · next hne =>
    obtain ⟨register, hnew, hshows⟩ := hregister hne
    rw [hnew]
    exact hshows.moveRegister hf direction

/-- **A digit written to the byte under the cursor**, as it is found. -/
theorem writeByte_digit (h : Shows app t) (hf : t.focus = .memory) {nibble : BitVec 4}
    (hw : t.writeDigit nibble.toNat = some t₁) :
    t₁.focus = .memory ∧ ∃ byte memory, app.perilus.getMemoryByte app.memAddr = some byte ∧
      app.perilus.setMemoryByte app.memAddr (setNibble byte app.memNib nibble) =
        some (app.perilus.withMemory memory) ∧
      Shows { app with perilus := app.perilus.withMemory memory } t₁ := by
  have hw' : t.edit (modifyByte t.byte fun v => setDigit 16 v (1 - t.digit % 2) nibble.toNat) =
      some t₁ := by
    rw [IsaApp.writeDigit, hf] at hw
    exact hw
  obtain ⟨h0, rfl⟩ := edit_eq_some hw'
  have hnib : app.memNib < 2 := by
    rw [h.panes.memNib]
    exact Nat.mod_lt _ (by decide)
  have hvalue := toNat_setNibble_byte (byteAt t.timed.machine.mem t.byte) hnib nibble
  rw [← h.panes.memNib]
  obtain ⟨memory, hset, hshows⟩ :=
    h.writeByte h0 (f := fun v => setDigit 16 v (1 - app.memNib) nibble.toNat) app.status hvalue
  exact ⟨hf, _, memory, h.byteAt_eq h0, hset, hshows⟩

/-- **Typing.** -/
theorem editNibble (h : Shows app t) {nibble : BitVec 4}
    (hexec : (t.writeDigit nibble.toNat).map (·.moveCursor .right) = some t') :
    ∃ app', app.editNibble (nibble.setWidth 8) = some app' ∧ Shows app' t' := by
  obtain ⟨t₁, hw, rfl⟩ := Option.map_eq_some_iff.1 hexec
  rcases hf : t.focus with - | -
  · rw [SimApp.editNibble_registers (h.panes.focus.trans hf) h.panes.regNib]
    have hnib := h.panes.regNib
    exact h.writeCell_move hf hw (fun v => toNat_setNibble v (by omega) nibble) .right
  · obtain ⟨hf₁, byte, memory, hbyte, hset, hshows⟩ := h.writeByte_digit hf hw
    have hfocus := h.panes.focus.trans hf
    obtain ⟨app', hmove, hshows'⟩ := hshows.moveMemory hf₁ .right
    rw [SimApp.editNibble_memory hfocus hbyte hset]
    exact ⟨app', hmove, hshows'⟩

/-- **`backspace`.** -/
theorem backspace (h : Shows app t) (hexec : t.backspace = some t') :
    ∃ app', app.backspace = some app' ∧ Shows app' t' := by
  rw [IsaApp.backspace] at hexec
  rcases hf : t.focus with - | -
  · have hfocus := h.panes.focus.trans hf
    have hcell := h.panes.cell
    have hstart : t.AtStart ↔ app.regIndex = 0 ∧ app.regNib = 0 := by
      rw [IsaApp.AtStart, hf]
      dsimp only
      omega
    split at hexec
    · next hat =>
      refine ⟨app, ?_, Option.some.inj hexec ▸ h⟩
      rw [SimApp.backspace, hfocus]
      exact if_pos (hstart.1 hat)
    · next hat =>
      obtain ⟨t₁, hw, rfl⟩ := Option.map_eq_some_iff.1 hexec
      have hnib := h.panes.regNib
      rw [SimApp.backspace_registers hfocus hnib (mt hstart.2 hat)]
      exact h.writeCell_move hf hw (fun v => toNat_clearNibble v (by omega)) .left
  · have hfocus := h.panes.focus.trans hf
    have hstart : t.AtStart ↔ t.digit.val = 0 := by
      rw [IsaApp.AtStart, hf]
    split at hexec
    · next hat =>
      refine ⟨app, ?_, Option.some.inj hexec ▸ h⟩
      rw [SimApp.backspace, hfocus]
      exact if_pos (h.panes.digit.first_iff.2 (hstart.1 hat))
    · next hat =>
      obtain ⟨t₁, hw, rfl⟩ := Option.map_eq_some_iff.1 hexec
      have hzero : t.writeDigit (0#4).toNat = some t₁ := hw
      obtain ⟨hf₁, byte, memory, hbyte, hset, hshows⟩ := h.writeByte_digit hf hzero
      obtain ⟨app', hmove, hshows'⟩ := hshows.moveMemory hf₁ .left
      rw [SimApp.backspace_memory hfocus h.panes.digit (Nat.pos_of_ne_zero (mt hstart.2 hat)) hbyte
        hset]
      exact ⟨app', hmove, hshows'⟩

/-- The place of the word under the cursor. -/
theorem place_word (h : Shows app t) :
    place memoryBytes 4 (app.memAddr / 4 * 4).toNat = t.byte / 4 * 4 := by
  have haddr := h.panes.toNat_memAddr
  rw [place_word_of (haddr ▸ t.byte.isLt), haddr]

/-- **Clearing.** -/
theorem clearCursor (h : Shows app t) (hexec : t.clearCursor = some t') :
    ∃ app', app.clearCursor = some app' ∧ Shows app' t' := by
  rw [IsaApp.clearCursor, ← h.panes.focus, ← h.panes.view] at hexec
  rw [SimApp.clearCursor]
  split
  · next hfocus =>
    rw [hfocus] at hexec
    split
    · next hview =>
      rw [hview] at hexec
      obtain ⟨h0, rfl⟩ := edit_eq_some hexec
      have hlt : app.memAddr.toNat < Simulator.memorySizeBytes := by
        rw [h.panes.toNat_memAddr]
        exact t.byte.isLt
      dsimp only
      rw [app.perilus.setMemory_of_lt (Simulator.word_of_byte hlt).1]
      refine ⟨_, rfl, h.writeMemory h0 _ ?_⟩
      rw [Memory.flat_stored, ← h.mem_eq h0, ← h.place_word]
      rfl
    · next hview =>
      rw [hview] at hexec
      obtain ⟨h0, rfl⟩ := edit_eq_some hexec
      obtain ⟨memory, hset, hshows⟩ := h.writeByte h0 (f := fun _ => 0)
        ("Cleared byte 0x" ++ hex08 app.memAddr) (show (0 : BitVec 8).toNat = 0 from rfl)
      rw [hset]
      exact ⟨_, rfl, hshows⟩
  · next hfocus =>
    rw [hfocus] at hexec
    obtain ⟨h0, rfl⟩ := edit_eq_some hexec
    have hzero : ∀ v : BitVec 32, (0 : BitVec 32).toNat = 0 := fun _ => rfl
    split
    · next hindex =>
      exact ⟨_, rfl,
        (h.writeCell h0 (f := fun _ => 0) (g := fun _ => 0) hzero "Cleared PC").1 hindex⟩
    · next hindex =>
      obtain ⟨register, hnew, hshows⟩ :=
        (h.writeCell h0 (f := fun _ => 0) (g := fun _ => 0) hzero
          ("Cleared x" ++ toString app.regIndex)).2 hindex
      rw [hnew]
      exact ⟨_, rfl, hshows⟩

/-! ## The other commands -/

/-- A command that looks at the pc at its end. -/
theorem syncPc (h : Shows app t) : Shows app.syncPc t := by
  obtain ⟨hpanes, hstate, hcycles⟩ := syncPc_panes app
  exact h.withTimed h.machine.syncPc hpanes hstate hcycles

/-- **Loading a file.** -/
theorem loadPath (h : Shows app t) {path : String} {image : List (BitVec 8)}
    (hle : image.length ≤ memoryBytes)
    (hexec : (t.edit fun s => { s with mem := fun i =>
      if i.val < image.length then image.getD i.val 0 else s.mem i }) = some t') :
    ∃ app', app.loadPath path (.ok image) = some app' ∧ Shows app' t' := by
  obtain ⟨h0, rfl⟩ := edit_eq_some hexec
  obtain ⟨memory, hload, hflat⟩ := app.perilus.loadBytes_eq hle
  have hfile : app.perilus.loadFile (.ok image) =
      some (.ok (), app.perilus.withMemory memory) := hload
  rw [SimApp.loadPath, hfile]
  refine ⟨_, rfl, (h.writeMemory h0 ("Loaded memory from " ++ path) ?_).syncPc⟩
  funext i
  rw [hflat, ← h.mem_eq h0]

/-- And one that could not be loaded. -/
theorem loadPath_error (h : Shows app t) (path : String)
    {contents : Except String (List (BitVec 8))} {e : String}
    (hfile : app.perilus.loadFile contents = some (.error e, app.perilus)) :
    ∃ app', app.loadPath path contents = some app' ∧ Shows app' t := by
  rw [SimApp.loadPath, hfile]
  have hstatus : Shows { app with status := "Load failed: " ++ e } t :=
    h.withTimed (h.machine.congr rfl rfl) rfl rfl rfl
  exact ⟨_, rfl, hstatus.syncPc⟩

/-- **Reset.** -/
theorem reset (h : Shows app t) :
    Shows app.reset { t with timed := t.timed.reset, runState := .idle } := by
  have hin := h.machine.lockstep.reset.1
  rw [← app.perilus.resetPulse_rtl] at hin
  have hcopy : app.reset.currentPc = app.reset.perilus.rtl.pc := by
    have hsync := SimApp.syncPc_currentPc
      { app with perilus := app.perilus.resetPulse, runState := .idle }
    rw [if_pos (hin.atFetch_iff.2 rfl)] at hsync
    refine hsync.trans ?_
    rw [show app.reset.perilus = app.perilus.resetPulse from SimApp.syncPc_perilus _]
  have hperilus : app.reset.perilus = app.perilus.resetPulse := SimApp.syncPc_perilus _
  obtain ⟨hpanes, hstate, hcycles⟩ :=
    syncPc_panes { app with perilus := app.perilus.resetPulse, runState := .idle }
  have hpanes' : SamePanes app.reset t := h.panes.congr hpanes
  refine ⟨⟨?_, ?_, fun _ => hcopy⟩, hpanes'.withRun _ _ _, hstate, hcycles.trans h.runCycles⟩
  · rw [hperilus]
    rfl
  · rw [hperilus]
    exact hin

theorem runToPc (h : Shows app t) (target : BitVec 32) :
    Shows (app.runToPc target) (t.runToPc target) := by
  have hpanes : SamePanes (app.runToPc target) t := h.panes.congr rfl
  exact ⟨h.machine.congr rfl rfl, hpanes.withRun _ _ _, rfl, rfl⟩

/-- The word under the cursor, as a number. -/
theorem toNat_cursorWord (h : Shows app t) : app.cursorWord.toNat = t.byte / 4 * 4 := by
  rw [← h.panes.toNat_memAddr]
  exact Bits.toNat_and_not_low app.memAddr 2

/-- **The pc set to the cursor.** -/
theorem setPcToCursor (h : Shows app t)
    (hexec : (t.edit ({ · with pc := t.byte / 4 * 4 })) = some t') :
    Shows app.setPcToCursor t' := by
  obtain ⟨h0, rfl⟩ := edit_eq_some hexec
  rw [← h.toNat_cursorWord]
  exact h.withTimed ((h.machine.writePc h0 app.cursorWord).congr rfl rfl) rfl rfl rfl

theorem runToCursor (h : Shows app t) :
    Shows app.runToCursor (t.runToPc (BitVec.ofNat 32 (t.byte / 4 * 4))) := by
  rw [← h.toNat_cursorWord, BitVec.ofNat_toNat, BitVec.setWidth_eq]
  exact h.runToPc app.cursorWord

/-- The memory cursor on a digit of a byte, by its address. -/
theorem select (h : Shows app t) (view : ViewMode) (a : Fin memoryBytes) (nib : Fin 2)
    {addr : BitVec 32} (haddr : addr.toNat = a) :
    Shows { app with view, memAddr := addr, memNib := nib }
      (IsaApp.select { t with view } a nib) where
  machine := h.machine.congr rfl rfl
  panes := by
    refine ⟨rfl, h.panes.focus, h.panes.addressInput, ?_, h.panes.cell, h.panes.regNib⟩
    exact SimApp.cursorAt_bytePosition a nib haddr rfl
  runState := h.runState
  runCycles := h.runCycles

/-- The focus moved, and what the reference does not have. -/
theorem withFocus (h : Shows app t) (focus : Focus) (scrollToRow : Option ℕ) (status : String) :
    Shows { app with focus, scrollToRow, status } { t with focus } where
  machine := h.machine.congr rfl rfl
  panes := ⟨h.panes.view, rfl, h.panes.addressInput, ⟨h.panes.digit.lt, h.panes.digit.place⟩,
    h.panes.cell, h.panes.regNib⟩
  runState := h.runState
  runCycles := h.runCycles

/-- The run state set. -/
theorem withRunState (h : Shows app t) (runState : RunState) (status : String) :
    Shows { app with runState, status } { t with runState } where
  machine := h.machine.congr rfl rfl
  panes := h.panes.withRun _ _ _ |>.congr rfl
  runState := rfl
  runCycles := h.runCycles

/-- **The other view**, with the cursor on the same digit. -/
theorem toggleView (h : Shows app t) (view : ViewMode) :
    Shows { app with view } (IsaApp.select { t with view } t.byte (Fin.ofNat 2 t.digit)) := by
  have hselect := h.select view t.byte (Fin.ofNat 2 t.digit) h.panes.toNat_memAddr
  rw [Fin.val_ofNat, ← h.panes.memNib] at hselect
  exact hselect

/-- **A jump.** -/
theorem jumpToAddress (h : Shows app t) {t' : IsaApp}
    (hexec : t.exec .jumpToAddress = some t') : Shows app.jumpToAddress t' := by
  rw [IsaApp.exec, ← h.panes.addressInput] at hexec
  rw [SimApp.jumpToAddress]
  rcases hparse : parseHex app.addressInput with - | addr
  · rw [hparse] at hexec
    exact Option.some.inj hexec ▸ h.withTimed (h.machine.congr rfl rfl) rfl rfl rfl
  · rw [hparse] at hexec
    obtain rfl := Option.some.inj hexec
    have hmask : (addr &&& (BitVec.ofNat 32 Simulator.memorySizeBytes - 1)).toNat =
        Fin.ofNat memoryBytes addr.toNat := by
      rw [BitVec.toNat_and]
      exact Nat.and_two_pow_sub_one_eq_mod addr.toNat 22
    have hselect := h.select app.view _ 0 hmask
    rw [show ({ t with view := app.view } : IsaApp) = t by rw [h.panes.view]] at hselect
    exact hselect.withFocus .memory _ _

theorem selectMemory (h : Shows app t) (row : Fin SimApp.totalRows) (col : Fin 64) :
    ∃ app', (app.select row col).map ({ · with focus := .memory }) = some app' ∧
      Shows app' { t with digit := rowDigit row col, focus := .memory } := by
  rw [SimApp.select_eq row.val col.isLt]
  exact ⟨_, rfl, (h.withDigit (rowDigit row col)).withFocus .memory _ _⟩

theorem selectRegister (h : Shows app t) (col : Fin 4) (row nib : Fin 8) :
    Shows { app with regIndex := min (col * 8 + row) 31, regNib := nib, focus := .registers }
      { t with cell := gridCell col row nib, focus := .registers } := by
  refine ⟨h.machine.congr rfl rfl, ⟨h.panes.view, rfl, h.panes.addressInput,
    ⟨h.panes.digit.lt, h.panes.digit.place⟩, ?_, nib.isLt⟩, h.runState, h.runCycles⟩
  dsimp only [gridCell]
  omega

/-- **One command.** -/
theorem exec (h : Shows app t) {c : Command} (hexec : t.exec c = some t') :
    ∃ app', app.exec c = some app' ∧ Shows app' t' := by
  cases c with
  | simulator op => cases hexec
  | stepCycle => exact ⟨_, rfl, h.stepCycle hexec⟩
  | nextInstruction => exact ⟨_, rfl, h.nextInstruction hexec⟩
  | reset => exact ⟨_, rfl, Option.some.inj hexec ▸ h.reset⟩
  | loadPath path contents =>
    rcases contents with e | image
    · exact Option.some.inj hexec ▸ h.loadPath_error path rfl
    · rw [IsaApp.exec] at hexec
      split at hexec
      · next hlen => exact Option.some.inj hexec ▸ h.loadPath_error path (if_pos hlen)
      · next hlen => exact h.loadPath (Nat.not_lt.1 hlen) hexec
  | runToPc target => exact ⟨_, rfl, Option.some.inj hexec ▸ h.runToPc target⟩
  | runToInputPc =>
    refine ⟨_, rfl, ?_⟩
    rw [IsaApp.exec, ← h.panes.addressInput] at hexec
    rw [SimApp.runToInputPc]
    rcases hparse : parseHex app.addressInput with - | target <;> rw [hparse] at hexec
    · exact Option.some.inj hexec ▸ h.withTimed (h.machine.congr rfl rfl) rfl rfl rfl
    · exact Option.some.inj hexec ▸ h.runToPc target
  | runToCursor => exact ⟨_, rfl, Option.some.inj hexec ▸ h.runToCursor⟩
  | toggleFreeRun =>
    obtain rfl := Option.some.inj hexec
    rw [← h.runState]
    exact ⟨_, rfl, h.withRunState _ _⟩
  | stop =>
    obtain rfl := Option.some.inj hexec
    exact ⟨_, rfl, h.withRunState _ _⟩
  | frame budget => exact ⟨_, rfl, h.logic hexec⟩
  | setPcToCursor => exact ⟨_, rfl, h.setPcToCursor hexec⟩
  | editNibble nibble => exact h.editNibble hexec
  | backspace => exact h.backspace hexec
  | clearCursor => exact h.clearCursor hexec
  | moveCursor direction => exact Option.some.inj hexec ▸ h.moveCursor direction
  | moveMemoryGroup forward =>
    rw [IsaApp.exec] at hexec
    rw [SimApp.exec, h.panes.focus]
    split at hexec
    · next hf =>
      obtain rfl := Option.some.inj hexec
      rw [if_pos hf, SimApp.moveMemoryGroup_grid h.panes.digit, SimApp.group, h.panes.view]
      exact ⟨_, rfl, h.withDigit _⟩
    · next hf =>
      rw [if_neg hf]
      exact ⟨app, rfl, Option.some.inj hexec ▸ h⟩
  | jumpToAddress => exact ⟨_, rfl, h.jumpToAddress hexec⟩
  | scrollPage down =>
    exact ⟨_, rfl, Option.some.inj hexec ▸ h.withTimed (h.machine.congr rfl rfl) rfl rfl rfl⟩
  | toggleView =>
    obtain rfl := Option.some.inj hexec
    rw [IsaApp.toggleView, ← h.panes.view]
    exact ⟨_, rfl, h.toggleView _⟩
  | setFocus focus => exact ⟨_, rfl, Option.some.inj hexec ▸ h.withFocus focus _ _⟩
  | selectMemory row col => exact Option.some.inj hexec ▸ h.selectMemory row col
  | selectRegister col row nib =>
    exact ⟨_, rfl, Option.some.inj hexec ▸ h.selectRegister col row nib⟩
  | typeAddress text =>
    obtain rfl := Option.some.inj hexec
    refine ⟨_, rfl, h.machine.congr rfl rfl, ?_, h.runState, h.runCycles⟩
    exact ⟨h.panes.view, h.panes.focus, rfl, ⟨h.panes.digit.lt, h.panes.digit.place⟩,
      h.panes.cell, h.panes.regNib⟩
  | showRows rows =>
    exact ⟨_, rfl, Option.some.inj hexec ▸ h.withTimed (h.machine.congr rfl rfl) rfl rfl rfl⟩

end Shows

/-- Both start alike. -/
theorem shows_new : Shows SimApp.new IsaApp.new where
  machine := ⟨rfl, .of_fetch rfl, fun _ => rfl⟩
  panes := ⟨rfl, rfl, rfl, ⟨by decide, by decide⟩, rfl, by decide⟩
  runState := rfl
  runCycles := rfl

/-- **The debugger debugs the reference.** Whatever commands a session is
made of: if the reference debugger takes them all, so does the application,
and it shows the reference's panes over a design in step with its machine;
at the start of a word that is the machine a program sees, with its pc on
display. -/
theorem session_shows (cs : List Command) {t : IsaApp}
    (h : run IsaApp.exec cs IsaApp.new = some t) :
    ∃ app, run SimApp.exec cs SimApp.new = some app ∧ Shows app t ∧
      (t.timed.phase = 0 → app.perilus.rtl.arch.isa = t.timed.machine ∧
        app.currentPc.toNat = t.timed.machine.pc) := by
  obtain ⟨app, hrun, hshows⟩ := run_of_simulates (fun h => h.exec) shows_new h
  refine ⟨app, hrun, hshows, ?_⟩
  intro h0
  have hisa := hshows.machine.lockstep.isa h0
  refine ⟨hisa, ?_⟩
  rw [hshows.machine.currentPc h0, ← hisa]
  rfl

/-- `addi x1, x0, 5` loaded, its immediate typed over with a 7, and
executed. -/
theorem session_shows_addi :
    ∃ app, run SimApp.exec [.loadPath "addi.bin" (.ok [0x93, 0x00, 0x50, 0x00]),
        .selectMemory ⟨0, by decide⟩ 2, .editNibble 7, .nextInstruction] SimApp.new = some app ∧
      app.perilus.rtl.arch.isa.x 1 = 7 := by
  obtain ⟨app, hrun, -, hisa⟩ := session_shows
    [.loadPath "addi.bin" (.ok [0x93, 0x00, 0x50, 0x00]), .selectMemory ⟨0, by decide⟩ 2,
      .editNibble 7, .nextInstruction] rfl
  refine ⟨app, hrun, ?_⟩
  rw [(hisa rfl).1]
  rfl

end Perilus

import Perilus.Gui.Bounds
import Perilus.Gui.Helpers.Editing
/-!
# Debugger — the panes are lines of digits

Whatever the design is doing, the keys and the mouse edit memory and the
register grid as an editor in overwrite mode does, and nothing else.
-/

namespace Perilus

open ByteMemory Digits Transition

/-- **A key taken**, and what it has done. -/
structure Pressed (app : SimApp) (key : EditKey) (app' : SimApp) : Prop where
  exec : app.exec key.command = some app'
  editor : app'.editor = app.editor.press key
  edited : Edited app app'

namespace SimApp

variable {app app' : SimApp} {p : Fin memoryDigits} {c : Fin 256}

/-! ## Keys -/

/-- A key that does nothing to the line with the focus. -/
theorem pressed_same {key : EditKey} (hexec : app.exec key.command = some app)
    (hpress : app.editor.press key = app.editor) : Pressed app key app :=
  ⟨hexec, hpress.symm, .refl app⟩

/-- **Typing.** -/
theorem pressed_digit (hp : app.CursorAt p) (hc : app.GridAt c) (d : BitVec 4) :
    ∃ app', Pressed app (.digit d) app' := by
  rcases hf : app.focus with - | -
  · have hnib := hc.regNib
    obtain ⟨app', hwrite, heditor, hedited⟩ :=
      hc.writes (fun v => toNat_setNibble v (by omega) d) .right
    refine ⟨app', (editNibble_registers hf hnib d).trans hwrite, ?_, hedited⟩
    rw [heditor, Editor.press, change_registers _ _ hf]
  · obtain ⟨byte, perilus, app', hbyte, hset, hmove, heditor, hedited⟩ := hp.writes d .right
    refine ⟨app', (editNibble_memory hf hbyte hset).trans hmove, ?_, hedited⟩
    rw [heditor, Editor.press, change_memory _ _ hf]

/-- **`backspace`.** -/
theorem pressed_backspace (hp : app.CursorAt p) (hc : app.GridAt c) :
    ∃ app', Pressed app .backspace app' := by
  rcases hf : app.focus with - | -
  · have hpress : app.editor.press .backspace =
        { app.editor with grid := app.gridLine.erase 8 } := by
      rw [Editor.press, change_registers _ _ hf]
    have hcell := hc.cell
    have hnib := hc.regNib
    rw [Line.erase, hc.gridLine_cursor] at hpress
    by_cases hstart : c.val = 0
    · -- the early return of the source
      rw [if_pos hstart] at hpress
      refine ⟨app, pressed_same ?_ hpress⟩
      change app.backspace = some app
      rw [backspace, hf]
      exact if_pos (by omega)
    · rw [if_neg hstart] at hpress
      obtain ⟨app', hwrite, heditor, hedited⟩ :=
        hc.writes (d := 0) (fun v => toNat_clearNibble v (by omega)) .left
      exact ⟨app', (backspace_registers hf hnib (by omega)).trans hwrite,
        heditor.trans hpress.symm, hedited⟩
  · have hpress : app.editor.press .backspace =
        { app.editor with memory := app.memoryLine.erase 64 } := by
      rw [Editor.press, change_memory _ _ hf]
    rw [Line.erase, hp.memoryLine_cursor] at hpress
    by_cases hstart : p.val = 0
    · rw [if_pos hstart] at hpress
      refine ⟨app, pressed_same ?_ hpress⟩
      change app.backspace = some app
      rw [backspace, hf]
      exact if_pos (hp.first_iff.2 hstart)
    · rw [if_neg hstart] at hpress
      obtain ⟨byte, perilus, app', hbyte, hset, hmove, heditor, hedited⟩ := hp.writes 0 .left
      exact ⟨app', (backspace_memory hf hp (Nat.pos_of_ne_zero hstart) hbyte hset).trans hmove,
        heditor.trans hpress.symm, hedited⟩

/-- What `clear_cursor` does to the register grid. -/
theorem clearCursor_registers (hf : app.focus = .registers) (hindex : app.regIndex < 32) :
    ∃ status, app.clearCursor = some { app.withCell fun _ => 0 with status } := by
  rw [clearCursor, withCell]
  split
  · next hmemory => cases hf.symm.trans hmemory
  · split
    · exact ⟨_, rfl⟩
    · rw [register_new_of_lt hindex]
      exact ⟨_, rfl⟩

/-- And to memory, as one store. -/
theorem clearCursor_memory (hf : app.focus = .memory) (hp : app.CursorAt p) :
    ∃ memory status a w, app.clearCursor =
        some { app with perilus := app.perilus.withMemory memory, status } ∧
      Memory.flat memory = store (Memory.flat app.perilus.rtl.memory) a w 0 ∧
      ∀ q, (a ≤ digitByte app.view q ∧ digitByte app.view q < a + w) ↔
        q / app.view.group = p / app.view.group := by
  have haddr := hp.toNat_memAddr
  have hlt : app.memAddr.toNat < Simulator.memorySizeBytes := by
    rw [haddr]
    exact digitByte_lt app.view p.isLt
  rw [clearCursor]
  split
  · split
    · next hview =>
      dsimp only
      rw [app.perilus.setMemory_of_lt (Simulator.word_of_byte hlt).1]
      refine ⟨_, _, _, _, rfl, Memory.flat_stored _ _ .word 0, ?_⟩
      intro q
      rw [DataMask.width, place_word_of hlt, haddr, hview]
      simp only [digitByte, ViewMode.group]
      omega
    · next hview =>
      rw [app.perilus.setMemoryByte_of_lt hlt]
      refine ⟨_, _, _, _, rfl, Memory.flat_stored_byte _ hlt 0, ?_⟩
      intro q
      rw [haddr, hview]
      simp only [digitByte, ViewMode.group]
      omega
  · next hregisters => cases hf.symm.trans hregisters

/-- **Clearing.** -/
theorem pressed_clear (hp : app.CursorAt p) (hc : app.GridAt c) :
    ∃ app', Pressed app .clear app' := by
  rcases hf : app.focus with - | -
  · obtain ⟨status, hclear⟩ := clearCursor_registers hf hc.regIndex_lt
    refine ⟨_, hclear, ?_, (withCell_edited hc.regIndex_lt).trans ⟨rfl, .inl ⟨rfl, rfl⟩, rfl⟩⟩
    rw [Editor.press, change_registers _ _ hf, ← hc.gridLine_clear, ← withCell_editor]
    rfl
  · obtain ⟨memory, status, a, w, hclear, hflat, hgroup⟩ := clearCursor_memory hf hp
    refine ⟨_, hclear, ?_, rfl, .inl ⟨rfl, rfl⟩, rfl⟩
    rw [hp.clears hflat hgroup status, Editor.press, change_memory _ _ hf]
    rfl

/-- **The arrows.** -/
theorem pressed_move (hp : app.CursorAt p) (hc : app.GridAt c) (direction : Direction) :
    ∃ app', Pressed app (.move direction) app' := by
  have hexec : app.exec (EditKey.move direction).command = app.moveCursor direction := rfl
  rcases hf : app.focus with - | - <;> rw [SimApp.moveCursor, hf] at hexec
  · obtain ⟨app', hmove, heditor, hedited⟩ := hc.moves direction
    refine ⟨app', hexec.trans hmove, ?_, hedited⟩
    rw [heditor, Editor.press, change_registers _ _ hf, hc.gridLine_cursor]
  · refine ⟨_, hexec.trans (moveMemory_grid hp direction), ?_, withCursor_edited⟩
    rw [withCursor_editor, Editor.press, change_memory _ _ hf, hp.memoryLine_cursor]

theorem pressed_group (hp : app.CursorAt p) (forward : Bool) :
    ∃ app', Pressed app (.group forward) app' := by
  have hexec : app.exec (EditKey.group forward).command =
      if app.focus = .memory then app.moveMemoryGroup forward else some app := rfl
  rcases hf : app.focus with - | -
  · rw [hf, if_neg (by decide)] at hexec
    refine ⟨app, pressed_same hexec ?_⟩
    rw [Editor.press, change_registers _ _ hf]
    rfl
  · rw [if_pos hf] at hexec
    refine ⟨_, hexec.trans (moveMemoryGroup_grid hp forward), ?_, withCursor_edited⟩
    rw [withCursor_editor, Editor.press, change_memory _ _ hf, hp.memoryLine_cursor]
    rfl

/-- **The other view** shows the same digits elsewhere. -/
theorem pressed_view (hp : app.CursorAt p) : ∃ app', Pressed app .view app' := by
  have hat : CursorAt { app with view := app.view.other }
      (reposition app.view app.view.other p) := by
    obtain ⟨hbyte, hnib⟩ := digitByte_bytePosition app.view.other (digitByte app.view p)
      (Nat.mod_lt p (Nat.succ_pos 1))
    refine ⟨(reposition app.view app.view.other p).isLt, ?_⟩
    rw [digitPlace_eq, digitByte_eq, reposition]
    dsimp only
    rw [hbyte, hnib, ← hp.toNat_memAddr, ← hp.memNib]
  have hline : SimApp.memoryLine { app with view := app.view.other } =
      { digits := fun q => app.memoryLine.digits (reposition app.view.other app.view q)
        cursor := reposition app.view app.view.other app.memoryLine.cursor } := by
    refine Line.ext ?_ (hat.memoryLine_cursor.trans (by rw [hp.memoryLine_cursor]))
    funext q
    -- one byte and one nibble of it, at a position of each view
    obtain ⟨hbyte, hnib⟩ := digitByte_bytePosition app.view (digitByte app.view.other q)
      (Nat.mod_lt q (Nat.succ_pos 1))
    dsimp only
    rw [memoryLine_digits, memoryLine_digits, reposition]
    dsimp only
    rw [hbyte, hnib]
  refine ⟨{ app with view := app.view.other }, ?_, ?_, rfl, .inl ⟨rfl, rfl⟩, rfl⟩
  · change some { app with view := _ } = some { app with view := _ }
    cases app.view <;> rfl
  · change Editor.mk (SimApp.memoryLine { app with view := app.view.other }) _ _ _ = _
    rw [hline]
    rfl

/-- **A click on a digit of memory.** -/
theorem pressed_clickMemory (row : Fin totalRows) (col : Fin 64) :
    Pressed app (.clickMemory row col)
      { app.withCursor (rowDigit row col) with focus := .memory } where
  exec := congrArg (Option.map _) (select_eq row.val col.isLt)
  editor := by
    have heditor : (app.withCursor (rowDigit row col)).editor =
        { app.editor with memory := app.memoryLine.moveTo (rowDigit row col) } := withCursor_editor
    exact congrArg (fun e : Editor => { e with focus := .memory }) heditor
  edited := ⟨rfl, .inl ⟨rfl, rfl⟩, rfl⟩

/-- **A click on a digit of the register grid.** -/
theorem pressed_clickRegister (col : Fin 4) (row nib : Fin 8) :
    Pressed app (.clickRegister col row nib)
      { app with
        regIndex := min (col * 8 + row) (numCells - 1), regNib := nib, focus := .registers } where
  exec := rfl
  editor := by
    -- no cell of the grid is beyond the last, so nothing is cut off
    have hcells : numCells = 32 := rfl
    have hat : GridAt
        { app with
          regIndex := min (col * 8 + row) (numCells - 1), regNib := nib, focus := .registers }
        (gridCell col row nib) := by
      refine ⟨?_, nib.isLt⟩
      dsimp only [gridCell]
      omega
    change Editor.mk _ (SimApp.gridLine _) _ _ = _
    rw [show SimApp.gridLine
        { app with
          regIndex := min (col * 8 + row) (numCells - 1), regNib := nib, focus := .registers } =
      app.gridLine.moveTo (gridCell col row nib) from Line.ext rfl hat.gridLine_cursor]
    rfl
  edited := ⟨rfl, .inl ⟨rfl, rfl⟩, rfl⟩

/-- **One key.** -/
theorem InBounds.pressed (h : app.InBounds) (key : EditKey) : ∃ app', Pressed app key app' := by
  obtain ⟨q, hq⟩ := h.exists_cursorAt
  have hp : app.CursorAt (⟨q, hq.lt⟩ : Fin memoryDigits) := hq
  have hindex := h.regIndex
  have hnib := h.regNib
  have hc : app.GridAt ⟨8 * app.regIndex + app.regNib, by omega⟩ := ⟨rfl, by omega⟩
  cases key with
  | digit d => exact pressed_digit hp hc d
  | backspace => exact pressed_backspace hp hc
  | clear => exact pressed_clear hp hc
  | move direction => exact pressed_move hp hc direction
  | group forward => exact pressed_group hp forward
  | view => exact pressed_view hp
  | focus pane => exact ⟨{ app with focus := pane }, rfl, rfl, rfl, .inl ⟨rfl, rfl⟩, rfl⟩
  | clickMemory row col => exact ⟨_, pressed_clickMemory row col⟩
  | clickRegister col row nib => exact ⟨_, pressed_clickRegister col row nib⟩

/-- No key leaves the model. -/
theorem InBounds.of_pressed (h : app.InBounds) {key : EditKey} (hpressed : Pressed app key app') :
    app'.InBounds := by
  have hkey : GuiCommand app key.command := by cases key <;> trivial
  obtain ⟨app'', hexec, hin⟩ := h.exec hkey
  rw [hpressed.exec] at hexec
  exact Option.some.inj hexec ▸ hin

/-- **Key after key.** -/
theorem InBounds.typed (h : app.InBounds) (keys : List EditKey) :
    ∃ app', run SimApp.exec (keys.map EditKey.command) app = some app' ∧
      app'.editor = keys.foldl Editor.press app.editor ∧ Edited app app' := by
  induction keys generalizing app with
  | nil => exact ⟨app, rfl, rfl, .refl app⟩
  | cons key keys ih =>
    obtain ⟨app₁, hpressed⟩ := h.pressed key
    obtain ⟨app', hrun, heditor, hedited⟩ := ih (h.of_pressed hpressed)
    refine ⟨app', ?_, ?_, hpressed.edited.trans hedited⟩
    · rw [List.map_cons, run, hpressed.exec, Option.bind_some, hrun]
    · rw [List.foldl_cons, ← hpressed.editor, heditor]

end SimApp

/-- **The panes are two lines of digits.** Wherever a session has got to,
in the middle of an instruction or of a run too, any keys and clicks do to
memory and to the register grid what they do to the two lines of an
editor, and nothing else; and the lines hold all of memory and of the
cells. -/
theorem editing_lines {app : SimApp} (h : Reachable SimApp.exec GuiCommand SimApp.new app)
    (keys : List EditKey) :
    ∃ app', run SimApp.exec (keys.map EditKey.command) app = some app' ∧
      app'.editor = keys.foldl Editor.press app.editor ∧ Edited app app' ∧
      ∀ other : SimApp, other.editor = app'.editor →
        other.perilus.rtl.memory = app'.perilus.rtl.memory ∧ ∀ i, other.cell i = app'.cell i := by
  have hin : app.InBounds := by
    refine h.invariant SimApp.new_inBounds ?_
    intro s s' c hs hc hexec
    obtain ⟨s₁, hexec', hs₁⟩ := hs.exec hc
    rw [hexec, Option.some.injEq] at hexec'
    exact hexec' ▸ hs₁
  obtain ⟨app', hrun, heditor, hedited⟩ := hin.typed keys
  refine ⟨app', hrun, heditor, hedited, ?_⟩
  intro other hother
  have hview : other.view = app'.view := congrArg Editor.view hother
  exact ⟨SimApp.memory_eq_of_line hview (congrArg Editor.memory hother),
    SimApp.cell_eq_of_line (congrArg Editor.grid hother)⟩

/-- Two digits typed into `x1` while the first word is decoded. -/
theorem editing_lines_decode :
    ∃ app', run SimApp.exec [.selectRegister 0 1 6, .editNibble 0xa, .editNibble 5]
        SimApp.new.stepCycle = some app' ∧
      app'.perilus.rtl.state = .decode ∧ app'.gridLine.cursor = gridCell 0 2 0 ∧
      app'.gridLine.digits (gridCell 0 1 6) = 0xa ∧ app'.gridLine.digits (gridCell 0 1 7) = 5 := by
  obtain ⟨app', hrun, heditor, hedited, -⟩ := editing_lines
    (.next .stepCycle .init trivial rfl) [.clickRegister 0 1 6, .digit 0xa, .digit 5]
  have hgrid := congrArg Editor.grid heditor
  change app'.gridLine = _ at hgrid
  refine ⟨app', hrun, ?_, ?_, ?_, ?_⟩
  · rw [hedited.rest]
    rfl
  · rw [hgrid]
    rfl
  · rw [hgrid]
    rfl
  · rw [hgrid]
    rfl

end Perilus

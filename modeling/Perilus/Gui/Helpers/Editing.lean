import Perilus.Gui.Model.Editor
import Perilus.Gui.Reference
/-!
# Debugger — its panes as lines of digits

What memory and the register grid hold, digit by digit, and what the
application's writes and moves do to it.
-/

namespace Perilus

open ByteMemory Digits

/-! ## The panes -/

namespace SimApp

variable (app : SimApp)

/-- What a cell of the register grid shows. -/
def cell (i : Fin 32) : BitVec 32 := if i = 0 then app.currentPc else app.perilus.getRegisters i

theorem memoryCursor_lt (n : ℕ) : n % memoryDigits < memoryDigits :=
  Nat.mod_lt n (by decide)

def memoryLine : Line memoryDigits where
  digits p := (app.digitAt p).getD 0
  cursor :=
    ⟨(bytePosition app.view app.memAddr.toNat + app.memNib) % memoryDigits, memoryCursor_lt _⟩

theorem gridCell_lt (k : Fin 256) : k.val / 8 < 32 := by
  omega

theorem gridCursor_lt (n : ℕ) : n % 256 < 256 := Nat.mod_lt n (by decide)

def gridLine : Line 256 where
  digits k := BitVec.ofNat 4 (digit 16 (app.cell ⟨k / 8, gridCell_lt k⟩).toNat (7 - k % 8))
  cursor := ⟨(8 * app.regIndex + app.regNib) % 256, gridCursor_lt _⟩

/-- **The panes, as the lines of an editor.** -/
def editor : Editor where
  memory := app.memoryLine
  grid := app.gridLine
  view := app.view
  focus := app.focus

end SimApp

/-- **Nothing but the panes has changed**: the design keeps its state and
its buffers, the pc is as it was or the one on display, and `x0` is not
among the cells. -/
structure Edited (app app' : SimApp) : Prop where
  rest : app' =
    { app with
      perilus :=
        { app.perilus with
          rtl :=
            { app.perilus.rtl with
              pc := app'.perilus.rtl.pc
              registerFile := app'.perilus.rtl.registerFile
              memory := app'.perilus.rtl.memory } }
      currentPc := app'.currentPc
      view := app'.view
      focus := app'.focus
      memAddr := app'.memAddr
      memNib := app'.memNib
      regIndex := app'.regIndex
      regNib := app'.regNib
      status := app'.status }
  pc : (app'.perilus.getPc = app.perilus.getPc ∧ app'.currentPc = app.currentPc) ∨
    app'.perilus.getPc = app'.currentPc
  zero : app'.perilus.getRegisters 0 = app.perilus.getRegisters 0

namespace Edited

variable {app app' app'' : SimApp}

theorem refl (app : SimApp) : Edited app app := ⟨rfl, .inl ⟨rfl, rfl⟩, rfl⟩

theorem trans (h : Edited app app') (h' : Edited app' app'') : Edited app app'' where
  rest := h'.rest.trans (by rw [h.rest])
  pc := by
    -- a pc once written is the one on display from then on
    rcases h'.pc with ⟨hpc, hcopy⟩ | hsame
    · rw [hpc, hcopy]
      exact h.pc
    · exact .inr hsame
  zero := h'.zero.trans h.zero

end Edited

section Change

variable {app : SimApp} (f : Line memoryDigits → Line memoryDigits) (g : Line 256 → Line 256)

theorem SimApp.change_memory (h : app.focus = .memory) :
    app.editor.change f g = { app.editor with memory := f app.memoryLine } := by
  rw [Editor.change]
  split
  · rfl
  · next hregisters => cases h.symm.trans hregisters

theorem SimApp.change_registers (h : app.focus = .registers) :
    app.editor.change f g = { app.editor with grid := g app.gridLine } := by
  rw [Editor.change]
  split
  · next hmemory => cases h.symm.trans hmemory
  · rfl

end Change

/-! ## Memory -/

theorem bytePosition_digitByte (view : ViewMode) (p : ℕ) :
    bytePosition view (digitByte view p) + p % 2 = p := by
  cases view <;> simp only [digitByte, bytePosition] <;> omega

theorem nibbleOf_zero (nib : ℕ) : nibbleOf 0 nib = 0 := by
  rw [nibbleOf]
  split <;> rfl

namespace SimApp

variable {app app' : SimApp} {p : Fin memoryDigits} {direction : Direction}

theorem CursorAt.memoryLine_cursor (h : app.CursorAt p) : app.memoryLine.cursor = p := by
  refine Fin.ext ?_
  change (bytePosition app.view app.memAddr.toNat + app.memNib) % memoryDigits = p
  rw [h.toNat_memAddr, h.memNib, bytePosition_digitByte]
  exact Nat.mod_eq_of_lt p.isLt

/-- A digit, from the bytes of memory. -/
theorem memoryLine_digits (p : Fin memoryDigits) : app.memoryLine.digits p =
    nibbleOf (byteAt (Memory.flat app.perilus.rtl.memory) (digitByte app.view p)) (p % 2) := by
  have haddr := toNat_digitAddr app.view p.isLt
  have hlt := digitPlace_lt app.view p.isLt
  change (app.digitAt p).getD 0 = _
  rw [digitAt_eq, Simulator.getMemoryByte_flat _ (haddr.trans_lt hlt), haddr, digitByte_eq]
  rfl

theorem Wrote.memoryLine {d : BitVec 4} (hw : app.Wrote p d (gridMove 64 direction p) app')
    (h : app.CursorAt p) : app'.memoryLine = app.memoryLine.write 64 d direction := by
  refine Line.ext ?_ ?_
  · funext q
    change (app'.digitAt q).getD 0 =
      Function.update app.memoryLine.digits app.memoryLine.cursor d q
    rw [hw.digitAt q q.isLt, h.memoryLine_cursor, Function.update_apply]
    by_cases hq : q = p
    · rw [if_pos (congrArg Fin.val hq), if_pos hq]
      rfl
    · rw [if_neg (mt Fin.ext hq), if_neg hq]
      rfl
  · change app'.memoryLine.cursor = gridMove 64 direction app.memoryLine.cursor
    rw [hw.cursor.memoryLine_cursor, h.memoryLine_cursor]

/-- **A digit of memory written**, and a move. -/
theorem CursorAt.writes (h : app.CursorAt p) (d : BitVec 4) (direction : Direction) :
    ∃ byte perilus app', app.perilus.getMemoryByte app.memAddr = some byte ∧
      app.perilus.setMemoryByte app.memAddr (setNibble byte app.memNib d) = some perilus ∧
      SimApp.moveMemory { app with perilus } direction = some app' ∧
      app'.editor = { app.editor with memory := app.memoryLine.write 64 d direction } ∧
      Edited app app' := by
  obtain ⟨byte, memory, hbyte, hset, hwrote⟩ := h.write d
  have h₁ : CursorAt { app with perilus := app.perilus.withMemory memory } p := ⟨h.lt, h.place⟩
  refine ⟨byte, _, _, hbyte, hset, moveMemory_grid h₁ direction, ?_, rfl, .inl ⟨rfl, rfl⟩, rfl⟩
  rw [← (hwrote _ (gridMove 64 direction p).isLt).memoryLine h]
  rfl

/-- **The cursor moved**, and nothing else. -/
theorem withCursor_editor :
    (app.withCursor p).editor = { app.editor with memory := app.memoryLine.moveTo p } := by
  have hat : (app.withCursor p).CursorAt p := withCursor_cursorAt p.isLt
  rw [← show (app.withCursor p).memoryLine = app.memoryLine.moveTo p from
    Line.ext rfl hat.memoryLine_cursor]
  rfl

theorem withCursor_edited : Edited app (app.withCursor p) := ⟨rfl, .inl ⟨rfl, rfl⟩, rfl⟩

/-- **A group of digits cleared**, from the bytes stored. -/
theorem CursorAt.clears (h : app.CursorAt p) {memory : Words memoryBits} {a w g : ℕ}
    (hflat : Memory.flat memory = store (Memory.flat app.perilus.rtl.memory) a w 0)
    (hgroup : ∀ q, (a ≤ digitByte app.view q ∧ digitByte app.view q < a + w) ↔ q / g = p / g)
    (status : String) :
    SimApp.editor { app with perilus := app.perilus.withMemory memory, status } =
      { app.editor with memory := app.memoryLine.clear g } := by
  have hline : SimApp.memoryLine { app with perilus := app.perilus.withMemory memory, status } =
      app.memoryLine.clear g := by
    refine Line.ext ?_ rfl
    funext q
    have hq := digitByte_lt app.view q.isLt
    change _ = if q.val / g = app.memoryLine.cursor / g then 0 else app.memoryLine.digits q
    rw [memoryLine_digits, memoryLine_digits, h.memoryLine_cursor, Simulator.withMemory_memory,
      hflat, byteAt_of_lt _ hq, byteAt_of_lt _ hq, store, ← if_congr (hgroup q) rfl rfl]
    split
    · rw [Nat.zero_div]
      exact nibbleOf_zero _
    · rfl
  rw [← hline]
  rfl

/-! ## The register grid -/

/-- The register cursor is on a digit of the grid. -/
structure GridAt (app : SimApp) (c : Fin 256) : Prop where
  cell : 8 * app.regIndex + app.regNib = c
  regNib : app.regNib < 8

variable {c : Fin 256}

theorem GridAt.gridLine_cursor (h : app.GridAt c) : app.gridLine.cursor = c := by
  refine Fin.ext ?_
  change (8 * app.regIndex + app.regNib) % 256 = c
  rw [h.cell]
  exact Nat.mod_eq_of_lt c.isLt

/-- The cell under the register cursor changed. -/
def withCell (app : SimApp) (f : BitVec 32 → BitVec 32) : SimApp :=
  if app.regIndex = 0 then
    { app with perilus := app.perilus.setPc (f app.currentPc), currentPc := f app.currentPc }
  else
    let register := Fin.ofNat 32 app.regIndex
    { app with
      perilus := app.perilus.setRegister register (f (app.perilus.getRegisters register)) }

variable {f : BitVec 32 → BitVec 32}

theorem register_new_of_lt {n : ℕ} (h : n < 32) : Register.new n = some (Fin.ofNat 32 n) :=
  (dif_pos h).trans (congrArg some (Fin.ext (Nat.mod_eq_of_lt h).symm))

theorem writeCell_eq (hindex : app.regIndex < 32) (direction : Direction) :
    app.writeCell f direction = (app.withCell f).moveRegister direction := by
  rw [writeCell, withCell]
  split
  · rfl
  · rw [register_new_of_lt hindex]
    rfl

theorem getRegisters_setRegister (p : Simulator) (register i : Fin 32) (value : BitVec 32) :
    (p.setRegister register value).getRegisters i =
      if i = register then value else p.getRegisters i := by
  change Function.update p.rtl.registerFile (BitVec.ofNat 5 register) value (BitVec.ofNat 5 i) = _
  rw [Function.update_apply]
  refine if_congr ?_ rfl rfl
  have hi := i.isLt
  have hregister := register.isLt
  rw [← BitVec.toNat_inj, BitVec.toNat_ofNat, BitVec.toNat_ofNat, Fin.ext_iff]
  omega

theorem cell_withCell (hindex : app.regIndex < 32) (i : Fin 32) :
    (app.withCell f).cell i = if i.val = app.regIndex then f (app.cell i) else app.cell i := by
  rw [withCell]
  by_cases hzero : app.regIndex = 0
  · rw [if_pos hzero, hzero, cell, cell]
    by_cases hi : i = 0
    · have hval : i.val = 0 := congrArg Fin.val hi
      rw [if_pos hi, if_pos hi, if_pos hval]
    · have hval : i.val ≠ 0 := fun hval => hi (Fin.ext hval)
      rw [if_neg hi, if_neg hi, if_neg hval]
      rfl
  · -- the cell is a register, and not x0
    have hregister : (Fin.ofNat 32 app.regIndex).val = app.regIndex := Nat.mod_eq_of_lt hindex
    rw [if_neg hzero, cell, cell, getRegisters_setRegister]
    by_cases hi : i = 0
    · rw [if_pos hi, if_pos hi, if_neg fun h => hzero (h.symm.trans (congrArg Fin.val hi))]
    · rw [if_neg hi, if_neg hi]
      by_cases heq : i = Fin.ofNat 32 app.regIndex
      · rw [if_pos heq, if_pos (heq ▸ hregister), ← heq]
      · rw [if_neg heq, if_neg fun h => heq (Fin.ext (h.trans hregister.symm))]

theorem withCell_edited (hindex : app.regIndex < 32) : Edited app (app.withCell f) := by
  rw [withCell]
  split
  · exact ⟨rfl, .inr rfl, rfl⟩
  · next hzero =>
    refine ⟨rfl, .inl ⟨rfl, rfl⟩, ?_⟩
    have hregister : (Fin.ofNat 32 app.regIndex).val = app.regIndex := Nat.mod_eq_of_lt hindex
    refine (getRegisters_setRegister _ _ _ _).trans (if_neg fun h => hzero ?_)
    rw [← hregister, ← h]
    rfl

theorem withCell_editor :
    (app.withCell f).editor = { app.editor with grid := (app.withCell f).gridLine } := by
  rw [withCell]
  split <;> rfl

theorem GridAt.withCell (h : app.GridAt c) : (app.withCell f).GridAt c := by
  rw [SimApp.withCell]
  split <;> exact ⟨h.cell, h.regNib⟩

theorem GridAt.regIndex_lt (h : app.GridAt c) : app.regIndex < 32 := by
  have hc := h.cell
  have hlt := c.isLt
  omega

/-- A digit of the grid, by its cell. -/
theorem gridLine_digits (k : Fin 256) : ∃ i : Fin 32, i.val = k / 8 ∧
    ∀ app : SimApp, app.gridLine.digits k =
      BitVec.ofNat 4 (digit 16 (app.cell i).toNat (7 - k % 8)) :=
  ⟨⟨k / 8, gridCell_lt k⟩, rfl, fun _ => rfl⟩

/-- **A digit of a cell written.** -/
theorem GridAt.gridLine_write (h : app.GridAt c) {d : BitVec 4}
    (hf : ∀ v, (f v).toNat = setDigit 16 v.toNat (7 - app.regNib) d.toNat) :
    (app.withCell f).gridLine =
      { app.gridLine with
        digits := Function.update app.gridLine.digits app.gridLine.cursor d } := by
  refine Line.ext ?_ (h.withCell.gridLine_cursor.trans h.gridLine_cursor.symm)
  funext k
  have hc := h.cell
  have hnib := h.regNib
  obtain ⟨i, hi, hdigits⟩ := gridLine_digits k
  change _ = Function.update app.gridLine.digits app.gridLine.cursor d k
  rw [hdigits, cell_withCell h.regIndex_lt, hi, h.gridLine_cursor, Function.update_apply]
  by_cases hkc : k = c
  · rw [if_pos (by omega), if_pos hkc, hf, show 7 - k.val % 8 = 7 - app.regNib by omega,
      digit_setDigit_self d.isLt, BitVec.ofNat_toNat, BitVec.setWidth_eq]
  · -- the other digits of the cell keep their places in its number
    have hne := mt Fin.ext hkc
    rw [if_neg hkc, hdigits]
    split
    · rw [hf, digit_setDigit_of_ne d.isLt (by omega)]
    · rfl

/-- **A cell cleared.** -/
theorem GridAt.gridLine_clear (h : app.GridAt c) :
    (app.withCell fun _ => 0).gridLine = app.gridLine.clear 8 := by
  refine Line.ext ?_ (h.withCell.gridLine_cursor.trans h.gridLine_cursor.symm)
  funext k
  have hc := h.cell
  have hnib := h.regNib
  obtain ⟨i, hi, hdigits⟩ := gridLine_digits k
  change _ = if k.val / 8 = app.gridLine.cursor / 8 then 0 else app.gridLine.digits k
  rw [hdigits, hdigits, cell_withCell h.regIndex_lt, hi, h.gridLine_cursor,
    show c.val / 8 = app.regIndex by omega]
  split
  · change BitVec.ofNat 4 (0 / 16 ^ _ % 16) = 0
    rw [Nat.zero_div]
    rfl
  · rfl

/-- **The cursor moved.** -/
theorem GridAt.moves (h : app.GridAt c) (direction : Direction) :
    ∃ app', app.moveRegister direction = some app' ∧
      app'.editor =
        { app.editor with grid := app.gridLine.moveTo (gridMove 8 direction c) } ∧
      Edited app app' := by
  obtain ⟨index, nib, hmove, hcell, hnib⟩ := moveRegister_grid h.cell h.regNib direction
  have hat : GridAt { app with regIndex := index, regNib := nib } (gridMove 8 direction c) :=
    ⟨hcell, hnib⟩
  refine ⟨_, hmove, ?_, rfl, .inl ⟨rfl, rfl⟩, rfl⟩
  rw [← show SimApp.gridLine { app with regIndex := index, regNib := nib } =
    app.gridLine.moveTo (gridMove 8 direction c) from Line.ext rfl hat.gridLine_cursor]
  rfl

/-- **A digit of the grid written**, and a move. -/
theorem GridAt.writes (h : app.GridAt c) {d : BitVec 4}
    (hf : ∀ v, (f v).toNat = setDigit 16 v.toNat (7 - app.regNib) d.toNat) (direction : Direction) :
    ∃ app', app.writeCell f direction = some app' ∧
      app'.editor = { app.editor with grid := app.gridLine.write 8 d direction } ∧
      Edited app app' := by
  have hat : (app.withCell f).GridAt c := h.withCell
  obtain ⟨app', hmove, heditor, hedited⟩ := hat.moves direction
  refine ⟨app', (writeCell_eq h.regIndex_lt direction).trans hmove, ?_,
    (withCell_edited h.regIndex_lt).trans hedited⟩
  rw [heditor, withCell_editor, h.gridLine_write hf, Line.write, h.gridLine_cursor]
  rfl

/-! ## What the lines hold -/

/-- **A memory is its line of digits.** -/
theorem memory_eq_of_line (hview : app.view = app'.view) (h : app.memoryLine = app'.memoryLine) :
    app.perilus.rtl.memory = app'.perilus.rtl.memory := by
  -- every byte is on display, as the two digits from its position on
  refine Memory.flat_injective (funext fun a => ?_)
  have hnibble : ∀ nib : Fin 2, nibbleOf (Memory.flat app.perilus.rtl.memory a) nib =
      nibbleOf (Memory.flat app'.perilus.rtl.memory a) nib := by
    intro nib
    obtain ⟨hbyte, hnib⟩ := digitByte_bytePosition app'.view a nib.isLt
    have hdigit := congrArg (fun l : Line memoryDigits =>
      l.digits ⟨bytePosition app'.view a + nib, bytePosition_lt app'.view a nib⟩) h
    rw [memoryLine_digits, memoryLine_digits, hview] at hdigit
    dsimp only at hdigit
    rw [hbyte, hnib, byteAt_of_lt _ a.isLt, byteAt_of_lt _ a.isLt] at hdigit
    exact hdigit
  refine BitVec.eq_of_toNat_eq ?_
  rw [toNat_of_nibbles, toNat_of_nibbles (Memory.flat app'.perilus.rtl.memory a)]
  have hhigh := hnibble 0
  have hlow := hnibble 1
  rw [Fin.val_zero] at hhigh
  rw [Fin.val_one] at hlow
  rw [hhigh, hlow]

/-- **And so are the cells.** -/
theorem cell_eq_of_line (h : app.gridLine = app'.gridLine) (i : Fin 32) :
    app.cell i = app'.cell i := by
  refine BitVec.eq_of_toNat_eq (eq_of_digit_eq (b := 16) (n := 8) (app.cell i).isLt
    (app'.cell i).isLt fun j hj => ?_)
  -- digit `j` of the number is the one `7 - j` places into its cell
  obtain ⟨i', hi', hdigits⟩ := gridLine_digits ⟨8 * i + (7 - j), by omega⟩
  dsimp only at hi' hdigits
  obtain rfl : i' = i := Fin.ext (by omega)
  have hdigit := congrArg (fun l : Line 256 => l.digits ⟨8 * i' + (7 - j), by omega⟩) h
  rw [hdigits, hdigits, show 7 - (8 * i'.val + (7 - j)) % 8 = j by omega] at hdigit
  have hnat := congrArg BitVec.toNat hdigit
  rw [BitVec.toNat_ofNat, BitVec.toNat_ofNat, Nat.mod_eq_of_lt (digit_lt (by decide)),
    Nat.mod_eq_of_lt (digit_lt (by decide))] at hnat
  exact hnat

end SimApp

end Perilus

import Perilus.Gui.Helpers.Digits
import Perilus.Gui.Model.Reference
/-!
# Debugger — its panes as positions

The cursors of the application are positions among digits, and its moves
are those of a grid.
-/

namespace Perilus

/-! ## The digits of memory -/

theorem digitByte_eq (view : ViewMode) (p : ℕ) :
    p / 64 * bytesPerRow + digitOffset view (p % 64) = digitByte view p := by
  rw [bytesPerRow]
  cases view <;> simp only [digitOffset, digitByte] <;> omega

/-- Where a store to the word of an address goes. -/
theorem place_word_of {addr : BitVec 32} (h : addr.toNat < memoryBytes) :
    ByteMemory.place memoryBytes 4 (addr / 4 * 4).toNat = addr.toNat / 4 * 4 := by
  have hbytes : memoryBytes = 4194304 := rfl
  have hword : (addr / 4 * 4).toNat = addr.toNat / 4 * 4 := by
    rw [BitVec.toNat_mul, BitVec.toNat_udiv, show BitVec.toNat (4 : BitVec 32) = 4 from rfl]
    omega
  rw [ByteMemory.place, hword, Nat.mod_eq_of_lt (by omega), Nat.mul_div_cancel _ (by decide)]

theorem digitByte_bytePosition (view : ViewMode) (a : ℕ) {nib : ℕ} (hn : nib < 2) :
    digitByte view (bytePosition view a + nib) = a ∧ (bytePosition view a + nib) % 2 = nib := by
  cases view <;> simp only [digitByte, bytePosition] <;> omega

namespace SimApp

variable {app : SimApp} {p : ℕ}

theorem CursorAt.toNat_memAddr (h : app.CursorAt p) : app.memAddr.toNat = digitByte app.view p := by
  rw [h.memAddr, digitByte_eq]

/-- The cursor is on the digit of its byte and nibble. -/
theorem cursorAt_bytePosition (a : Fin memoryBytes) (nib : Fin 2) (haddr : app.memAddr.toNat = a)
    (hnib : app.memNib = nib) : app.CursorAt (bytePosition app.view a + nib) where
  lt := bytePosition_lt app.view a nib
  place := by
    obtain ⟨hbyte, hmod⟩ := digitByte_bytePosition app.view a nib.isLt
    rw [digitPlace_eq, digitByte_eq, hbyte, hmod, haddr, hnib]

/-- **A move of the memory cursor** is one of the grid. -/
theorem moveMemory_grid {p : Fin memoryDigits} (h : app.CursorAt p) (direction : Direction) :
    app.moveMemory direction = some (app.withCursor (gridMove 64 direction p)) := by
  cases direction with
  | left => exact h.moveMemory_left
  | right => exact h.moveMemory_right
  | up =>
    rw [h.moveMemory_up, gridMove]
    split_ifs <;> rfl
  | down =>
    rw [h.moveMemory_down, gridMove, show numDigits = memoryDigits from rfl]
    split_ifs <;> rfl

/-- And so is one from group to group. -/
theorem moveMemoryGroup_grid {p : Fin memoryDigits} (h : app.CursorAt p) (forward : Bool) :
    app.moveMemoryGroup forward = some (app.withCursor (gridGroup app.group forward p)) := by
  rw [h.moveMemoryGroup_eq, gridGroup, show numDigits = memoryDigits from rfl]
  split_ifs <;> rfl

/-- **A move of the register cursor** is one of a grid too. -/
theorem moveRegister_grid {c : Fin 256} (hc : 8 * app.regIndex + app.regNib = c)
    (hn : app.regNib < 8) (direction : Direction) :
    ∃ index nib, app.moveRegister direction = some { app with regIndex := index, regNib := nib } ∧
      8 * index + nib = gridMove 8 direction c ∧ nib < 8 := by
  have hlt := c.isLt
  obtain ⟨index, nib, hmove, hplace⟩ := app.exists_moveRegister direction
  obtain ⟨hnib, hcell⟩ := hplace (by omega) (by omega)
  refine ⟨index, nib, hmove, hcell.trans ?_, Nat.lt_succ_of_le hnib⟩
  rw [hc]
  cases direction <;> dsimp only [gridMove] <;> split_ifs <;> rfl

end SimApp

/-! ## The panes -/

/-- **The panes of the application are those of the reference.** -/
structure SamePanes (app : SimApp) (t : IsaApp) : Prop where
  view : app.view = t.view
  focus : app.focus = t.focus
  addressInput : app.addressInput = t.addressInput
  digit : app.CursorAt t.digit
  cell : 8 * app.regIndex + app.regNib = t.cell
  regNib : app.regNib < 8

/-- The fields they show. -/
def SimApp.panes (app : SimApp) : ViewMode × Focus × String × BitVec 32 × ℕ × ℕ × ℕ :=
  (app.view, app.focus, app.addressInput, app.memAddr, app.memNib, app.regIndex, app.regNib)

section

variable (t : IsaApp) {direction : Direction}

theorem IsaApp.moveCursor_memory (hf : t.focus = .memory) :
    t.moveCursor direction = { t with digit := gridMove 64 direction t.digit } := by
  rw [moveCursor]
  split
  · rfl
  · next hregisters => cases hf.symm.trans hregisters

theorem IsaApp.moveCursor_registers (hf : t.focus = .registers) :
    t.moveCursor direction = { t with cell := gridMove 8 direction t.cell } := by
  rw [moveCursor]
  split
  · next hmemory => cases hf.symm.trans hmemory
  · rfl

end

namespace SamePanes

variable {app app' : SimApp} {t : IsaApp}

theorem congr (h : SamePanes app t) (hp : app'.panes = app.panes) : SamePanes app' t := by
  simp only [SimApp.panes, Prod.mk.injEq] at hp
  obtain ⟨hview, hfocus, hinput, haddr, hnib, hindex, hregNib⟩ := hp
  refine ⟨hview.trans h.view, hfocus.trans h.focus, hinput.trans h.addressInput,
    ⟨h.digit.lt, ?_⟩, ?_, ?_⟩
  · rw [hview, haddr, hnib]
    exact h.digit.place
  · rw [hindex, hregNib]
    exact h.cell
  · rw [hregNib]
    exact h.regNib

/-- They are not about the machine and its run. -/
theorem withRun (h : SamePanes app t) (timed : Dialect.Timed memoryBytes) (runState : RunState)
    (runCycles : ℕ) : SamePanes app { t with timed, runState, runCycles } :=
  ⟨h.view, h.focus, h.addressInput, h.digit, h.cell, h.regNib⟩

theorem regIndex_lt (h : SamePanes app t) : app.regIndex < 32 := by
  have hcell := h.cell
  have hlt := t.cell.isLt
  omega

/-- The cell under the register cursor. -/
theorem cell_div (h : SamePanes app t) :
    Fin.ofNat 32 (t.cell / 8) = ⟨app.regIndex, h.regIndex_lt⟩ := by
  have hcell := h.cell
  have hnib := h.regNib
  refine Fin.ext ?_
  rw [Fin.val_ofNat]
  have hlt := h.regIndex_lt
  dsimp only
  omega

theorem cell_mod (h : SamePanes app t) : t.cell.val % 8 = app.regNib := by
  have hcell := h.cell
  have hnib := h.regNib
  omega

theorem toNat_memAddr (h : SamePanes app t) : app.memAddr.toNat = t.byte := by
  rw [h.digit.toNat_memAddr, h.view]
  rfl

theorem memNib (h : SamePanes app t) : app.memNib = t.digit % 2 := h.digit.memNib

/-- The memory cursor moved. -/
theorem withCursor (h : SamePanes app t) (p : Fin memoryDigits) :
    SamePanes (app.withCursor p) { t with digit := p } :=
  ⟨h.view, h.focus, h.addressInput, SimApp.withCursor_cursorAt p.isLt, h.cell, h.regNib⟩

/-- The register cursor moved. -/
theorem withRegister (h : SamePanes app t) {index nib : ℕ} {c : Fin 256}
    (hc : 8 * index + nib = c) (hn : nib < 8) :
    SamePanes { app with regIndex := index, regNib := nib } { t with cell := c } :=
  ⟨h.view, h.focus, h.addressInput, ⟨h.digit.lt, h.digit.place⟩, hc, hn⟩

end SamePanes

end Perilus

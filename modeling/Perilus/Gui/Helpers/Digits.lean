import Perilus.Gui.Helpers.Edit
/-!
# Debugger — the hex digits of memory

The memory view shows 64 digits a row, in the order of `row_digits`, and
a digit's position is `64 * row + column`. Positions and digits (a byte
address and a nibble) are one to one, so the memory cursor is a position
and its moves are arithmetic on it.
-/

namespace Perilus

/-- Where a column is in its row of bytes. -/
def digitOffset : ViewMode → ℕ → ℕ
  | .word, col => col / 8 * 4 + (3 - col % 8 / 2)
  | .byte, col => col / 2

/-- The digit at a position: byte address and nibble. -/
def digitPlace (view : ViewMode) (p : ℕ) : Option (ℕ × ℕ) :=
  (rowDigits view)[p % 64]?.map fun digit => (p / 64 * bytesPerRow + digit.1, digit.2)

/-- A nibble of a byte, 0 the high one. -/
def nibbleOf (byte : BitVec 8) (nib : ℕ) : BitVec 4 :=
  if nib = 0 then byte.extractLsb 7 4 else byte.extractLsb 3 0

namespace SimApp

/-- The digits of the memory view. -/
def numDigits : ℕ := 64 * totalRows

/-- The memory cursor is on the digit at a position. -/
structure CursorAt (app : SimApp) (p : ℕ) : Prop where
  lt : p < numDigits
  place : digitPlace app.view p = some (app.memAddr.toNat, app.memNib)

/-- The digit memory holds at a position. -/
def digitAt (app : SimApp) (p : ℕ) : Option (BitVec 4) := do
  let (addr, nib) ← digitPlace app.view p
  let byte ← app.perilus.getMemoryByte (BitVec.ofNat 32 addr)
  return nibbleOf byte nib

/-- The cursor put on the digit at a position. -/
def withCursor (app : SimApp) (p : ℕ) : SimApp :=
  { app with
    memAddr := BitVec.ofNat 32 (p / 64 * bytesPerRow + digitOffset app.view (p % 64))
    memNib := p % 2 }

end SimApp

/-! ## Columns -/

section Columns

variable (view : ViewMode)

theorem rowDigits_getElem : ∀ col < 64,
    (rowDigits view)[col]? = some (digitOffset view col, col % 2) := by
  cases view <;> decide

/-- Looking a digit up finds its column. -/
theorem findIdx_rowDigits : ∀ col < 64,
    (rowDigits view).findIdx? (fun p => p.1 = digitOffset view col ∧ p.2 = col % 2) =
      some col := by
  cases view <;> decide

theorem digitOffset_lt {col : ℕ} (h : col < 64) : digitOffset view col < bytesPerRow := by
  rw [bytesPerRow]
  cases view <;> simp only [digitOffset] <;> omega

/-- Every digit of a row has a column. -/
theorem exists_column {offset nib : ℕ} (ho : offset < bytesPerRow) (hn : nib < 2) :
    ∃ col < 64, digitOffset view col = offset ∧ col % 2 = nib := by
  rw [bytesPerRow] at ho
  cases view with
  | word =>
    refine ⟨offset / 4 * 8 + (3 - offset % 4) * 2 + nib, by omega, ?_, by omega⟩
    rw [digitOffset]
    omega
  | byte =>
    refine ⟨offset * 2 + nib, by omega, ?_, by omega⟩
    rw [digitOffset]
    omega

/-- Two columns of one digit are one. -/
theorem column_injective {col col' : ℕ} (h : col < 64) (h' : col' < 64)
    (ho : digitOffset view col = digitOffset view col') (hn : col % 2 = col' % 2) :
    col = col' := by
  have hfind := findIdx_rowDigits view col h
  rw [ho, hn, findIdx_rowDigits view col' h'] at hfind
  exact (Option.some.inj hfind).symm

end Columns

/-! ## Positions -/

theorem digitPlace_eq (view : ViewMode) (p : ℕ) :
    digitPlace view p = some (p / 64 * bytesPerRow + digitOffset view (p % 64), p % 2) := by
  rw [digitPlace, rowDigits_getElem view _ (Nat.mod_lt _ (by decide)), Option.map_some,
    Nat.mod_mod_of_dvd p (by decide)]

/-- **Two positions of one digit are one.** -/
theorem digitPlace_injective (view : ViewMode) {p q : ℕ}
    (h : digitPlace view p = digitPlace view q) : p = q := by
  rw [digitPlace_eq, digitPlace_eq, Option.some.injEq, Prod.mk.injEq, bytesPerRow] at h
  obtain ⟨haddr, hnib⟩ := h
  have hp := digitOffset_lt view (Nat.mod_lt p (show 64 > 0 by decide))
  have hq := digitOffset_lt view (Nat.mod_lt q (show 64 > 0 by decide))
  rw [bytesPerRow] at hp hq
  have hcol := column_injective view (Nat.mod_lt p (by decide)) (Nat.mod_lt q (by decide))
    (by omega) (by omega)
  omega

/-- The address of a digit is inside the memory. -/
theorem digitPlace_lt (view : ViewMode) {p : ℕ} (h : p < SimApp.numDigits) :
    p / 64 * bytesPerRow + digitOffset view (p % 64) < Simulator.memorySizeBytes := by
  have hoff := digitOffset_lt view (Nat.mod_lt p (show 64 > 0 by decide))
  rw [bytesPerRow] at hoff ⊢
  rw [SimApp.numDigits, SimApp.totalRows, Simulator.memorySizeWords, wordsPerRow] at h
  rw [Simulator.memorySizeBytes, Simulator.memorySizeWords]
  omega

namespace SimApp

variable {app : SimApp} {p : ℕ}

theorem withCursor_memAddr (h : p < numDigits) :
    (app.withCursor p).memAddr.toNat = p / 64 * bytesPerRow + digitOffset app.view (p % 64) := by
  have hlt := digitPlace_lt app.view h
  rw [Simulator.memorySizeBytes, Simulator.memorySizeWords] at hlt
  rw [withCursor, BitVec.toNat_ofNat, Nat.mod_eq_of_lt (by omega)]

theorem withCursor_cursorAt (h : p < numDigits) : (app.withCursor p).CursorAt p where
  lt := h
  place := by
    rw [withCursor_memAddr h, digitPlace_eq]
    rfl

theorem select_eq (row : ℕ) {col : ℕ} (h : col < 64) :
    app.select row col = some (app.withCursor (64 * row + col)) := by
  have hrow : (64 * row + col) / 64 = row := by omega
  have hcol : (64 * row + col) % 64 = col := by omega
  have hnib : (64 * row + col) % 2 = col % 2 := by omega
  rw [select, rowDigits_getElem app.view col h, withCursor, hrow, hcol, hnib]
  rfl

theorem group_eq (app : SimApp) : app.group = 8 ∨ app.group = 2 := by
  rw [group]
  split
  · exact .inl rfl
  · exact .inr rfl

namespace CursorAt

theorem memAddr (h : app.CursorAt p) :
    app.memAddr.toNat = p / 64 * bytesPerRow + digitOffset app.view (p % 64) := by
  have hplace := h.place
  rw [digitPlace_eq, Option.some.injEq, Prod.mk.injEq] at hplace
  exact hplace.1.symm

theorem memNib (h : app.CursorAt p) : app.memNib = p % 2 := by
  have hplace := h.place
  rw [digitPlace_eq, Option.some.injEq, Prod.mk.injEq] at hplace
  exact hplace.2.symm

/-- The row the commands compute is the cursor's. -/
theorem row (h : app.CursorAt p) : app.row = p / 64 := by
  have hoff := digitOffset_lt app.view (Nat.mod_lt p (show 64 > 0 by decide))
  rw [SimApp.row, h.memAddr]
  rw [bytesPerRow] at *
  omega

/-- And so is the column they look up. -/
theorem col (h : app.CursorAt p) : app.col = p % 64 := by
  have hoff := digitOffset_lt app.view (Nat.mod_lt p (show 64 > 0 by decide))
  have hoffset : app.memAddr.toNat % bytesPerRow = digitOffset app.view (p % 64) := by
    rw [h.memAddr]
    rw [bytesPerRow] at *
    omega
  have hnib : app.memNib = p % 64 % 2 := by
    rw [h.memNib]
    omega
  dsimp only [SimApp.col]
  rw [hoffset, hnib, findIdx_rowDigits app.view _ (Nat.mod_lt p (by decide))]
  rfl

/-- The first digit of memory is the first of its row and in row 0. -/
theorem first_iff (h : app.CursorAt p) :
    app.memAddr.toNat < bytesPerRow ∧ app.col = 0 ↔ p = 0 := by
  have hrow : app.memAddr.toNat / bytesPerRow = p / 64 := h.row
  rw [h.col]
  rw [bytesPerRow] at *
  omega

/-- **To the right** is the next position, until there is none. -/
theorem moveMemory_right (h : app.CursorAt p) :
    app.moveMemory .right = some (app.withCursor (min (p + 1) (numDigits - 1))) := by
  have hlt := h.lt
  dsimp only [moveMemory]
  rw [h.row, h.col]
  rw [numDigits] at *
  split_ifs with hnext hin
  · -- from the end of a row to the start of the next
    rw [select_eq _ (by decide)]
    congr 2
    omega
  · rw [select_eq _ (by omega)]
    congr 2
    omega
  · -- the last position of all
    rw [select_eq _ (by omega)]
    congr 2
    omega

/-- **To the left** is the position before, from the first on itself. -/
theorem moveMemory_left (h : app.CursorAt p) :
    app.moveMemory .left = some (app.withCursor (p - 1)) := by
  dsimp only [moveMemory]
  rw [h.row, h.col]
  split_ifs with hrow hin
  · -- from the start of a row to the end of the one before
    rw [checkedSub_bind hrow.2, select_eq _ (by decide)]
    congr 2
    omega
  · rw [checkedSub_bind hin, select_eq _ (by omega)]
    congr 2
    omega
  · rw [select_eq _ (by omega)]
    congr 2
    omega

/-- **Up** is a row before, and from the first row on itself. -/
theorem moveMemory_up (h : app.CursorAt p) :
    app.moveMemory .up = some (app.withCursor (if 64 ≤ p then p - 64 else p)) := by
  dsimp only [moveMemory]
  rw [h.row, h.col]
  split_ifs with hrow hle hle
  · rw [checkedSub_bind hrow, select_eq _ (by omega)]
    congr 2
    omega
  · omega
  · omega
  · rw [select_eq _ (by omega), Nat.div_add_mod]

/-- **Down** is a row after, and from the last row on itself. -/
theorem moveMemory_down (h : app.CursorAt p) :
    app.moveMemory .down = some (app.withCursor (if p + 64 < numDigits then p + 64 else p)) := by
  have hrows : numDigits = 64 * totalRows := rfl
  dsimp only [moveMemory]
  rw [h.row, h.col]
  split_ifs with hrow hlt hlt
  · rw [select_eq _ (by omega)]
    congr 2
    omega
  · omega
  · omega
  · rw [select_eq _ (by omega), Nat.div_add_mod]

/-- **To the next group or the one before**, if there is one. -/
theorem moveMemoryGroup_eq (h : app.CursorAt p) (forward : Bool) :
    app.moveMemoryGroup forward = some (app.withCursor
      (if forward then
        if (p / app.group + 1) * app.group < numDigits then (p / app.group + 1) * app.group else p
      else if 0 < p / app.group then (p / app.group - 1) * app.group else p)) := by
  have hlt := h.lt
  have hrows : numDigits = 64 * totalRows := rfl
  dsimp only [SimApp.moveMemoryGroup]
  rw [h.row, h.col]
  rcases app.group_eq with hgroup | hgroup <;> rw [hgroup] <;> cases forward
  all_goals simp only [Bool.false_eq_true, if_true, if_false]
  all_goals split_ifs
  -- where there is no group or row before, nothing is subtracted
  all_goals try simp (disch := omega) only [checkedSub_bind]
  all_goals first
    | omega
    | (rw [select_eq _ (by omega)]
       congr 2
       omega)

/-- A move puts the cursor on some digit. -/
theorem moveMemory (h : app.CursorAt p) (direction : Direction) :
    ∃ q < numDigits, app.moveMemory direction = some (app.withCursor q) := by
  have hlt := h.lt
  cases direction with
  | left => exact ⟨p - 1, by omega, h.moveMemory_left⟩
  | right => exact ⟨min (p + 1) (numDigits - 1), by omega, h.moveMemory_right⟩
  | up => exact ⟨_, by split_ifs <;> omega, h.moveMemory_up⟩
  | down => exact ⟨_, by split_ifs <;> omega, h.moveMemory_down⟩

theorem moveMemoryGroup (h : app.CursorAt p) (forward : Bool) :
    ∃ q < numDigits, app.moveMemoryGroup forward = some (app.withCursor q) := by
  have hlt := h.lt
  refine ⟨_, ?_, h.moveMemoryGroup_eq forward⟩
  rcases app.group_eq with hgroup | hgroup <;> rw [hgroup] <;> split_ifs <;> omega

end CursorAt

/-- Inside the memory the cursor is on a digit. -/
theorem exists_cursorAt (haddr : app.memAddr.toNat < Simulator.memorySizeBytes)
    (hnib : app.memNib < 2) : ∃ p, app.CursorAt p := by
  have hoff : app.memAddr.toNat % bytesPerRow < bytesPerRow := Nat.mod_lt _ (by decide)
  obtain ⟨col, hcol, hoffset, hparity⟩ := exists_column app.view hoff hnib
  rw [Simulator.memorySizeBytes, Simulator.memorySizeWords] at haddr
  refine ⟨64 * (app.memAddr.toNat / bytesPerRow) + col, ?_, ?_⟩
  · rw [numDigits, totalRows, Simulator.memorySizeWords, wordsPerRow, bytesPerRow]
    omega
  · rw [digitPlace_eq, show (64 * (app.memAddr.toNat / bytesPerRow) + col) % 64 = col by omega,
      show (64 * (app.memAddr.toNat / bytesPerRow) + col) / 64 =
        app.memAddr.toNat / bytesPerRow by omega,
      show (64 * (app.memAddr.toNat / bytesPerRow) + col) % 2 = col % 2 by omega, hoffset, hparity,
      Nat.mul_comm, Nat.div_add_mod]

end SimApp

end Perilus

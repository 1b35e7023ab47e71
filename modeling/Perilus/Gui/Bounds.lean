import Perilus.Common.Reachable
import Perilus.Gui.Helpers.Digits
/-!
# Debugger — no command reaches outside the model

The cursors stay on cells that exist and the scroll target on a row that
does, whatever the commands and their order; so no command panics: no
index is out of range and no subtraction goes below zero, each of them
checked in the model. And none hands `perilus_set_memory` an index outside
the memory.
-/

namespace Perilus

open Transition

/-- What the front end itself does, over a viewport inside the memory
view. -/
def GuiCommand (_ : SimApp) : Command → Prop
  | .simulator _ => False
  | .showRows rows => rows.1 ≤ rows.2 ∧ rows.2 ≤ SimApp.totalRows
  | _ => True

namespace SimApp

/-- **Every cursor is on a cell, and the scroll target is a row.** -/
structure InBounds (app : SimApp) : Prop where
  memAddr : app.memAddr.toNat < Simulator.memorySizeBytes
  memNib : app.memNib ≤ 1
  regIndex : app.regIndex ≤ 31
  regNib : app.regNib ≤ 7
  scrollToRow : ∀ row, app.scrollToRow = some row → row < totalRows
  memViewport : app.memViewport.1 ≤ app.memViewport.2 ∧ app.memViewport.2 ≤ totalRows

/-- The fields it is about. -/
def cursors (app : SimApp) : BitVec 32 × ℕ × ℕ × ℕ × Option ℕ × ℕ × ℕ :=
  (app.memAddr, app.memNib, app.regIndex, app.regNib, app.scrollToRow, app.memViewport)

variable {app app' : SimApp} {p : ℕ}

namespace InBounds

theorem congr (h : app.InBounds) (hc : app'.cursors = app.cursors) : app'.InBounds := by
  simp only [cursors, Prod.mk.injEq] at hc
  obtain ⟨haddr, hnib, hindex, hregNib, hscroll, hview⟩ := hc
  refine ⟨?_, ?_, ?_, ?_, ?_, ?_⟩
  · rw [haddr]; exact h.memAddr
  · rw [hnib]; exact h.memNib
  · rw [hindex]; exact h.regIndex
  · rw [hregNib]; exact h.regNib
  · rw [hscroll]; exact h.scrollToRow
  · rw [hview]; exact h.memViewport

/-- The machine, the copy of its pc and the status are not among them. -/
theorem withMachine (h : app.InBounds) (perilus : Simulator) (currentPc : BitVec 32)
    (status : String) : InBounds { app with perilus, currentPc, status } :=
  h.congr rfl

theorem exists_cursorAt (h : app.InBounds) : ∃ p, app.CursorAt p :=
  SimApp.exists_cursorAt h.memAddr (Nat.lt_succ_of_le h.memNib)

/-- The cursor put on a digit. -/
theorem withCursor (h : app.InBounds) (hp : p < numDigits) : (app.withCursor p).InBounds where
  memAddr := by
    rw [withCursor_memAddr hp]
    exact digitPlace_lt app.view hp
  memNib := Nat.le_of_lt_succ (Nat.mod_lt p (by decide))
  regIndex := h.regIndex
  regNib := h.regNib
  scrollToRow := h.scrollToRow
  memViewport := h.memViewport

theorem moveMemory (h : app.InBounds) (direction : Direction) :
    ∃ app', app.moveMemory direction = some app' ∧ app'.InBounds := by
  obtain ⟨p, hp⟩ := h.exists_cursorAt
  obtain ⟨q, hq, hmove⟩ := hp.moveMemory direction
  exact ⟨_, hmove, h.withCursor hq⟩

theorem moveMemoryGroup (h : app.InBounds) (forward : Bool) :
    ∃ app', app.moveMemoryGroup forward = some app' ∧ app'.InBounds := by
  obtain ⟨p, hp⟩ := h.exists_cursorAt
  obtain ⟨q, hq, hmove⟩ := hp.moveMemoryGroup forward
  exact ⟨_, hmove, h.withCursor hq⟩

/-- The register cursor put on a digit of a cell. -/
theorem withRegister (h : app.InBounds) {index nib : ℕ} (hi : index ≤ 31) (hn : nib ≤ 7) :
    InBounds { app with regIndex := index, regNib := nib } :=
  ⟨h.memAddr, h.memNib, hi, hn, h.scrollToRow, h.memViewport⟩

theorem moveRegister (h : app.InBounds) (direction : Direction) :
    ∃ app', app.moveRegister direction = some app' ∧ app'.InBounds := by
  have hindex := h.regIndex
  have hregNib := h.regNib
  obtain ⟨index, nib, hmove, hplace⟩ := app.exists_moveRegister direction
  obtain ⟨hnib, hcell⟩ := hplace hindex hregNib
  refine ⟨_, hmove, h.withRegister ?_ hnib⟩
  cases direction with
  | left | right =>
    dsimp only at hcell
    omega
  | up | down =>
    dsimp only at hcell
    split_ifs at hcell <;> omega

theorem moveCursor (h : app.InBounds) (direction : Direction) :
    ∃ app', app.moveCursor direction = some app' ∧ app'.InBounds := by
  rw [SimApp.moveCursor]
  cases app.focus with
  | memory => exact h.moveMemory direction
  | registers => exact h.moveRegister direction

/-! ## Edits -/

theorem shift_eq (h : app.InBounds) : app.shift = some ((7 - app.regNib) * 4) :=
  shift_eq_some.2 ⟨h.regNib, rfl⟩

theorem register_new (h : app.InBounds) : ∃ register, Register.new app.regIndex = some register :=
  ⟨⟨app.regIndex, Nat.lt_succ_of_le h.regIndex⟩, dif_pos (Nat.lt_succ_of_le h.regIndex)⟩

/-- The byte under the cursor written, and a move. -/
theorem writeByte (h : app.InBounds) (value : BitVec 8) (direction : Direction) :
    ∃ app', ((app.perilus.setMemoryByte app.memAddr value).bind fun perilus =>
      SimApp.moveMemory { app with perilus } direction) = some app' ∧ app'.InBounds := by
  rw [app.perilus.setMemoryByte_of_lt h.memAddr, Option.bind_some]
  exact (h.withMachine _ _ _).moveMemory direction

/-- The cell under the register cursor written, and a move. -/
theorem writeCell (h : app.InBounds) (pc : ℕ → BitVec 32) (value : ℕ → Fin 32 → BitVec 32)
    (direction : Direction) :
    ∃ app', (app.shift.bind fun shift =>
      if app.regIndex = 0 then
        SimApp.moveRegister
          { app with perilus := app.perilus.setPc (pc shift), currentPc := pc shift } direction
      else (Register.new app.regIndex).bind fun register =>
        SimApp.moveRegister
          { app with perilus := app.perilus.setRegister register (value shift register) }
          direction) = some app' ∧ app'.InBounds := by
  rw [h.shift_eq, Option.bind_some]
  split
  · exact (h.withMachine _ _ _).moveRegister direction
  · obtain ⟨register, hregister⟩ := h.register_new
    rw [hregister, Option.bind_some]
    exact (h.withMachine _ _ _).moveRegister direction

theorem editNibble (h : app.InBounds) (nibble : BitVec 8) :
    ∃ app', app.editNibble nibble = some app' ∧ app'.InBounds := by
  rw [SimApp.editNibble]
  split
  · dsimp only
    rw [app.perilus.getMemoryByte_flat h.memAddr, Option.bind_eq_bind, Option.bind_some]
    exact h.writeByte _ .right
  · exact h.writeCell _ _ .right

theorem backspace (h : app.InBounds) : ∃ app', app.backspace = some app' ∧ app'.InBounds := by
  rw [SimApp.backspace]
  split
  · split
    · exact ⟨app, rfl, h⟩
    · dsimp only
      rw [app.perilus.getMemoryByte_flat h.memAddr, Option.bind_eq_bind, Option.bind_some]
      exact h.writeByte _ .left
  · split
    · exact ⟨app, rfl, h⟩
    · exact h.writeCell _ _ .left

/-- **The word index `clear_cursor` hands on** is one of the memory. -/
theorem wordIndex_lt (h : app.InBounds) : (app.memAddr / 4).toNat < Simulator.memorySizeWords :=
  (Simulator.word_of_byte h.memAddr).1

theorem clearCursor (h : app.InBounds) : ∃ app', app.clearCursor = some app' ∧ app'.InBounds := by
  rw [SimApp.clearCursor]
  split
  · split
    · dsimp only
      rw [app.perilus.setMemory_of_lt h.wordIndex_lt]
      exact ⟨_, rfl, h.withMachine _ _ _⟩
    · rw [app.perilus.setMemoryByte_of_lt h.memAddr]
      exact ⟨_, rfl, h.withMachine _ _ _⟩
  · split
    · exact ⟨_, rfl, h.withMachine _ _ _⟩
    · obtain ⟨register, hregister⟩ := h.register_new
      rw [hregister]
      exact ⟨_, rfl, h.withMachine _ _ _⟩

/-! ## Jumps and pages -/

theorem jumpToAddress (h : app.InBounds) : app.jumpToAddress.InBounds := by
  rw [SimApp.jumpToAddress]
  split
  · next addr _ =>
    -- the size is a power of two, so the mask is the remainder by it
    have hmask : (addr &&& (BitVec.ofNat 32 Simulator.memorySizeBytes - 1)).toNat <
        Simulator.memorySizeBytes := by
      rw [BitVec.toNat_and]
      exact Nat.lt_of_le_of_lt Nat.and_le_right (by decide)
    refine ⟨hmask, Nat.zero_le 1, h.regIndex, h.regNib, ?_, h.memViewport⟩
    intro row hrow
    obtain rfl := Option.some.inj hrow
    have hsize : Simulator.memorySizeBytes = bytesPerRow * totalRows := rfl
    rw [hsize] at hmask
    exact Nat.div_lt_of_lt_mul hmask
  · exact h.congr rfl

theorem scrollPage (h : app.InBounds) (down : Bool) : (app.scrollPage down).InBounds := by
  obtain ⟨hle, htotal⟩ := h.memViewport
  have hrows : totalRows = 131072 := rfl
  refine ⟨h.memAddr, h.memNib, h.regIndex, h.regNib, ?_, h.memViewport⟩
  intro row hrow
  obtain rfl := Option.some.inj hrow
  cases down with
  | true =>
    change (min _ ((totalRows : ℤ) - 1)).toNat < totalRows
    omega
  | false =>
    -- the page is at least one row, so an empty view at the very end scrolls too
    change (max (_ - max ((app.memViewport.2 - app.memViewport.1 : ℕ) : ℤ) 1) 0).toNat < totalRows
    omega

end InBounds

/-! ## The machine -/

theorem syncPc_cursors (app : SimApp) : app.syncPc.cursors = app.cursors := by
  rw [syncPc]
  split <;> rfl

theorem nextInstruction_cursors (app : SimApp) : app.nextInstruction.cursors = app.cursors := by
  rw [nextInstruction]
  split <;> exact syncPc_cursors _

theorem runToPcLoop_cursors (target : BitVec 32) (budget : ℕ) (app : SimApp) :
    (runToPcLoop target budget app).cursors = app.cursors := by
  induction budget generalizing app with
  | zero =>
    rw [runToPcLoop]
    split
    · rfl
    · dsimp only
      split <;> rfl
  | succ budget ih =>
    rw [runToPcLoop]
    split
    · rfl
    · dsimp only
      split
      · rfl
      · exact ih _

theorem logic_cursors (app : SimApp) (budget : ℕ) : (app.logic budget).cursors = app.cursors := by
  rw [logic]
  split
  · rfl
  · exact syncPc_cursors _
  · rw [syncPc_cursors, runToPcLoop_cursors]

/-- Loading a file returns, whatever the file holds. -/
theorem loadPath_cursors (app : SimApp) (path : String)
    (contents : Except String (List (BitVec 8))) :
    ∃ app', app.loadPath path contents = some app' ∧ app'.cursors = app.cursors := by
  obtain ⟨⟨result, p⟩, hload⟩ : ∃ r, app.perilus.loadFile contents = some r := by
    rcases contents with e | bytes
    · exact ⟨_, rfl⟩
    · rcases Nat.lt_or_ge Simulator.memorySizeBytes bytes.length with hlt | hle
      · exact ⟨_, if_pos hlt⟩
      · obtain ⟨memory, hload, -⟩ := app.perilus.loadBytes_eq hle
        exact ⟨_, hload⟩
  rw [loadPath, hload]
  exact ⟨_, rfl, syncPc_cursors _⟩

/-! ## Commands -/

/-- **A command returns, and keeps the cursors in bounds.** -/
theorem InBounds.exec {c : Command} (h : app.InBounds) (hc : GuiCommand app c) :
    ∃ app', app.exec c = some app' ∧ app'.InBounds := by
  cases c with
  | simulator op => exact hc.elim
  | stepCycle => exact ⟨_, rfl, h.congr (syncPc_cursors _)⟩
  | nextInstruction => exact ⟨_, rfl, h.congr app.nextInstruction_cursors⟩
  | reset => exact ⟨_, rfl, h.congr (syncPc_cursors _)⟩
  | loadPath path contents =>
    obtain ⟨app', hload, hcursors⟩ := app.loadPath_cursors path contents
    exact ⟨app', hload, h.congr hcursors⟩
  | runToInputPc =>
    refine ⟨_, rfl, h.congr ?_⟩
    rw [runToInputPc]
    split <;> rfl
  | frame budget => exact ⟨_, rfl, h.congr (app.logic_cursors budget)⟩
  | editNibble nibble => exact h.editNibble _
  | backspace => exact h.backspace
  | clearCursor => exact h.clearCursor
  | moveCursor direction => exact h.moveCursor direction
  | moveMemoryGroup forward =>
    change ∃ app', (if app.focus = .memory then app.moveMemoryGroup forward else some app) =
      some app' ∧ app'.InBounds
    split
    · exact h.moveMemoryGroup forward
    · exact ⟨app, rfl, h⟩
  | jumpToAddress => exact ⟨_, rfl, h.jumpToAddress⟩
  | scrollPage down => exact ⟨_, rfl, h.scrollPage down⟩
  | selectMemory row col =>
    have hrow := row.isLt
    have hp : 64 * row.val + col.val < numDigits := by
      rw [numDigits]
      omega
    change ∃ app', ((app.select row col).map ({ · with focus := .memory })) = some app' ∧ _
    rw [select_eq row.val col.isLt]
    exact ⟨_, rfl, (h.withCursor hp).congr rfl⟩
  | selectRegister col row nib =>
    have hindex : min (col.val * 8 + row.val) 31 ≤ 31 := Nat.min_le_right _ _
    exact ⟨_, rfl, (h.withRegister hindex (Nat.le_of_lt_succ nib.isLt)).congr rfl⟩
  | showRows rows =>
    have hscroll : ∀ row : ℕ, none = some row → row < totalRows := fun row hrow =>
      absurd hrow.symm (Option.some_ne_none row)
    exact ⟨_, rfl, h.memAddr, h.memNib, h.regIndex, h.regNib, hscroll, hc⟩
  | _ => exact ⟨_, rfl, h.congr rfl⟩

theorem new_inBounds : InBounds SimApp.new where
  memAddr := by decide
  memNib := by decide
  regIndex := by decide
  regNib := by decide
  scrollToRow := nofun
  memViewport := by decide

end SimApp

/-- **No sequence of commands reaches outside the model.** In every state
they reach the cursors are in bounds, the next command returns, with
every index in range and no subtraction below zero, no shift reaches
32, and a word index for `perilus_set_memory` is one of memory. -/
theorem inBounds_of_reachable {app : SimApp}
    (h : Reachable SimApp.exec GuiCommand SimApp.new app) :
    app.InBounds ∧ (∀ c, GuiCommand app c → ∃ app', app.exec c = some app') ∧
      (∃ shift < 32, app.shift = some shift) ∧ (app.memAddr / 4).toNat < 2 ^ 20 := by
  have hinv : app.InBounds := by
    refine h.invariant SimApp.new_inBounds ?_
    intro s s' c hs hc hexec
    obtain ⟨s₁, hexec', hs₁⟩ := hs.exec hc
    rw [hexec, Option.some.injEq] at hexec'
    exact hexec' ▸ hs₁
  refine ⟨hinv, ?_, ⟨_, by omega, hinv.shift_eq⟩, hinv.wordIndex_lt⟩
  intro c hc
  obtain ⟨app', hexec, -⟩ := hinv.exec hc
  exact ⟨app', hexec⟩

/-- A page down from the last page of the memory view. -/
theorem inBounds_scrollPage :
    let app := SimApp.scrollPage { SimApp.new with memViewport := (131040, 131072) } true
    app.InBounds ∧ app.scrollToRow = some 131071 :=
  ⟨(inBounds_of_reachable
    (.next (.scrollPage true)
      (.next (.showRows (131040, 131072)) .init ⟨by decide, by decide⟩ rfl) trivial rfl)).1,
    by decide⟩

end Perilus

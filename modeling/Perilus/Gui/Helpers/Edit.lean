import Perilus.Gui.Helpers.App
import Perilus.Simulator.Helpers.Load
/-!
# Debugger — cursors and edits

A cursor command moves a cursor and nothing else. An edit writes the pc
and its copy, where the cursor is on the PC cell, or memory or a
register.
-/

namespace Perilus

/-- The machine and the copy of its pc are as they were. -/
structure SameMachine (app app' : SimApp) : Prop where
  perilus : app'.perilus = app.perilus
  currentPc : app'.currentPc = app.currentPc

/-- The pc and its copy have been written. -/
structure WritesPc (app : SimApp) (value : BitVec 32) (app' : SimApp) : Prop where
  perilus : app'.perilus = app.perilus.setPc value
  currentPc : app'.currentPc = value

/-- Nothing but memory and the register file has been written. -/
structure WritesData (app app' : SimApp) : Prop where
  perilus : (∃ memory, app'.perilus = app.perilus.withMemory memory) ∨
    ∃ register value, app'.perilus = app.perilus.setRegister register value
  currentPc : app'.currentPc = app.currentPc

/-- The cursor is on the PC cell. -/
def SimApp.OnPcCell (app : SimApp) : Prop := app.focus = .registers ∧ app.regIndex = 0

namespace SameMachine

theorem refl (app : SimApp) : SameMachine app app := ⟨rfl, rfl⟩

theorem writesData {app app' : SimApp} (h : SameMachine app app') : WritesData app app' where
  perilus := .inl ⟨app.perilus.rtl.memory, h.perilus⟩
  currentPc := h.currentPc

end SameMachine

/-- A subtraction that its guard protects. -/
theorem checkedSub_bind {α : Type} {m n : ℕ} (h : n ≤ m) (f : ℕ → Option α) :
    (do f (← checkedSub m n)) = f (m - n) := by
  rw [checkedSub_of_le h, Option.bind_eq_bind, Option.bind_some]

namespace SimApp

variable {app app' : SimApp} {direction : Direction}

/-! ## Cursors -/

theorem select_sameMachine {row col : ℕ} (h : app.select row col = some app') :
    SameMachine app app' := by
  obtain ⟨p, -, hp⟩ := Option.bind_eq_some_iff.1 h
  obtain rfl := Option.some.inj hp
  exact ⟨rfl, rfl⟩

/-- A subtraction and a move. -/
theorem select_sub_sameMachine {m n : ℕ} {row col : ℕ → ℕ}
    (h : ((checkedSub m n).bind fun k => app.select (row k) (col k)) = some app') :
    SameMachine app app' := by
  obtain ⟨k, -, hselect⟩ := Option.bind_eq_some_iff.1 h
  exact select_sameMachine hselect

theorem moveMemory_sameMachine (h : app.moveMemory direction = some app') :
    SameMachine app app' := by
  cases direction <;> dsimp only [moveMemory] at h <;> split_ifs at h
  all_goals first
    | exact select_sameMachine h
    | exact select_sub_sameMachine h

theorem moveMemoryGroup_sameMachine {forward : Bool} (h : app.moveMemoryGroup forward = some app') :
    SameMachine app app' := by
  dsimp only [moveMemoryGroup] at h
  split_ifs at h
  · exact select_sameMachine h
  · exact select_sameMachine h
  · exact select_sameMachine h
  · exact select_sub_sameMachine h
  · obtain ⟨row, -, hgroup⟩ := Option.bind_eq_some_iff.1 h
    exact select_sub_sameMachine hgroup
  · exact select_sameMachine h

/-- **A move of the register cursor** returns, and from a digit of a cell it
is one along the digits or from cell to cell. -/
theorem exists_moveRegister (app : SimApp) (direction : Direction) : ∃ index nib,
    app.moveRegister direction = some { app with regIndex := index, regNib := nib } ∧
      (app.regIndex ≤ 31 → app.regNib ≤ 7 → nib ≤ 7 ∧ 8 * index + nib =
        let c := 8 * app.regIndex + app.regNib
        match direction with
        | .left => c - 1
        | .right => min (c + 1) 255
        | .up => if 8 ≤ c then c - 8 else c
        | .down => if c + 8 < 256 then c + 8 else c) := by
  have hlast : checkedSub numCells 1 = some 31 := rfl
  cases direction <;> dsimp only [moveRegister]
  case left =>
    split_ifs with hcell hnib
    · rw [checkedSub_bind hcell.2]
      exact ⟨_, _, rfl, by omega⟩
    · rw [checkedSub_bind hnib]
      exact ⟨_, _, rfl, by omega⟩
    · exact ⟨_, _, rfl, by omega⟩
  case right =>
    rw [hlast, Option.bind_eq_bind, Option.bind_some]
    split_ifs
    · exact ⟨_, _, rfl, by omega⟩
    · exact ⟨_, _, rfl, by omega⟩
    · exact ⟨_, _, rfl, by omega⟩
  case up =>
    by_cases hcell : app.regIndex > 0
    · rw [if_pos hcell, checkedSub_bind hcell]
      exact ⟨_, _, rfl, by split_ifs <;> omega⟩
    · rw [if_neg hcell]
      exact ⟨_, _, rfl, by split_ifs <;> omega⟩
  case down =>
    rw [hlast, Option.bind_eq_bind, Option.bind_some]
    by_cases hcell : app.regIndex < 31
    · rw [if_pos hcell]
      exact ⟨_, _, rfl, by split_ifs <;> omega⟩
    · rw [if_neg hcell]
      exact ⟨_, _, rfl, by split_ifs <;> omega⟩

theorem moveRegister_sameMachine (h : app.moveRegister direction = some app') :
    SameMachine app app' := by
  obtain ⟨index, nib, hmove, -⟩ := app.exists_moveRegister direction
  obtain rfl := Option.some.inj (hmove.symm.trans h)
  exact ⟨rfl, rfl⟩

theorem moveCursor_sameMachine (h : app.moveCursor direction = some app') :
    SameMachine app app' := by
  rw [moveCursor] at h
  split at h
  · exact moveMemory_sameMachine h
  · exact moveRegister_sameMachine h

/-! ## Edits -/

theorem shift_eq_some {n : ℕ} : app.shift = some n ↔ app.regNib ≤ 7 ∧ n = (7 - app.regNib) * 4 := by
  rw [shift, checkedSub]
  split <;> simp_all [eq_comm]

/-- A write of a memory byte, and a move of the cursor. -/
theorem writesData_of_byte {p : Simulator} {value : BitVec 8}
    (hp : app.perilus.setMemoryByte app.memAddr value = some p)
    (h : moveMemory { app with perilus := p } direction = some app') : WritesData app app' := by
  obtain ⟨hperilus, hpc⟩ := moveMemory_sameMachine h
  have hlt := Simulator.lt_of_setMemoryByte hp
  rw [Simulator.setMemoryByte_of_lt _ hlt] at hp
  exact ⟨.inl ⟨_, hperilus.trans (Option.some.inj hp).symm⟩, hpc⟩

theorem writesData_of_register {register : Fin 32} {value : BitVec 32}
    (h : moveRegister { app with perilus := app.perilus.setRegister register value } direction =
      some app') : WritesData app app' := by
  obtain ⟨hperilus, hpc⟩ := moveRegister_sameMachine h
  exact ⟨.inr ⟨_, _, hperilus⟩, hpc⟩

theorem writesPc_of_cell {value : BitVec 32}
    (h : moveRegister { app with perilus := app.perilus.setPc value, currentPc := value }
      direction = some app') : WritesPc app value app' := by
  obtain ⟨hperilus, hpc⟩ := moveRegister_sameMachine h
  exact ⟨hperilus, hpc⟩

/-- **What typing a digit writes.** -/
theorem editNibble_cases {nibble : BitVec 8} (h : app.editNibble nibble = some app') :
    (¬ app.OnPcCell ∧ WritesData app app') ∨
      (app.OnPcCell ∧ ∃ n, app.shift = some n ∧
        WritesPc app
          ((app.currentPc &&& ~~~(0xf#32 <<< n)) ||| (nibble.setWidth 32 <<< n)) app') := by
  rw [editNibble] at h
  split at h
  · next hfocus =>
    simp only [bind, Option.bind_eq_some_iff] at h
    obtain ⟨byte, -, p, hp, hmove⟩ := h
    have hcell : ¬ app.OnPcCell := by
      rintro ⟨hregs, -⟩
      rw [hfocus] at hregs
      cases hregs
    exact .inl ⟨hcell, writesData_of_byte hp hmove⟩
  · next hfocus =>
    obtain ⟨n, hn, h⟩ := Option.bind_eq_some_iff.1 h
    split at h
    · next hindex => exact .inr ⟨⟨hfocus, hindex⟩, n, hn, writesPc_of_cell h⟩
    · next hindex =>
      obtain ⟨register, -, h⟩ := Option.bind_eq_some_iff.1 h
      exact .inl ⟨fun hcell => hindex hcell.2, writesData_of_register h⟩

/-- **What a backspace writes.** -/
theorem backspace_cases (h : app.backspace = some app') :
    WritesData app app' ∨
      ∃ n : ℕ, WritesPc app (app.currentPc &&& ~~~(0xf#32 <<< n)) app' := by
  rw [backspace] at h
  split at h
  · split at h
    · exact .inl (Option.some.inj h ▸ SameMachine.writesData (.refl app))
    · simp only [bind, Option.bind_eq_some_iff] at h
      obtain ⟨byte, -, p, hp, hmove⟩ := h
      exact .inl (writesData_of_byte hp hmove)
  · split at h
    · exact .inl (Option.some.inj h ▸ SameMachine.writesData (.refl app))
    · obtain ⟨n, -, h⟩ := Option.bind_eq_some_iff.1 h
      split at h
      · exact .inr ⟨n, writesPc_of_cell h⟩
      · obtain ⟨register, -, h⟩ := Option.bind_eq_some_iff.1 h
        exact .inl (writesData_of_register h)

/-- **What clearing the cell under the cursor writes.** -/
theorem clearCursor_cases (h : app.clearCursor = some app') :
    WritesData app app' ∨ WritesPc app 0 app' := by
  rw [clearCursor] at h
  split at h
  · split at h
    · obtain ⟨p, hp, h⟩ := Option.bind_eq_some_iff.1 h
      rw [Simulator.setMemory_of_lt _ (Simulator.lt_of_setMemory hp)] at hp
      obtain rfl := Option.some.inj h
      exact .inl ⟨.inl ⟨_, (Option.some.inj hp).symm⟩, rfl⟩
    · obtain ⟨p, hp, h⟩ := Option.bind_eq_some_iff.1 h
      rw [Simulator.setMemoryByte_of_lt _ (Simulator.lt_of_setMemoryByte hp)] at hp
      obtain rfl := Option.some.inj h
      exact .inl ⟨.inl ⟨_, (Option.some.inj hp).symm⟩, rfl⟩
  · split at h
    · obtain rfl := Option.some.inj h
      exact .inr ⟨rfl, rfl⟩
    · split at h
      · obtain rfl := Option.some.inj h
        exact .inl ⟨.inr ⟨_, _, rfl⟩, rfl⟩
      · exact .inl (Option.some.inj h ▸ SameMachine.writesData (.refl app))

end SimApp

end Perilus

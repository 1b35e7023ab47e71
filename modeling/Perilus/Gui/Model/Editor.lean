import Perilus.Gui.Model.Reference
/-!
# Debugger — an editor of two lines

The hex digits of memory are one line and those of the register grid
another, each with its cursor. A digit typed replaces the one under the
cursor, and a cursor is always on a digit.
-/

namespace Perilus

/-! ## Lines -/

/-- **A line of `n` hex digits**, with a cursor on one of them. -/
@[ext] structure Line (n : ℕ) where
  digits : Fin n → BitVec 4
  cursor : Fin n

namespace Line

variable {n : ℕ} (l : Line n)

def moveTo (p : Fin n) : Line n := { l with cursor := p }

/-- The digit under the cursor replaced, and a move over rows of `w`. -/
def write (w : ℕ) (d : BitVec 4) (direction : Direction) : Line n where
  digits := Function.update l.digits l.cursor d
  cursor := gridMove w direction l.cursor

/-- The digit under the cursor, unless it is the first, and back. -/
def erase (w : ℕ) : Line n := if l.cursor.val = 0 then l else l.write w 0 .left

/-- The group of `g` digits the cursor is in. -/
def clear (g : ℕ) : Line n :=
  { l with digits := fun p => if p.val / g = l.cursor / g then 0 else l.digits p }

end Line

/-- The digits that belong together on the screen. -/
def ViewMode.group : ViewMode → ℕ
  | .word => 8
  | .byte => 2

def ViewMode.other : ViewMode → ViewMode
  | .word => .byte
  | .byte => .word

theorem reposition_lt (view view' : ViewMode) (p : Fin memoryDigits) :
    bytePosition view' (digitByte view p) + p % 2 < memoryDigits :=
  bytePosition_lt view' ⟨_, digitByte_lt view p.isLt⟩ ⟨p % 2, Nat.mod_lt _ (Nat.succ_pos 1)⟩

/-- Where a digit of one view stands in another. -/
def reposition (view view' : ViewMode) (p : Fin memoryDigits) : Fin memoryDigits :=
  ⟨bytePosition view' (digitByte view p) + p % 2, reposition_lt view view' p⟩

/-! ## The editor -/

/-- What edits the panes: keys, and clicks on their digits. -/
inductive EditKey
  | digit (d : BitVec 4)
  | backspace
  | clear
  | move (direction : Direction)
  | group (forward : Bool)
  | view
  | focus (pane : Focus)
  | clickMemory (row : Fin SimApp.totalRows) (col : Fin 64)
  | clickRegister (col : Fin 4) (row nib : Fin 8)

def EditKey.command : EditKey → Command
  | .digit d => .editNibble d
  | .backspace => .backspace
  | .clear => .clearCursor
  | .move direction => .moveCursor direction
  | .group forward => .moveMemoryGroup forward
  | .view => .toggleView
  | .focus pane => .setFocus pane
  | .clickMemory row col => .selectMemory row col
  | .clickRegister col row nib => .selectRegister col row nib

/-- **An editor of two lines.** -/
structure Editor where
  memory : Line memoryDigits
  grid : Line 256
  view : ViewMode
  focus : Focus

namespace Editor

variable (e : Editor)

/-- The line with the focus changed. -/
def change (f : Line memoryDigits → Line memoryDigits) (g : Line 256 → Line 256) : Editor :=
  match e.focus with
  | .memory => { e with memory := f e.memory }
  | .registers => { e with grid := g e.grid }

/-- **One key.** -/
def press : EditKey → Editor
  | .digit d => e.change (·.write 64 d .right) (·.write 8 d .right)
  | .backspace => e.change (·.erase 64) (·.erase 8)
  | .clear => e.change (·.clear e.view.group) (·.clear 8)
  | .move direction =>
    e.change (fun l => l.moveTo (gridMove 64 direction l.cursor))
      (fun l => l.moveTo (gridMove 8 direction l.cursor))
  | .group forward => e.change (fun l => l.moveTo (gridGroup e.view.group forward l.cursor)) id
  | .view =>
    { e with
      memory :=
        { digits := fun p => e.memory.digits (reposition e.view.other e.view p)
          cursor := reposition e.view e.view.other e.memory.cursor }
      view := e.view.other }
  | .focus pane => { e with focus := pane }
  | .clickMemory row col =>
    { e with memory := e.memory.moveTo (rowDigit row col), focus := .memory }
  | .clickRegister col row nib =>
    { e with grid := e.grid.moveTo (gridCell col row nib), focus := .registers }

end Editor

end Perilus

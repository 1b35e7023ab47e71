import Perilus.Common.Digits
import Perilus.Gui.Model.Command
import Perilus.Hardware.Isa
import Perilus.Hardware.Model.Dialect
/-!
# Debugger — what it is for

`IsaApp` is a debugger of the reference machine under its clock. Its
machine holds numbers and bytes, and each of its cursors is a position
among hex digits. It says nothing of a write while a word is in flight,
nor of a clock at an odd address.
-/

namespace Perilus

open ByteMemory Dialect Digits

/-! ## Positions -/

/-- The hex digits of memory. -/
abbrev memoryDigits : ℕ := 2 * memoryBytes

/-- The byte a digit belongs to, from its position on the screen. Word
view turns the four bytes of a word around. -/
def digitByte : ViewMode → ℕ → ℕ
  | .word, p => p / 8 * 4 + (3 - p % 8 / 2)
  | .byte, p => p / 2

/-- The position of the high digit of a byte. -/
def bytePosition : ViewMode → ℕ → ℕ
  | .word, a => a / 4 * 8 + (3 - a % 4) * 2
  | .byte, a => a * 2

theorem memoryDigits_eq : memoryDigits = 64 * SimApp.totalRows := rfl

theorem digitByte_lt (view : ViewMode) {p : ℕ} (hp : p < memoryDigits) :
    digitByte view p < memoryBytes := by
  have hwords : memoryBytes = 4 * 2 ^ memoryBits := rfl
  rw [memoryDigits] at hp
  cases view <;> simp only [digitByte] <;> omega

theorem bytePosition_lt (view : ViewMode) (a : Fin memoryBytes) (nib : Fin 2) :
    bytePosition view a + nib < memoryDigits := by
  have ha := a.isLt
  have hwords : memoryBytes = 4 * 2 ^ memoryBits := rfl
  rw [memoryDigits]
  cases view <;> simp only [bytePosition] <;> omega

theorem rowDigit_lt (row : Fin SimApp.totalRows) (col : Fin 64) :
    64 * row.val + col < memoryDigits := by
  have := row.isLt
  rw [memoryDigits_eq]
  omega

/-- A digit by its place on the screen. -/
def rowDigit (row : Fin SimApp.totalRows) (col : Fin 64) : Fin memoryDigits :=
  ⟨64 * row + col, rowDigit_lt row col⟩

/-- A digit of the register grid, which goes down its four columns. -/
def gridCell (col : Fin 4) (row nib : Fin 8) : Fin 256 :=
  ⟨8 * (8 * col + row) + nib, by omega⟩

section Grid

variable {n : ℕ} (w : ℕ)

/-- A cursor over `n` digits in rows of `w`: along a line, from row to row,
and nowhere over the ends. -/
def gridMove : Direction → Fin n → Fin n
  | .left, p => ⟨p - 1, by omega⟩
  | .right, p => ⟨min (p + 1) (n - 1), by omega⟩
  | .up, p => if w ≤ p then ⟨p - w, by omega⟩ else p
  | .down, p => if h : p + w < n then ⟨p + w, h⟩ else p

/-- The first digit of the next group of `w`, or of the one before. -/
def gridGroup (forward : Bool) (p : Fin n) : Fin n :=
  if forward then if h : (p / w + 1) * w < n then ⟨(p / w + 1) * w, h⟩ else p
  else if 0 < p / w then
    ⟨(p / w - 1) * w, by
      have hle := Nat.div_mul_le_self p w
      have hpred : (p / w - 1) * w ≤ p / w * w := Nat.mul_le_mul_right w (Nat.sub_le _ 1)
      omega⟩
  else p

end Grid

/-! ## The machine -/

section Machine

variable {N : ℕ} [NeZero N]

/-- The cell of the register grid changed: 0 is the pc. -/
def modifyCell (i : Fin 32) (f : ℕ → ℕ) (s : Rv32i.State N) : Rv32i.State N :=
  if i = 0 then { s with pc := f s.pc } else { s with x := Function.update s.x i (f (s.x i)) }

/-- A byte of memory changed. -/
def modifyByte (a : ℕ) (f : ℕ → ℕ) (s : Rv32i.State N) : Rv32i.State N :=
  { s with mem := store s.mem a 1 (f (byteAt s.mem a).toNat) }

/-- The goal of a run, at the start of a word. -/
def Dialect.Timed.AtTarget (target : ℕ) (t : Timed N) : Prop :=
  t.phase = 0 ∧ t.machine.pc = target

instance Dialect.Timed.decidableAtTarget (target : ℕ) (t : Timed N) :
    Decidable (t.AtTarget target) :=
  inferInstanceAs (Decidable (_ ∧ _))

/-- **To the end of the word**, or for `n` cycles if it has none. -/
def Dialect.Timed.finish (n : ℕ) (t : Timed N) : Timed N :=
  match step t.machine with
  | none => Timed.tick^[n] t
  | some s => ⟨s, 0⟩

/-- The cycles up to the goal, `limit` at most; after the last of them
nobody looks. -/
def Dialect.Timed.cyclesTo (target limit : ℕ) (t : Timed N) : ℕ :=
  ((List.range limit).find? fun i => (Timed.tick^[i] t).AtTarget target).getD limit

end Machine

/-! ## The debugger -/

/-- **A debugger of the reference.** -/
structure IsaApp where
  timed : Timed memoryBytes
  runState : RunState
  /-- The cycles of the run to a pc so far. -/
  runCycles : ℕ
  view : ViewMode
  focus : Focus
  /-- The cursor of the memory view. -/
  digit : Fin memoryDigits
  /-- The cursor of the register grid: `8 * cell + nibble`. -/
  cell : Fin 256
  addressInput : String

namespace IsaApp

/-- Everything zero. -/
def new : IsaApp where
  timed := ⟨⟨0, fun _ => 0, fun _ => 0⟩, 0⟩
  runState := .idle
  runCycles := 0
  view := .word
  focus := .registers
  digit := 0
  cell := 0
  addressInput := ""

variable (t : IsaApp)

/-- The byte under the cursor. -/
def byte : Fin memoryBytes := ⟨digitByte t.view t.digit, digitByte_lt t.view t.digit.isLt⟩

/-- A write, between two words. -/
def edit (f : Rv32i.State memoryBytes → Rv32i.State memoryBytes) : Option IsaApp :=
  if t.timed.phase = 0 then some { t with timed := ⟨f t.timed.machine, 0⟩ } else none

/-- Some cycles. -/
def clock (f : Timed memoryBytes → Timed memoryBytes) : Option IsaApp :=
  if t.timed.Clockable then some { t with timed := f t.timed } else none

/-- The digit under the cursor replaced. -/
def writeDigit (d : ℕ) : Option IsaApp :=
  match t.focus with
  | .memory => t.edit (modifyByte t.byte fun v => setDigit 16 v (1 - t.digit % 2) d)
  | .registers =>
    t.edit (modifyCell (Fin.ofNat 32 (t.cell / 8)) fun v => setDigit 16 v (7 - t.cell % 8) d)

def moveCursor (direction : Direction) : IsaApp :=
  match t.focus with
  | .memory => { t with digit := gridMove 64 direction t.digit }
  | .registers => { t with cell := gridMove 8 direction t.cell }

/-- Nothing comes before the cursor. -/
def AtStart : Prop :=
  match t.focus with
  | .memory => t.digit.val = 0
  | .registers => t.cell.val = 0

instance decidableAtStart : Decidable t.AtStart := by
  unfold AtStart
  split <;> infer_instance

def backspace : Option IsaApp :=
  if t.AtStart then some t else (t.writeDigit 0).map (moveCursor · .left)

/-- The word or the byte under the cursor, or its cell, set to zero. -/
def clearCursor : Option IsaApp :=
  match t.focus, t.view with
  | .memory, .word => t.edit fun s => { s with mem := store s.mem (t.byte / 4 * 4) 4 0 }
  | .memory, .byte => t.edit (modifyByte t.byte fun _ => 0)
  | .registers, _ => t.edit (modifyCell (Fin.ofNat 32 (t.cell / 8)) fun _ => 0)

/-- The memory cursor put on a digit of a byte. -/
def select (a : Fin memoryBytes) (nib : Fin 2) : IsaApp :=
  { t with digit := ⟨bytePosition t.view a + nib, bytePosition_lt t.view a nib⟩ }

/-- The cursor stays on its digit, which is elsewhere on the screen. -/
def toggleView : IsaApp :=
  select { t with view := match t.view with | .word => .byte | .byte => .word }
    t.byte (Fin.ofNat 2 t.digit)

def runToPc (target : BitVec 32) : IsaApp :=
  { t with runCycles := 0, runState := .runToPc target }

/-- A frame with time for `budget` cycles; running to a pc, for at least
one. -/
def frame (budget : ℕ) : Option IsaApp :=
  match t.runState with
  | .idle => some t
  | .freeRun => t.clock Timed.tick^[budget]
  | .runToPc target =>
    let limit := min (budget + 1) (max 1 (maxRunCycles - t.runCycles))
    let n := t.timed.cyclesTo target.toNat limit
    (t.clock Timed.tick^[n]).map fun t' =>
      { t' with
        runCycles := t.runCycles + n
        runState :=
          if n < limit ∨ maxRunCycles ≤ t.runCycles + n then .idle else .runToPc target }

/-- **One command.** -/
def exec : Command → Option IsaApp
  | .simulator _ => none
  | .stepCycle => t.clock Timed.tick
  | .nextInstruction => t.clock (Timed.finish 64)
  | .reset => some { t with timed := t.timed.reset, runState := .idle }
  | .loadPath _ (.error _) => some t
  | .loadPath _ (.ok image) =>
    if image.length > memoryBytes then some t
    else t.edit fun s =>
      { s with mem := fun i => if i.val < image.length then image.getD i.val 0 else s.mem i }
  | .runToPc target => some (t.runToPc target)
  | .runToInputPc =>
    match parseHex t.addressInput with
    | some target => some (t.runToPc target)
    | none => some t
  | .runToCursor => some (t.runToPc (BitVec.ofNat 32 (t.byte / 4 * 4)))
  | .toggleFreeRun =>
    some { t with runState := match t.runState with | .freeRun => .idle | _ => .freeRun }
  | .stop => some { t with runState := .idle }
  | .frame budget => t.frame budget
  | .setPcToCursor => t.edit ({ · with pc := t.byte / 4 * 4 })
  | .editNibble nibble => (t.writeDigit nibble.toNat).map (moveCursor · .right)
  | .backspace => t.backspace
  | .clearCursor => t.clearCursor
  | .moveCursor direction => some (t.moveCursor direction)
  | .moveMemoryGroup forward =>
    if t.focus = .memory then
      let group := match t.view with | .word => 8 | .byte => 2
      some { t with digit := gridGroup group forward t.digit }
    else some t
  | .jumpToAddress =>
    match parseHex t.addressInput with
    | some addr => some { t.select (Fin.ofNat memoryBytes addr.toNat) 0 with focus := .memory }
    | none => some t
  | .scrollPage _ | .showRows _ => some t
  | .toggleView => some t.toggleView
  | .setFocus focus => some { t with focus }
  | .selectMemory row col =>
    some { t with digit := rowDigit row col, focus := .memory }
  | .selectRegister col row nib =>
    some { t with cell := gridCell col row nib, focus := .registers }
  | .typeAddress text => some { t with addressInput := text }

end IsaApp

end Perilus

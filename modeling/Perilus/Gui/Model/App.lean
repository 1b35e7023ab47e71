import Perilus.Common.Text
import Perilus.Gui.Model.State
import Perilus.Simulator.Model.Core
/-!
# Debugger — the application state and its commands

`app.rs`: `SimApp` and what its commands do to it, in a build with
overflow checks. A Rust panic is `none`. `u8` and `usize` values are
natural numbers, and every subtraction of theirs is `checkedSub`, also
where a guard protects it. What a file holds when it is read is the
environment's, and so is the number of clock pulses a frame has time for.
-/

namespace Perilus

/-- Subtraction that panics below zero. -/
def checkedSub (m n : ℕ) : Option ℕ := if n ≤ m then some (m - n) else none

theorem checkedSub_of_le {m n : ℕ} (h : n ≤ m) : checkedSub m n = some (m - n) := if_pos h

/-- `Register::new`. -/
def Register.new (n : ℕ) : Option (Fin 32) := if h : n < 32 then some ⟨n, h⟩ else none

/-- `BYTES_PER_ROW`. -/
def bytesPerRow : ℕ := 32

/-- `WORDS_PER_ROW`. -/
def wordsPerRow : ℕ := 8

/-- `NUM_CELLS`. -/
def numCells : ℕ := 32

/-- `MAX_RUN_CYCLES`. -/
def maxRunCycles : ℕ := 50000000

/-- `parse_hex`. -/
def parseHex (text : String) : Option (BitVec 32) :=
  let trimmed := trim text.toList
  let digits := match trimmed with
    | '0' :: 'x' :: digits => digits
    | '0' :: 'X' :: digits => digits
    | _ => trimmed
  if digits = [] then none else fromStrRadix16 digits

/-- `SimApp`. -/
structure SimApp where
  perilus : Simulator
  currentPc : BitVec 32
  runState : RunState
  view : ViewMode
  focus : Focus
  /-- The memory cursor: byte address and nibble, 0 the high one. -/
  memAddr : BitVec 32
  memNib : ℕ
  /-- The cursor of the register grid: cell, 0 the pc and `i` the register
  `xi`, and nibble. -/
  regIndex : ℕ
  regNib : ℕ
  addressInput : String
  scrollToRow : Option ℕ
  /-- The rows on screen, from the first to before the second. -/
  memViewport : ℕ × ℕ
  status : String
  runCycles : ℕ

namespace SimApp

def new : SimApp where
  perilus := Simulator.init
  currentPc := Simulator.init.getPc
  runState := .idle
  view := .word
  focus := .registers
  memAddr := 3
  memNib := 0
  regIndex := 0
  regNib := 0
  addressInput := ""
  scrollToRow := none
  memViewport := (0, 0)
  status := "Ready"
  runCycles := 0

variable (app : SimApp)

/-! ## The clock -/

/-- `sync_pc`: the pc is captured at an instruction boundary. -/
def syncPc : SimApp :=
  if app.perilus.getControlUnitState = 0 then { app with currentPc := app.perilus.getPc } else app

def reset : SimApp :=
  { syncPc { app with perilus := app.perilus.resetPulse, runState := .idle } with
    status := "Reset" }

def stepCycle : SimApp :=
  { syncPc { app with perilus := app.perilus.pulseClock } with status := "Stepped one cycle" }

/-- `MAX_STATES_PER_INSTRUCTION`. -/
def maxStatesPerInstruction : ℕ := 64

/-- The loop of `next_instruction`, with so many states left. -/
def finishInstruction : ℕ → Simulator → Simulator
  | 0, p => p
  | states + 1, p =>
    if p.getControlUnitState = 0 then p else finishInstruction states p.pulseClock

def nextInstruction : SimApp :=
  let perilus := finishInstruction (maxStatesPerInstruction - 1) app.perilus.pulseClock
  let app := syncPc { app with perilus }
  if app.perilus.getControlUnitState = 0 then { app with status := "Stepped one instruction" }
  else { app with status := "Stopped: control unit did not return to fetch" }

def runToPc (target : BitVec 32) : SimApp :=
  { app with runCycles := 0, runState := .runToPc target }

def runToInputPc : SimApp :=
  match parseHex app.addressInput with
  | some target => app.runToPc target
  | none => { app with status := "Invalid PC target " ++ debugStr app.addressInput }

def toggleFreeRun : SimApp :=
  { app with
    runState :=
      match app.runState with
      | .freeRun => .idle
      | _ => .freeRun }

def stop : SimApp :=
  { app with
    status := if app.runState ≠ .idle then "Stopped" else app.status
    runState := .idle }

/-- The loop of a `RunToPc` frame that has time for `budget` pulses after
its first. -/
def runToPcLoop (target : BitVec 32) : ℕ → SimApp → SimApp
  | budget, app =>
    if app.perilus.getControlUnitState = 0 ∧ app.perilus.getPc = target then
      { app with status := "Reached PC 0x" ++ hex08 target, runState := .idle }
    else
      let app := { app with perilus := app.perilus.pulseClock, runCycles := app.runCycles + 1 }
      if app.runCycles ≥ maxRunCycles then
        { app with
          status := "Stopped: did not reach PC 0x" ++ hex08 target ++ " after " ++
            toString maxRunCycles ++ " cycles"
          runState := .idle }
      else
        match budget with
        | 0 => app
        | budget + 1 => runToPcLoop target budget app

/-- `logic`, for a frame that has time for `budget` pulses; running to a
pc, it looks at the time after a pulse. -/
def logic (budget : ℕ) : SimApp :=
  match app.runState with
  | .idle => app
  | .freeRun => syncPc { app with perilus := Simulator.pulseClock^[budget] app.perilus }
  | .runToPc target => (runToPcLoop target budget app).syncPc

/-! ## Files and the pc -/

/-- `load_path`, given what reading the file returned. -/
def loadPath (path : String) (contents : Except String (List (BitVec 8))) : Option SimApp := do
  let (loaded, perilus) ← app.perilus.loadFile contents
  let status := match loaded with
    | .ok () => "Loaded memory from " ++ path
    | .error e => "Load failed: " ++ e
  return syncPc { app with perilus, status }

def jumpToAddress : SimApp :=
  match parseHex app.addressInput with
  | some addr =>
    let addr := addr &&& (BitVec.ofNat 32 Simulator.memorySizeBytes - 1)
    { app with
      memAddr := addr
      memNib := 0
      scrollToRow := some (addr.toNat / bytesPerRow)
      focus := .memory
      status := "Selection moved to 0x" ++ hex08 addr }
  | none => { app with status := "Invalid address " ++ debugStr app.addressInput }

/-- `cursor_word`: the word containing the memory cursor. -/
def cursorWord : BitVec 32 := app.memAddr &&& ~~~3

def setPcToCursor : SimApp :=
  let pc := app.cursorWord
  { app with
    perilus := app.perilus.setPc pc, currentPc := pc, status := "Set PC to 0x" ++ hex08 pc }

def runToCursor : SimApp := app.runToPc app.cursorWord

/-! ## The cursors -/

/-- The row of the memory cursor. -/
def row : ℕ := app.memAddr.toNat / bytesPerRow

/-- Its column, as the commands look it up on the screen. -/
def col : ℕ :=
  let offset := app.memAddr.toNat % bytesPerRow
  ((rowDigits app.view).findIdx? fun p => p.1 = offset ∧ p.2 = app.memNib).getD 0

/-- The rows of the memory view. -/
def totalRows : ℕ := Simulator.memorySizeWords / wordsPerRow

/-- The memory cursor set from a row and a column. -/
def select (row col : ℕ) : Option SimApp := do
  let (offset, nib) ← (rowDigits app.view)[col]?
  return { app with memAddr := BitVec.ofNat 32 (row * bytesPerRow + offset), memNib := nib }

def moveMemory (direction : Direction) : Option SimApp :=
  let row := app.row
  let col := app.col
  match direction with
  | .left =>
    if col = 0 ∧ row > 0 then do app.select (← checkedSub row 1) 63
    else if col > 0 then do app.select row (← checkedSub col 1)
    else app.select row col
  | .right =>
    if col = 63 ∧ row + 1 < totalRows then app.select (row + 1) 0
    else if col < 63 then app.select row (col + 1)
    else app.select row col
  | .up => if row > 0 then do app.select (← checkedSub row 1) col else app.select row col
  | .down => if row + 1 < totalRows then app.select (row + 1) col else app.select row col

/-- `group`: the digits of a word or a byte. -/
def group : ℕ :=
  match app.view with
  | .word => 8
  | .byte => 2

/-- `move_memory_group`: to the first digit of the previous or the next
word or byte. -/
def moveMemoryGroup (forward : Bool) : Option SimApp :=
  let row := app.row
  let col := app.col
  let group := app.group
  let groupsPerRow := 64 / group
  let index := col / group
  if forward then
    if index + 1 < groupsPerRow then app.select row ((index + 1) * group)
    else if row + 1 < totalRows then app.select (row + 1) 0
    else app.select row col
  else if index > 0 then do app.select row ((← checkedSub index 1) * group)
  else if row > 0 then do
    app.select (← checkedSub row 1) ((← checkedSub groupsPerRow 1) * group)
  else app.select row col

def moveRegister (direction : Direction) : Option SimApp :=
  match direction with
  | .left =>
    if app.regNib = 0 ∧ app.regIndex > 0 then do
      return { app with regIndex := ← checkedSub app.regIndex 1, regNib := 7 }
    else if app.regNib > 0 then do return { app with regNib := ← checkedSub app.regNib 1 }
    else some app
  | .right => do
    let last ← checkedSub numCells 1
    if app.regNib = 7 ∧ app.regIndex < last then
      return { app with regIndex := app.regIndex + 1, regNib := 0 }
    else if app.regNib < 7 then return { app with regNib := app.regNib + 1 }
    else return app
  | .up =>
    if app.regIndex > 0 then do return { app with regIndex := ← checkedSub app.regIndex 1 }
    else some app
  | .down => do
    let last ← checkedSub numCells 1
    if app.regIndex < last then return { app with regIndex := app.regIndex + 1 } else return app

def moveCursor (direction : Direction) : Option SimApp :=
  match app.focus with
  | .memory => app.moveMemory direction
  | .registers => app.moveRegister direction

/-- `scroll_page`, whose arithmetic is signed. The length of a range that
ends before it starts is zero. -/
def scrollPage (down : Bool) : SimApp :=
  let page : ℤ := max (app.memViewport.2 - app.memViewport.1 : ℕ) 1
  let top : ℤ := app.memViewport.1
  let newTop := if down then min (top + page) (totalRows - 1) else max (top - page) 0
  { app with scrollToRow := some newTop.toNat }

/-! ## Editing -/

/-- The shift of the register grid's digit under the cursor. -/
def shift : Option ℕ := do return (← checkedSub 7 app.regNib) * 4

def editNibble (nibble : BitVec 8) : Option SimApp :=
  match app.focus with
  | .memory => do
    let addr := app.memAddr
    let byte ← app.perilus.getMemoryByte addr
    let byte :=
      if app.memNib = 0 then (byte &&& 0x0f) ||| (nibble <<< 4) else (byte &&& 0xf0) ||| nibble
    let perilus ← app.perilus.setMemoryByte addr byte
    moveMemory { app with perilus } .right
  | .registers => do
    let shift ← app.shift
    if app.regIndex = 0 then
      let value := (app.currentPc &&& ~~~(0xf#32 <<< shift)) ||| (nibble.setWidth 32 <<< shift)
      moveRegister { app with perilus := app.perilus.setPc value, currentPc := value } .right
    else
      let register ← Register.new app.regIndex
      let value := app.perilus.getRegisters register
      let value := (value &&& ~~~(0xf#32 <<< shift)) ||| (nibble.setWidth 32 <<< shift)
      moveRegister { app with perilus := app.perilus.setRegister register value } .right

def backspace : Option SimApp :=
  match app.focus with
  | .memory =>
    if app.memAddr.toNat < bytesPerRow ∧ app.col = 0 then some app
    else do
      let addr := app.memAddr
      let byte ← app.perilus.getMemoryByte addr
      let byte := if app.memNib = 0 then byte &&& 0x0f else byte &&& 0xf0
      let perilus ← app.perilus.setMemoryByte addr byte
      moveMemory { app with perilus } .left
  | .registers =>
    if app.regIndex = 0 ∧ app.regNib = 0 then some app
    else do
      let shift ← app.shift
      if app.regIndex = 0 then
        let value := app.currentPc &&& ~~~(0xf#32 <<< shift)
        moveRegister { app with perilus := app.perilus.setPc value, currentPc := value } .left
      else
        let register ← Register.new app.regIndex
        let value := app.perilus.getRegisters register &&& ~~~(0xf#32 <<< shift)
        moveRegister { app with perilus := app.perilus.setRegister register value } .left

def clearCursor : Option SimApp :=
  match app.focus with
  | .memory =>
    match app.view with
    | .word => do
      let word := app.memAddr / 4
      let perilus ← app.perilus.setMemory word 0
      return { app with perilus, status := "Cleared word 0x" ++ hex08 (word * 4) }
    | .byte => do
      let perilus ← app.perilus.setMemoryByte app.memAddr 0
      return { app with perilus, status := "Cleared byte 0x" ++ hex08 app.memAddr }
  | .registers =>
    if app.regIndex = 0 then
      some { app with perilus := app.perilus.setPc 0, currentPc := 0, status := "Cleared PC" }
    else
      match Register.new app.regIndex with
      | some register =>
        some { app with
          perilus := app.perilus.setRegister register 0
          status := "Cleared x" ++ toString app.regIndex }
      | none => some app

end SimApp

end Perilus

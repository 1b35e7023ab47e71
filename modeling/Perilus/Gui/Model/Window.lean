import Perilus.Common.Reachable
import Perilus.Gui.Model.Chrono
import Perilus.Gui.Model.Command
import Perilus.Gui.Model.Screen
import Perilus.Simulator.Model.Trace
/-!
# Debugger — the window, frame by frame

`logic` and `ui` of `app.rs` with the panes of `controls.rs`, `memory.rs`
and `registers.rs`: what a frame does to the application, in the order it
does it. What was pressed, clicked and typed and which rows are on screen
is what egui reports, and `Frame` holds it; what the clock and the file
system answer is the environment's.
-/

namespace Perilus

/-- `PathBuf::join` of a relative name. -/
def joinPath (dir name : String) : String :=
  match dir.toList.getLast? with
  | none | some '/' => dir ++ name
  | some _ => dir ++ "/" ++ name

/-- The bytes of a file's name. -/
def fileBytes (file : String) : List (BitVec 8) := file.toUTF8.data.toList.map UInt8.toBitVec

/-- What the host answers when a trace is switched on. -/
structure Host where
  /-- The seconds since the epoch, unless the clock is before it. -/
  now : Option (BitVec 64)
  tempDir : String
  /-- What creating the directory of the trace file returned. -/
  created : Except String Unit

/-- The path of the trace file. The clock before the epoch is a panic, and
so, where overflow is checked, is `chrono_lite`'s. -/
def Host.traceFile (host : Host) : Option String := do
  let timestamp ← host.now
  let iso ← chronoLite timestamp
  return joinPath host.tempDir ("perilus-" ++ iso ++ ".vcd")

/-- `SimApp`, with the rest of its fields. -/
structure Window extends SimApp where
  showAliases : Bool
  followPc : Bool
  followPcLast : BitVec 32
  focusAddress : Bool
  tracing : Bool
  traceFile : String

/-- Rows of the memory view, from the first to before the last. -/
structure Rows where
  first : ℕ
  last : ℕ
  le : first ≤ last
  le_totalRows : last ≤ SimApp.totalRows

/-- What happens to the application within a frame. -/
inductive Event
  | command (c : Command)
  | toggleFollow
  | toggleNames
  /-- The key that asks for the focus of the address field. -/
  | focusAddress
  /-- The field takes it. -/
  | takeFocus
  | toggleTrace (host : Host)
  | saveMemory (path : String) (written : Except String Unit)
  /-- The register grid is painted. -/
  | showRegisters
  /-- The memory view scrolls and shows its rows. -/
  | showMemory (rows : Rows)

/-- **The screen.** -/
structure Screen where
  state : String
  controlUnit : String
  status : String
  registers : List RegisterCell
  freeRun : String
  tracing : Bool
  names : Bool
  byteView : Bool
  follow : Bool
  addressInput : String
  selected : String
  rows : List MemoryRow

namespace Window

/-- `SimApp::new`. -/
def new : Window where
  toSimApp := SimApp.new
  showAliases := true
  followPc := false
  followPcLast := SimApp.new.currentPc
  focusAddress := false
  tracing := false
  traceFile := ""

variable (w : Window)

def toggleFollow : Window :=
  { w with
    followPc := !w.followPc
    followPcLast := w.currentPc
    status := "Follow PC " ++ if !w.followPc then "on" else "off" }

/-- The call of `start_trace` in `toggle_trace`, and what it reports. -/
def openTrace (host : Host) (traceFile : String) : Window :=
  match w.perilus.startTrace (some host.created) (fileBytes traceFile) with
  | (.ok (), perilus) =>
    { w with perilus, status := "Opened trace file " ++ traceFile, tracing := true, traceFile }
  | (.error e, perilus) => { w with perilus, status := "Trace start failed: " ++ e }

def toggleTrace (host : Host) : Option Window :=
  if w.tracing then
    some { w with
      perilus := w.perilus.stopTrace, status := "Closed trace file " ++ w.traceFile,
      tracing := false }
  else host.traceFile.map (w.openTrace host)

/-- `save_memory`, given what writing the file returned. -/
def saveMemory (path : String) (written : Except String Unit) : Window :=
  { w with
    status :=
      match written with
      | .ok () => "Saved memory to " ++ path
      | .error e => "Save failed: " ++ e }

/-- The register grid. -/
def paintedCells : Option (List RegisterCell) :=
  (List.finRange 32).mapM (w.registerCell w.showAliases)

/-- The rows in view. -/
def paintedRows : Option (List MemoryRow) :=
  (List.range' w.memViewport.1 (w.memViewport.2 - w.memViewport.1)).mapM w.memoryRow

/-- `memory_ui` on its way to the rows: with follow on, a pc that has moved
out of the rows on screen is scrolled to. -/
def lookAtPc : Window :=
  if w.followPc ∧ w.currentPc ≠ w.followPcLast then
    let pcRow := w.currentPc.toNat / bytesPerRow
    let w := { w with followPcLast := w.currentPc }
    if w.memViewport.1 ≤ pcRow ∧ pcRow < w.memViewport.2 then w
    else { w with scrollToRow := some pcRow }
  else w

/-- The rest of it: the scroll target is taken, and egui shows rows. -/
def showMemory (rows : Rows) : Option Window := do
  let w : Window :=
    { w.lookAtPc with scrollToRow := none, memViewport := (rows.first, rows.last) }
  let _ ← w.paintedRows
  return w

/-- `registers_ui` up to the click. -/
def showRegisters : Option Window := do
  let _ ← w.paintedCells
  return w

def exec : Event → Option Window
  | .command c => (w.toSimApp.exec c).map fun toSimApp => { w with toSimApp }
  | .toggleFollow => some w.toggleFollow
  | .toggleNames => some { w with showAliases := !w.showAliases }
  | .focusAddress => some { w with focusAddress := true }
  | .takeFocus => some { w with focusAddress := false }
  | .toggleTrace host => w.toggleTrace host
  | .saveMemory path written => some (w.saveMemory path written)
  | .showRegisters => w.showRegisters
  | .showMemory rows => w.showMemory rows

/-- What the panes show, when nothing is clicked. -/
def screen : Option Screen := do
  let registers ← w.paintedCells
  let rows ← w.paintedRows
  return {
    state := "state: " ++ w.runState.text
    controlUnit := "cu: " ++ toString w.perilus.getControlUnitState
    status := w.status
    registers
    freeRun := if w.runState = .freeRun then "Stop [ctrl+space]" else "Free run [ctrl+space]"
    tracing := w.tracing
    names := w.showAliases
    byteView := w.view = .byte
    follow := w.followPc
    addressInput := w.addressInput
    selected := "selected 0x" ++ hex08 w.memAddr
    rows }

end Window

/-! ## A frame -/

/-- The events that are on, in order. -/
def Event.listed (table : List (Bool × Event)) : List Event :=
  (table.filter Prod.fst).map Prod.snd

/-- `Actions`: the keys of a frame, and the host where one needs it. -/
structure Actions where
  step : Bool := false
  nextInstruction : Bool := false
  reset : Bool := false
  freeRun : Bool := false
  runToCursor : Bool := false
  stop : Bool := false
  focusRegisters : Bool := false
  focusMemory : Bool := false
  focusAddress : Bool := false
  follow : Bool := false
  names : Bool := false
  view : Bool := false
  setPcCursor : Bool := false
  clear : Bool := false
  groupLeft : Bool := false
  groupRight : Bool := false
  pageUp : Bool := false
  pageDown : Bool := false
  left : Bool := false
  right : Bool := false
  up : Bool := false
  down : Bool := false
  backspace : Bool := false
  trace : Option Host := none
  nibble : Option (BitVec 4) := none

namespace Actions

variable (a : Actions)

/-- The one direction that counts. -/
def direction : Option Direction :=
  if a.left then some .left
  else if a.right then some .right
  else if a.up then some .up
  else if a.down then some .down
  else none

/-- `handle_keys`, after the keys are read. -/
def events : List Event :=
  Event.listed [
    (a.runToCursor, .command .runToCursor),
    (a.freeRun, .command .toggleFreeRun),
    (a.step, .command .stepCycle),
    (a.nextInstruction, .command .nextInstruction),
    (a.reset, .command .reset),
    (a.focusRegisters, .command (.setFocus .registers)),
    (a.focusMemory, .command (.setFocus .memory)),
    (a.setPcCursor, .command .setPcToCursor),
    (a.stop, .command .stop),
    (a.focusAddress, .focusAddress),
    (a.follow, .toggleFollow),
    (a.names, .toggleNames),
    (a.view, .command .toggleView)] ++
  a.trace.toList.map .toggleTrace ++
  Event.listed [
    (a.clear, .command .clearCursor),
    (a.groupLeft, .command (.moveMemoryGroup false)),
    (a.groupRight, .command (.moveMemoryGroup true)),
    (a.pageUp, .command (.scrollPage false)),
    (a.pageDown, .command (.scrollPage true))] ++
  a.direction.toList.map (fun direction => .command (.moveCursor direction)) ++
  a.nibble.toList.map (fun nibble => .command (.editNibble nibble)) ++
  Event.listed [(a.backspace, .command .backspace)]

end Actions

/-- The buttons of `controls_ui`, with the file of a dialog that was not
cancelled. -/
structure Controls where
  reset : Bool := false
  stepCycle : Bool := false
  nextInstruction : Bool := false
  freeRun : Bool := false
  setPcToCursor : Bool := false
  runToCursor : Bool := false
  runToPc : Bool := false
  loadMemory : Option (String × Except String (List (BitVec 8))) := none
  saveMemory : Option (String × Except String Unit) := none
  trace : Option Host := none

def Controls.events (c : Controls) : List Event :=
  Event.listed [
    (c.reset, .command .reset),
    (c.stepCycle, .command .stepCycle),
    (c.nextInstruction, .command .nextInstruction),
    (c.freeRun, .command .toggleFreeRun),
    (c.setPcToCursor, .command .setPcToCursor),
    (c.runToCursor, .command .runToCursor),
    (c.runToPc, .command .runToInputPc)] ++
  c.loadMemory.toList.map (fun file => .command (.loadPath file.1 file.2)) ++
  c.saveMemory.toList.map (fun file => .saveMemory file.1 file.2) ++
  c.trace.toList.map .toggleTrace

/-- A click on a digit of the memory view. -/
structure Click where
  row : Fin SimApp.totalRows
  col : Fin 64
  double : Bool

def Click.events (c : Click) : List Event :=
  .command (.selectMemory c.row c.col) :: Event.listed [(c.double, .command .setPcToCursor)]

/-- What happens in the memory pane, and the rows it shows. -/
structure MemoryPane where
  names : Bool := false
  byteView : Bool := false
  follow : Bool := false
  /-- The address field, edited. -/
  text : Option String := none
  /-- The field is left with the enter key. -/
  enter : Bool := false
  go : Bool := false
  rows : Rows := ⟨0, 0, le_rfl, Nat.zero_le _⟩
  click : Option Click := none

/-- `memory_ui`. -/
def MemoryPane.events (p : MemoryPane) : List Event :=
  Event.listed [
    (p.names, .toggleNames),
    (p.byteView, .command .toggleView),
    (p.follow, .toggleFollow)] ++
  p.text.toList.map (fun text => .command (.typeAddress text)) ++
  .takeFocus :: Event.listed [
    (p.enter, .command .jumpToAddress),
    (p.go, .command .jumpToAddress)] ++
  .showMemory p.rows :: p.click.toList.flatMap Click.events

/-- What egui reports of a frame. -/
structure Frame where
  /-- The pulses `logic` has time for. -/
  budget : ℕ := 0
  /-- Nothing while a text field has the focus. -/
  keys : Option Actions := none
  /-- A click on a digit of the register grid. -/
  cell : Option (Fin 4 × Fin 8 × Fin 8) := none
  controls : Controls := {}
  memory : MemoryPane := {}

/-- `logic`, and then `ui`. -/
def Frame.events (f : Frame) : List Event :=
  .command (.frame f.budget) :: f.keys.toList.flatMap Actions.events ++
  .showRegisters ::
    f.cell.toList.map (fun (col, row, nib) => .command (.selectRegister col row nib)) ++
  f.controls.events ++ f.memory.events

/-- The argument of the program, a file to load. -/
def launchEvents (file : Option (String × Except String (List (BitVec 8)))) : List Event :=
  file.toList.map fun (path, contents) => .command (.loadPath path contents)

namespace Window

/-- **A frame of the window.** -/
def frame (w : Window) (f : Frame) : Option Window := Transition.run exec f.events w

/-- **A session**: `main`, and then frame after frame. -/
def session (file : Option (String × Except String (List (BitVec 8)))) (frames : List Frame) :
    Option Window :=
  (Transition.run exec (launchEvents file) new).bind (Transition.run frame frames)

end Window

end Perilus

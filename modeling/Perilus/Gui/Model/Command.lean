import Perilus.Gui.Model.App
/-!
# Debugger — its commands, as the actions of one system

What the keys, the buttons, the mouse and the frames do to the
application, in whatever order they come, with the operations of the
simulator itself among them.
-/

namespace Perilus

inductive Command
  /-- An operation of the simulator behind the application's back. -/
  | simulator (op : Simulator.Op)
  | stepCycle
  | nextInstruction
  | reset
  | loadPath (path : String) (contents : Except String (List (BitVec 8)))
  | runToPc (target : BitVec 32)
  | runToInputPc
  | runToCursor
  | toggleFreeRun
  | stop
  /-- A call of `logic` with time for so many pulses. -/
  | frame (budget : ℕ)
  | setPcToCursor
  /-- One of `HEX_KEYS`. -/
  | editNibble (nibble : BitVec 4)
  | backspace
  | clearCursor
  | moveCursor (direction : Direction)
  | moveMemoryGroup (forward : Bool)
  | jumpToAddress
  | scrollPage (down : Bool)
  | toggleView
  | setFocus (focus : Focus)
  /-- A click on a digit of the memory view. -/
  | selectMemory (row : Fin SimApp.totalRows) (col : Fin 64)
  /-- A click on a digit of the register grid. -/
  | selectRegister (col : Fin 4) (row nib : Fin 8)
  /-- Typing in the address field. -/
  | typeAddress (text : String)
  /-- The memory view shows these rows. -/
  | showRows (rows : ℕ × ℕ)

namespace SimApp

variable (app : SimApp)

def exec : Command → Option SimApp
  | .simulator op => (app.perilus.exec op).map fun perilus => { app with perilus }
  | .stepCycle => some app.stepCycle
  | .nextInstruction => some app.nextInstruction
  | .reset => some app.reset
  | .loadPath path contents => app.loadPath path contents
  | .runToPc target => some (app.runToPc target)
  | .runToInputPc => some app.runToInputPc
  | .runToCursor => some app.runToCursor
  | .toggleFreeRun => some app.toggleFreeRun
  | .stop => some app.stop
  | .frame budget => some (app.logic budget)
  | .setPcToCursor => some app.setPcToCursor
  | .editNibble nibble => app.editNibble (nibble.setWidth 8)
  | .backspace => app.backspace
  | .clearCursor => app.clearCursor
  | .moveCursor direction => app.moveCursor direction
  | .moveMemoryGroup forward =>
    -- the keys do nothing while the register grid has the focus
    if app.focus = .memory then app.moveMemoryGroup forward else some app
  | .jumpToAddress => some app.jumpToAddress
  | .scrollPage down => some (app.scrollPage down)
  | .toggleView =>
    some { app with
      view :=
        match app.view with
        | .word => .byte
        | .byte => .word }
  | .setFocus focus => some { app with focus }
  | .selectMemory row col => (app.select row col).map ({ · with focus := .memory })
  | .selectRegister col row nib => do
    let last ← checkedSub numCells 1
    return { app with regIndex := min (col * 8 + row) last, regNib := nib, focus := .registers }
  | .typeAddress text => some { app with addressInput := text }
  | .showRows rows => some { app with scrollToRow := none, memViewport := rows }

end SimApp

end Perilus

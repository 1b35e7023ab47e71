import Perilus.Hardware.FlatMemory
import Perilus.Hardware.Frame
import Perilus.Hardware.Isa
import Perilus.Hardware.Stale
import Perilus.Hardware.Reset
import Perilus.Hardware.Buffers
import Perilus.Hardware.Fibonacci
import Perilus.Hardware.Immediates
import Perilus.Hardware.RegisterPorts
import Perilus.Hardware.Dialect
import Perilus.Hardware.Lockstep
import Perilus.Hardware.Program
import Perilus.Simulator.Bytes
import Perilus.Simulator.Image
import Perilus.Simulator.TestRunner
import Perilus.Simulator.Trace
import Perilus.Simulator.Verdict
import Perilus.Simulator.Halt
import Perilus.Simulator.Program
import Perilus.Gui.Progress
import Perilus.Gui.CurrentPc
import Perilus.Gui.EvenPc
import Perilus.Gui.Chrono
import Perilus.Gui.SetPc
import Perilus.Gui.RunToPc
import Perilus.Gui.Typing
import Perilus.Gui.Backspace
import Perilus.Gui.Bounds
import Perilus.Gui.Reference
import Perilus.Gui.HexText
import Perilus.Gui.TraceNames
import Perilus.Gui.Window
import Perilus.Gui.Screen
import Perilus.Gui.Editing

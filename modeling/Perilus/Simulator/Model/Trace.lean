import Perilus.Simulator.Model.Core
/-!
# Simulator — tracing

`start_trace` and `stop_trace` of `perilus.rs`, and the operations that
move the simulation time, as the actions of one system. Whether the
directory of the trace file could be created is the environment's.
-/

namespace Perilus

/-- `CString::new`, with the text of its error. -/
def CString.new (bytes : List (BitVec 8)) : Except String (List (BitVec 8)) :=
  match bytes.findIdx? (· = 0) with
  | none => .ok bytes
  | some i => .error ("nul byte found in provided data at position: " ++ toString i)

namespace Simulator

variable (p : Simulator)

/-- `start_trace`, given what creating the parent directory returned, when
the file has one, and the bytes of the file's name. -/
def startTrace (parent : Option (Except String Unit)) (file : List (BitVec 8)) :
    Except String Unit × Simulator :=
  match parent with
  | some (.error e) => (.error e, p)
  | _ =>
    match CString.new file with
    | .error e => (.error e, p)
    | .ok _ => (.ok (), p.startVcd)

/-- `stop_trace`. -/
def stopTrace : Simulator := p.stopVcd

/-- What moves the simulation time, or opens or closes a trace. -/
inductive TraceOp
  | pulseClock
  | reset
  | startTrace (parent : Option (Except String Unit)) (file : List (BitVec 8))
  | stopTrace

def traceExec (p : Simulator) : TraceOp → Simulator
  | .pulseClock => p.pulseClock
  | .reset => p.resetPulse
  | .startTrace parent file => (p.startTrace parent file).2
  | .stopTrace => p.stopTrace

/-- One operation after another. -/
def traceRun (ops : List TraceOp) (p : Simulator) : Simulator := ops.foldl traceExec p

end Simulator

end Perilus

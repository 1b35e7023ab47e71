import Perilus.Simulator.Model.Trace
/-!
# Simulator — the timestamps of a trace

`start_vcd` sets the time back to zero and opens a trace, a pulse dumps
two times and moves on by two, and `perilus_reset_time` leaves the time
alone while a trace is open. So an open trace holds every time from zero
up to the present one (`Tracing`), and nothing else.
-/

namespace Perilus

namespace Simulator

/-- Creating the directory and naming the file both succeed. -/
def CanStart (parent : Option (Except String Unit)) (file : List (BitVec 8)) : Prop :=
  (∀ e, parent ≠ some (.error e)) ∧ 0 ∉ file

/-- The operation ends the open trace: a successful `start_trace`, or
`stop_trace`. -/
def TraceOp.Ends : TraceOp → Prop
  | .startTrace parent file => CanStart parent file
  | .stopTrace => True
  | _ => False

/-- The clock pulses of an operation, the one inside `reset` among them. -/
def TraceOp.pulses : TraceOp → ℕ
  | .pulseClock | .reset => 1
  | _ => 0

/-- The clock pulses of a run. -/
def pulses (ops : List TraceOp) : ℕ := (ops.map TraceOp.pulses).sum

/-- **The open trace holds the times before `n`**, and it is time `n`. -/
structure Tracing (p : Simulator) (n : ℕ) : Prop where
  vcd : p.vcd = some (List.range n)
  time : p.time = n

/-! ## One operation -/

section Operations

variable (p : Simulator)

@[simp] theorem pulseClock_time : p.pulseClock.time = p.time + 2 := rfl

/-- A pulse dumps the time before each of its two edges. -/
theorem pulseClock_vcd : p.pulseClock.vcd = p.vcd.map (· ++ [p.time, p.time + 1]) := by
  have hdump : p.pulseClock.vcd = (p.vcd.map (· ++ [p.time])).map (· ++ [p.time + 1]) := rfl
  rw [hdump, Option.map_map]
  congr 1
  funext ts
  rw [Function.comp_apply, List.append_assoc]
  rfl

variable {file : List (BitVec 8)}

theorem cString_of_notMem (h : 0 ∉ file) : CString.new file = .ok file := by
  have hnone : file.findIdx? (· = 0) = none := by
    rw [List.findIdx?_eq_none_iff]
    rintro b hb
    exact decide_eq_false fun hzero => h (hzero ▸ hb)
  rw [CString.new, hnone]

theorem cString_of_mem (h : 0 ∈ file) : ∃ e, CString.new file = .error e := by
  rw [CString.new]
  split
  · next hnone =>
    rw [List.findIdx?_eq_none_iff] at hnone
    exact absurd rfl (of_decide_eq_false (hnone 0 h))
  · exact ⟨_, rfl⟩

variable {parent : Option (Except String Unit)}

theorem startTrace_of_canStart (h : CanStart parent file) :
    p.startTrace parent file = (.ok (), p.startVcd) := by
  unfold startTrace
  rw [cString_of_notMem h.2]
  split
  · next e => exact absurd rfl (h.1 e)
  · rfl

/-- A `start_trace` that fails returns before `start_vcd`. -/
theorem startTrace_of_not_canStart (h : ¬ CanStart parent file) :
    ∃ e, p.startTrace parent file = (.error e, p) := by
  unfold startTrace
  by_cases hfile : 0 ∈ file
  · obtain ⟨e, he⟩ := cString_of_mem hfile
    rw [he]
    split
    · exact ⟨_, rfl⟩
    · exact ⟨e, rfl⟩
  · -- the name is fine, so it is the directory
    have hparent : ∃ e, parent = some (.error e) := by
      by_contra hnone
      exact h ⟨fun e he => hnone ⟨e, he⟩, hfile⟩
    obtain ⟨e, rfl⟩ := hparent
    exact ⟨e, rfl⟩

end Operations

/-! ## A run -/

namespace Tracing

variable {p : Simulator} {n : ℕ} {op : TraceOp} {ops : List TraceOp}

theorem startVcd : Tracing p.startVcd 0 := ⟨rfl, rfl⟩

theorem pulseClock (h : p.Tracing n) : p.pulseClock.Tracing (n + 2) where
  vcd := by
    rw [pulseClock_vcd, h.vcd, h.time, Option.map_some, List.range_succ, List.range_succ,
      List.append_assoc]
    rfl
  time := by rw [pulseClock_time, h.time]

/-- A reset leaves the time alone, and is a pulse. -/
theorem resetPulse (h : p.Tracing n) : p.resetPulse.Tracing (n + 2) := by
  -- `perilus_reset_time` looks whether a trace is open
  have htime : p.resetTime = p := by
    rw [resetTime, h.vcd]
    rfl
  have hset : (p.setReset true).Tracing n := ⟨h.vcd, h.time⟩
  rw [Simulator.resetPulse, htime]
  exact ⟨hset.pulseClock.vcd, hset.pulseClock.time⟩

/-- **An operation that does not end the trace** dumps two times for each
of its pulses. -/
theorem exec (h : p.Tracing n) (hop : ¬ op.Ends) :
    (p.traceExec op).Tracing (n + 2 * op.pulses) := by
  cases op with
  | pulseClock => exact h.pulseClock
  | reset => exact h.resetPulse
  | startTrace parent file =>
    obtain ⟨e, he⟩ := p.startTrace_of_not_canStart hop
    rw [traceExec, he]
    exact h
  | stopTrace => exact absurd trivial hop

theorem run (h : p.Tracing n) (hops : ∀ op ∈ ops, ¬ op.Ends) :
    (traceRun ops p).Tracing (n + 2 * pulses ops) := by
  induction ops generalizing p n with
  | nil => exact h
  | cons op ops ih =>
    have hrest := ih (h.exec (hops op List.mem_cons_self))
      fun op' hop' => hops op' (List.mem_cons_of_mem op hop')
    rw [Nat.add_assoc, ← Nat.mul_add] at hrest
    exact hrest

end Tracing

/-- **The timestamps of a trace have no gap.** Whatever came before it, a
trace holds two times for each clock pulse since it was started, from
zero on and in order; and a `start_trace` that fails changes nothing. -/
theorem trace_gapFree (before during : List TraceOp) (parent : Option (Except String Unit))
    (file : List (BitVec 8)) :
    (CanStart parent file → (∀ op ∈ during, ¬ op.Ends) →
      (traceRun (before ++ .startTrace parent file :: during) init).vcd =
        some (List.range (2 * pulses during))) ∧
    (¬ CanStart parent file → ∃ e, (traceRun before init).startTrace parent file =
      (.error e, traceRun before init)) := by
  refine ⟨fun hcan hduring => ?_, startTrace_of_not_canStart _⟩
  have hstart : traceExec (traceRun before init) (.startTrace parent file) =
      (traceRun before init).startVcd := by
    rw [traceExec, startTrace_of_canStart _ hcan]
  have htrace := (Tracing.startVcd (p := traceRun before init)).run hduring
  rw [Nat.zero_add] at htrace
  rw [traceRun, List.foldl_append, List.foldl_cons]
  exact hstart ▸ htrace.vcd

/-- A trace with a reset in it, and a start that fails. -/
theorem trace_gapFree_reset :
    (traceRun [.pulseClock, .startTrace none [0x61], .pulseClock, .reset,
      .startTrace none [0], .pulseClock] init).vcd = some [0, 1, 2, 3, 4, 5] :=
  (trace_gapFree [.pulseClock] [.pulseClock, .reset, .startTrace none [0], .pulseClock] none
    [0x61]).1 ⟨nofun, by decide⟩ (by simp [TraceOp.Ends, CanStart])

end Simulator

end Perilus

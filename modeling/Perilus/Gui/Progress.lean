import Mathlib.Algebra.BigOperators.Group.Finset.Basic
import Perilus.Gui.Helpers.App
import Perilus.Hardware.Helpers.Progress
/-!
# Perilus — progress and hang of the control unit

From a fetch, a supported opcode comes back after its latency whatever
the rest of the word; any other never does, and nothing is written
meanwhile. The debugger's `next_instruction` tells the two apart.
-/

namespace Perilus

open Clocked Finset

theorem Opcode.latency_le (o : Opcode) : o.latency ≤ 5 := by cases o <;> decide

/-- **How the control unit gets on from `s`.** -/
structure Progress (s : State) : Prop where
  /-- A supported opcode is back at a fetch after its latency, and not before. -/
  supported : ∀ o : Opcode, s.arch.op = o.asUInt → NextAt (State.clock false) AtFetch s o.latency
  /-- A run of supported opcodes takes the sum of their latencies. -/
  run : ∀ (ops : ℕ → Opcode) (n : ℕ),
    (∀ i < n, ((State.clock false)^[∑ j ∈ range i, (ops j).latency] s).arch.op =
      (ops i).asUInt) →
    NthReturn (State.clock false) AtFetch s n (∑ j ∈ range n, (ops j).latency)
  /-- Any other stays in `decode`, and neither the pc nor the register
  file nor the memory changes again. -/
  stuck : Opcode.ofUInt? s.arch.op = none → ∀ n, 0 < n →
    ((State.clock false)^[n] s).state = .decode ∧
      ((State.clock false)^[n] s).pc = (s.pc + 4) &&& ~~~1 ∧
      ((State.clock false)^[n] s).registerFile = s.registerFile ∧
      ((State.clock false)^[n] s).memory = s.memory
  /-- `next_instruction` ends at a fetch for a supported opcode, after its
  latency, and for no other. -/
  nextInstruction : ∀ app : SimApp, app.perilus.rtl = s → app.perilus.reset = false →
    (AtFetch app.nextInstruction.perilus.rtl ↔ (Opcode.ofUInt? s.arch.op).isSome) ∧
      app.nextInstruction.perilus.rtl =
        (State.clock false)^[(Opcode.ofUInt? s.arch.op).elim SimApp.maxStatesPerInstruction
          Opcode.latency] s

section

variable {s : State} (hs : AtFetch s)
include hs

/-- A run of supported opcodes, and the fetch it ends at. -/
theorem nthReturn_sum (ops : ℕ → Opcode) (n : ℕ)
    (hops : ∀ i < n, ((State.clock false)^[∑ j ∈ range i, (ops j).latency] s).arch.op =
      (ops i).asUInt) :
    NthReturn (State.clock false) AtFetch s n (∑ j ∈ range n, (ops j).latency) ∧
      AtFetch ((State.clock false)^[∑ j ∈ range n, (ops j).latency] s) := by
  induction n with
  | zero => exact ⟨.zero, hs⟩
  | succ n ih =>
    obtain ⟨hnth, hat⟩ := ih fun i hi => hops i (by omega)
    have hnext := nextAt_latency hat (hops n (by omega))
    rw [sum_range_succ]
    refine ⟨hnth.snoc hnext, ?_⟩
    rw [Nat.add_comm, Function.iterate_add_apply]
    exact hnext.here

theorem stuck_of_none (ho : Opcode.ofUInt? s.arch.op = none) {n : ℕ} (hn : 0 < n) :
    ((State.clock false)^[n] s).state = .decode ∧
      ((State.clock false)^[n] s).pc = (s.pc + 4) &&& ~~~1 ∧
      ((State.clock false)^[n] s).registerFile = s.registerFile ∧
      ((State.clock false)^[n] s).memory = s.memory := by
  obtain ⟨m, rfl⟩ : ∃ m, n = m + 1 := ⟨n - 1, by omega⟩
  have harch := arch_stuck hs ho m
  exact ⟨(inFlight_stuck hs ho m).1, congrArg Arch.pc harch, congrArg Arch.registerFile harch,
    congrArg Arch.memory harch⟩

/-- How many pulses `next_instruction` makes. -/
theorem nextInstruction_rtl {app : SimApp} (happ : app.perilus.rtl = s)
    (hr : app.perilus.reset = false) :
    app.nextInstruction.perilus.rtl =
      (State.clock false)^[(Opcode.ofUInt? s.arch.op).elim SimApp.maxStatesPerInstruction
        Opcode.latency] s := by
  obtain ⟨k, hpos, hle, hrtl, hbefore, hend⟩ := app.nextInstruction_spec hr
  rw [happ] at hrtl hbefore hend
  rw [hrtl]
  congr 1
  rcases ho : Opcode.ofUInt? s.arch.op with - | o
  · exact hend.resolve_right (not_atFetch_stuck hs ho hpos)
  · have hnext := nextAt_latency hs (Opcode.ofUInt?_eq_some.1 ho)
    have hfive := o.latency_le
    refine NextAt.unique ⟨hpos, hend.resolve_left ?_, hbefore⟩ hnext
    -- the fetch at the latency would have ended the loop
    rintro rfl
    rw [SimApp.maxStatesPerInstruction] at hbefore
    exact hbefore _ hnext.pos (by omega) hnext.here

/-- **Exact progress and hang.** -/
theorem progress_of_fetch : Progress s where
  supported _ ho := nextAt_latency hs ho
  run ops n hops := (nthReturn_sum hs ops n hops).1
  stuck ho _ hn := stuck_of_none hs ho hn
  nextInstruction app happ hr := by
    have hrtl := nextInstruction_rtl hs happ hr
    refine ⟨?_, hrtl⟩
    rw [hrtl]
    rcases ho : Opcode.ofUInt? s.arch.op with - | o
    · exact ⟨fun h => absurd h (not_atFetch_stuck hs ho (by decide)), fun h => nomatch h⟩
    · exact ⟨fun _ => rfl, fun _ => atFetch_latency hs (Opcode.ofUInt?_eq_some.1 ho)⟩

end

/-- `lw x1, 0(x0)` and then `addi x1, x1, 5` in every word: three of them
take 13 cycles, and `next_instruction` ends after the load. -/
theorem progress_load_addi :
    let s := { State.zeroed with
      memory := fun i =>
        if i = 0 then VecInit 0x83 0x20 0x00 0x00 else VecInit 0x93 0x80 0x50 0x00 }
    NthReturn (State.clock false) AtFetch s 3 13 ∧
      (SimApp.nextInstruction { SimApp.new with
        perilus := { Simulator.init with rtl := s } }).perilus.rtl = (State.clock false)^[5] s := by
  intro s
  have h : Progress s := progress_of_fetch rfl
  have hload : Opcode.ofUInt? s.arch.op = some .load := by decide
  obtain ⟨-, hnext⟩ := h.nextInstruction
    { SimApp.new with perilus := { Simulator.init with rtl := s } } rfl rfl
  rw [hload] at hnext
  exact ⟨h.run (fun i => if i = 0 then .load else .immediate) 3 (by decide), hnext⟩

end Perilus

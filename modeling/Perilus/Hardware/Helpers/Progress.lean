import Perilus.Common.Clocked
import Perilus.Hardware.Helpers.InFlight
/-!
# Perilus — from fetch to fetch, cycle by cycle

The FSM state of each cycle of an instruction is the opcode's `phase`,
whatever the other bits of the word; so an instruction takes its opcode's
latency, no less, and leaves `Arch.exec`. An unsupported opcode stays in
`decode` for good.
-/

namespace Perilus

open Clocked

namespace Opcode

theorem one_lt_latency (o : Opcode) : 1 < o.latency := by cases o <;> decide

@[simp] theorem phase_zero (o : Opcode) : o.phase 0 = .fetch := by cases o <;> rfl

@[simp] theorem phase_latency (o : Opcode) : o.phase o.latency = .fetch := by cases o <;> rfl

theorem phase_ne_fetch (o : Opcode) : ∀ i < o.latency, 0 < i → o.phase i ≠ .fetch := by
  cases o <;> decide

/-- The FSM follows the path of the opcode on its wire. -/
theorem next_phase (o : Opcode) :
    ∀ i < o.latency, (ControlUnit.fsm (o.phase i) o.asUInt).next = o.phase (i + 1) := by
  cases o <;> decide

end Opcode

variable {s : State} {o : Opcode}

/-- Until the machine is back at a fetch it is in one instruction. -/
theorem inFlight_of_no_fetch (hs : AtFetch s) {n : ℕ}
    (hn : ∀ i, 0 < i → i ≤ n → ¬ AtFetch ((State.clock false)^[i] s)) :
    InFlight s.arch ((State.clock false)^[n] s) := by
  induction n with
  | zero => exact .of_fetch hs
  | succ n ih =>
    have hne := hn (n + 1) (by omega) le_rfl
    rw [Function.iterate_succ_apply'] at hne ⊢
    exact (ih fun i hi hin => hn i hi (by omega)).clock hne

/-- **The cycles of one instruction.** -/
theorem inFlight_run (hs : AtFetch s) (ho : s.arch.op = o.asUInt) :
    ∀ i < o.latency,
      ((State.clock false)^[i] s).state = o.phase i ∧
        InFlight s.arch ((State.clock false)^[i] s) := by
  intro i
  induction i with
  | zero =>
    intro _
    exact ⟨by rw [Opcode.phase_zero]; exact hs, .of_fetch hs⟩
  | succ i ih =>
    intro hi
    obtain ⟨hst, hfl⟩ := ih (by omega)
    rw [Function.iterate_succ_apply']
    have hnext : (State.clock false ((State.clock false)^[i] s)).state = o.phase (i + 1) := by
      rw [← o.next_phase i (by omega), State.state_clock, hst]
      -- the opcode wire is the instruction's own from the second cycle on
      rcases Nat.eq_zero_or_pos i with rfl | hpos
      · rw [Opcode.phase_zero]; rfl
      · rw [hfl.opOf_instr (by rw [hst]; exact o.phase_ne_fetch i (by omega) hpos), ho]
    exact ⟨hnext, hfl.clock (by rw [hnext]; exact o.phase_ne_fetch _ hi (by omega))⟩

/-- The last cycle of an instruction is not its fetch. -/
theorem last_ne_fetch (hs : AtFetch s) (ho : s.arch.op = o.asUInt) :
    ((State.clock false)^[o.latency - 1] s).state ≠ .fetch := by
  have hlt := o.one_lt_latency
  rw [(inFlight_run hs ho _ (by omega)).1]
  exact o.phase_ne_fetch _ (by omega) (by omega)

/-- And the cycle after it is one. -/
theorem atFetch_latency (hs : AtFetch s) (ho : s.arch.op = o.asUInt) :
    AtFetch ((State.clock false)^[o.latency] s) := by
  have hlt := o.one_lt_latency
  obtain ⟨hst, hfl⟩ := inFlight_run hs ho (o.latency - 1) (by omega)
  rw [show o.latency = o.latency - 1 + 1 by omega, Function.iterate_succ_apply', AtFetch,
    State.state_clock, hfl.opOf_instr (last_ne_fetch hs ho), ho, hst, o.next_phase _ (by omega),
    show o.latency - 1 + 1 = o.latency by omega, Opcode.phase_latency]

/-- **An instruction takes its opcode's latency, and no less.** -/
theorem nextAt_latency (hs : AtFetch s) (ho : s.arch.op = o.asUInt) :
    NextAt (State.clock false) AtFetch s o.latency where
  pos := by have := o.one_lt_latency; omega
  here := atFetch_latency hs ho
  before i hi hlt := by
    rw [AtFetch, (inFlight_run hs ho i hlt).1]
    exact o.phase_ne_fetch i hlt hi

/-- **And leaves `exec`.** -/
theorem arch_latency (hs : AtFetch s) (ho : s.arch.op = o.asUInt) :
    ((State.clock false)^[o.latency] s).arch = s.arch.exec := by
  have hlt := o.one_lt_latency
  obtain ⟨-, hfl⟩ := inFlight_run hs ho (o.latency - 1) (by omega)
  have hat := atFetch_latency hs ho
  rw [show o.latency = o.latency - 1 + 1 by omega, Function.iterate_succ_apply'] at hat ⊢
  exact hfl.arch_clock (last_ne_fetch hs ho) hat

/-- **An unsupported opcode never comes back.** From the second cycle on
the control unit is in `decode`. -/
theorem inFlight_stuck (hs : AtFetch s) (ho : Opcode.ofUInt? s.arch.op = none) (n : ℕ) :
    ((State.clock false)^[n + 1] s).state = .decode ∧
      InFlight s.arch ((State.clock false)^[n + 1] s) := by
  induction n with
  | zero =>
    rw [Function.iterate_one]
    exact ⟨by rw [State.clock_fetch hs], (InFlight.of_fetch hs).clock_fetch hs⟩
  | succ n ih =>
    obtain ⟨hst, hfl⟩ := ih
    rw [Function.iterate_succ_apply']
    have hnext : (State.clock false ((State.clock false)^[n + 1] s)).state = .decode := by
      rw [State.clock_decode hst, hfl.opOf_instr (by rw [hst]; decide), decodeNext_of_none ho]
    exact ⟨hnext, hfl.clock (by rw [hnext]; decide)⟩

/-- What a program sees while the machine is stuck. -/
theorem arch_stuck (hs : AtFetch s) (ho : Opcode.ofUInt? s.arch.op = none) (n : ℕ) :
    ((State.clock false)^[n + 1] s).arch = s.arch.advance := by
  obtain ⟨hst, hfl⟩ := inFlight_stuck hs ho n
  rw [hfl.visible, hst]
  rfl

theorem not_atFetch_stuck (hs : AtFetch s) (ho : Opcode.ofUInt? s.arch.op = none) {n : ℕ}
    (hn : 0 < n) : ¬ AtFetch ((State.clock false)^[n] s) := by
  obtain ⟨m, rfl⟩ : ∃ m, n = m + 1 := ⟨n - 1, by omega⟩
  rw [AtFetch, (inFlight_stuck hs ho m).1]
  decide

/-! ## Under resets -/

theorem atFetch_clock_true (s : State) : AtFetch (s.clock true) := by
  rw [State.clock_true]
  rfl

/-- **Where a run with resets stands.** Every cycle is some number of
undisturbed cycles past the latest fetch. -/
theorem exists_last_fetch (s₀ : State) (reset : ℕ → Bool) (t : ℕ) :
    ∃ f ≤ t, AtFetch (trace State.clock reset (s₀.clock true) f) ∧
      (∀ i, f < i → i ≤ t → ¬ AtFetch (trace State.clock reset (s₀.clock true) i)) ∧
      ∀ n, f + n ≤ t →
        trace State.clock reset (s₀.clock true) (f + n) =
          (State.clock false)^[n] (trace State.clock reset (s₀.clock true) f) := by
  induction t with
  | zero =>
    refine ⟨0, le_rfl, atFetch_clock_true s₀, fun i h1 h2 => by omega, ?_⟩
    intro n hn
    obtain rfl : n = 0 := by omega
    rfl
  | succ t ih =>
    obtain ⟨f, hft, hfetch, hno, hrun⟩ := ih
    by_cases hat : AtFetch (trace State.clock reset (s₀.clock true) (t + 1))
    · refine ⟨t + 1, le_rfl, hat, fun i h1 h2 => by omega, ?_⟩
      intro n hn
      obtain rfl : n = 0 := by omega
      rfl
    · -- a reset at `t` would have left a fetch
      have hlow : reset t = false := by
        by_contra hr
        rw [Bool.not_eq_false] at hr
        exact hat (by rw [trace_succ, hr]; exact atFetch_clock_true _)
      refine ⟨f, by omega, hfetch, ?_, ?_⟩
      · intro i h1 h2
        rcases Nat.lt_or_ge t i with hlt | hle
        · obtain rfl : i = t + 1 := by omega
          exact hat
        · exact hno i h1 hle
      · intro n hn
        rcases Nat.lt_or_ge t (f + n) with hlt | hle
        · obtain ⟨m, rfl⟩ : ∃ m, n = m + 1 := ⟨n - 1, by omega⟩
          rw [← Nat.add_assoc, trace_succ, hrun m (by omega), show f + m = t by omega, hlow,
            Function.iterate_succ_apply']
        · exact hrun n hle

/-- **And in which instruction**: that of the latest fetch. -/
theorem exists_inFlight (s₀ : State) (reset : ℕ → Bool) (t : ℕ) :
    ∃ f ≤ t, AtFetch (trace State.clock reset (s₀.clock true) f) ∧
      (∀ i, f < i → i ≤ t → ¬ AtFetch (trace State.clock reset (s₀.clock true) i)) ∧
      trace State.clock reset (s₀.clock true) t =
        (State.clock false)^[t - f] (trace State.clock reset (s₀.clock true) f) ∧
      InFlight (trace State.clock reset (s₀.clock true) f).arch
        (trace State.clock reset (s₀.clock true) t) := by
  obtain ⟨f, hft, hfetch, hno, hrun⟩ := exists_last_fetch s₀ reset t
  have htrace := hrun (t - f) (by omega)
  rw [show f + (t - f) = t by omega] at htrace
  refine ⟨f, hft, hfetch, hno, htrace, ?_⟩
  rw [htrace]
  refine inFlight_of_no_fetch hfetch ?_
  intro i hi hle
  rw [← hrun i (by omega)]
  exact hno (f + i) (by omega) (by omega)

end Perilus

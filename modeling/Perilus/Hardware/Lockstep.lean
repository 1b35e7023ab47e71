import Perilus.Hardware.Dialect
import Perilus.Hardware.Reset
/-!
# Perilus — in lockstep with the reference

The reference under a clock and the design, given the same resets, meet
their fetches in the same cycles and with the same contents. Between two
fetches the design is where the reference counts it to be.
-/

namespace Perilus

open Rv32i Clocked Dialect

/-- **The design is in the cycle the reference is in**: it is `t.phase`
cycles past the fetch `f`, at which a program saw `t.machine`. -/
structure LockstepFrom (f s : State) (t : Timed memoryBytes) : Prop where
  fetch : AtFetch f
  isa : f.arch.isa = t.machine
  state : s = (State.clock false)^[t.phase] f
  even : 0 < t.phase → f.pc.toNat % 2 = 0
  inside : ∀ i, 0 < i → i ≤ t.phase → ¬ AtFetch ((State.clock false)^[i] f)

def Lockstep (s : State) (t : Timed memoryBytes) : Prop := ∃ f, LockstepFrom f s t

namespace Lockstep

variable {f s : State} {t : Timed memoryBytes}

/-- Any fetch is the start of the word at its pc. -/
theorem of_fetch (hs : AtFetch s) : Lockstep s ⟨s.arch.isa, 0⟩ :=
  ⟨s, hs, rfl, rfl, fun h => absurd h (Nat.lt_irrefl 0),
    fun _ hi hle => absurd hle (Nat.not_le.2 hi)⟩

theorem atFetch_iff (h : Lockstep s t) : AtFetch s ↔ t.phase = 0 := by
  obtain ⟨f, hf⟩ := h
  rw [hf.state]
  constructor
  · intro hs
    by_contra hne
    exact hf.inside t.phase (Nat.pos_of_ne_zero hne) le_rfl hs
  · intro h0
    rw [h0]
    exact hf.fetch

/-- **At a fetch a program sees the reference.** -/
theorem isa (h : Lockstep s t) (h0 : t.phase = 0) : s.arch.isa = t.machine := by
  obtain ⟨f, hf⟩ := h
  have hs : s = f := by rw [hf.state, h0, Function.iterate_zero_apply]
  rw [hs, hf.isa]

end Lockstep

/-! ## A cycle -/

namespace LockstepFrom

variable {f s : State} {t : Timed memoryBytes}

theorem even_of_clockable (h : LockstepFrom f s t) (hc : t.Clockable) : f.pc.toNat % 2 = 0 := by
  rcases hc with hpos | heven
  · exact h.even hpos
  · rw [← h.isa] at heven
    exact heven

theorem state_succ (h : LockstepFrom f s t) :
    s.clock false = (State.clock false)^[t.phase + 1] f := by
  rw [Function.iterate_succ_apply', h.state]

/-- One cycle more in the same word. -/
theorem succ (h : LockstepFrom f s t) (hc : t.Clockable)
    (hno : ¬ AtFetch ((State.clock false)^[t.phase + 1] f)) :
    LockstepFrom f (s.clock false) { t with phase := t.phase + 1 } where
  fetch := h.fetch
  isa := h.isa
  state := h.state_succ
  even _ := h.even_of_clockable hc
  inside i hi hle := by
    rcases Nat.lt_or_ge t.phase i with hlt | hge
    · obtain rfl : i = t.phase + 1 := Nat.le_antisymm hle hlt
      exact hno
    · exact h.inside i hi hge

end LockstepFrom

namespace Lockstep

variable {s : State} {t : Timed memoryBytes}

/-- **A cycle keeps them in step**, and the reference can be clocked on. -/
theorem tick (h : Lockstep s t) (hc : t.Clockable) :
    Lockstep (s.clock false) t.tick ∧ t.tick.Clockable := by
  obtain ⟨f, hf⟩ := h
  have heven := hf.even_of_clockable hc
  rw [Timed.tick]
  rcases hstep : Dialect.step t.machine with - | m <;> dsimp only
  · -- the word has no meaning
    rw [← hf.isa] at hstep
    refine ⟨⟨f, hf.succ hc ?_⟩, .inl (Nat.succ_pos t.phase)⟩
    exact not_atFetch_stuck hf.fetch (Arch.isa_dialect_none hstep) (Nat.succ_pos t.phase)
  · rw [← hf.isa] at hstep
    obtain ⟨hnext, ⟨hfetch, heven'⟩, hisa⟩ := dialect_boundary ⟨hf.fetch, heven⟩ hstep
    rw [hf.isa] at hnext hfetch heven' hisa
    split_ifs with hlt
    · exact ⟨⟨f, hf.succ hc (hnext.before _ (Nat.succ_pos t.phase) hlt)⟩,
        .inl (Nat.succ_pos t.phase)⟩
    · -- its last cycle, since no fetch has been met yet
      have hlast : Dialect.cycles t.machine.fetch = t.phase + 1 := by
        by_contra hne
        exact hf.inside _ hnext.pos (by omega) hnext.here
      rw [hlast, ← hf.state_succ] at hfetch heven' hisa
      rw [← hisa]
      exact ⟨.of_fetch hfetch, .inr heven'⟩

end Lockstep

/-! ## A reset -/

section Reset

variable {f : State}

/-- What a program finds after one. -/
theorem isa_clock_true (s : State) :
    (s.clock true).arch.isa = { s.arch.isa with pc := 0 } := by
  rw [State.clock_true]
  rfl

/-- The one state in which an instruction has written ahead of its last
cycle. -/
theorem state_eq_jalrJump_iff (hf : AtFetch f) {n : ℕ}
    (hno : ∀ i, 0 < i → i ≤ n → ¬ AtFetch ((State.clock false)^[i] f)) :
    ((State.clock false)^[n] f).state = .jalrJump ↔ f.arch.op = Opcode.jalr.asUInt ∧ n = 3 := by
  rcases ho : Opcode.ofUInt? f.arch.op with - | o
  · -- in `fetch` and then in `decode` for good
    have hne : f.arch.op ≠ Opcode.jalr.asUInt := Opcode.ofUInt?_eq_none ho .jalr
    refine iff_of_false ?_ (fun h => hne h.1)
    rcases n with - | n
    · rw [Function.iterate_zero_apply, show f.state = .fetch from hf]
      decide
    · rw [(inFlight_stuck hf ho n).1]
      decide
  · have ho' := Opcode.ofUInt?_eq_some.1 ho
    have hlt : n < o.latency := by
      by_contra hge
      have hnext := nextAt_latency hf ho'
      exact hno _ hnext.pos (Nat.not_lt.1 hge) hnext.here
    have hphase : ∀ (o : Opcode) (n : ℕ), n < o.latency →
        (o.phase n = .jalrJump ↔ o.asUInt = Opcode.jalr.asUInt ∧ n = 3) := by
      intro o
      cases o <;> decide
    rw [(inFlight_run hf ho' n hlt).1, ho']
    exact hphase o n hlt

end Reset

namespace Lockstep

variable {s : State} {t : Timed memoryBytes}

theorem linked_iff {f : State} (h : LockstepFrom f s t) : t.Linked ↔ s.state = .jalrJump := by
  have hop : field t.machine.fetch 0 7 = 0b1100111 ↔ f.arch.op = Opcode.jalr.asUInt := by
    rw [← h.isa, Arch.isa_fetch, field_opOf]
    exact BitVec.toNat_inj (y := Opcode.jalr.asUInt)
  rw [h.state, state_eq_jalrJump_iff h.fetch h.inside, Timed.Linked, hop]

/-- The registers and the memory of the reference, in flight. -/
theorem isa_inFlight {f : State} (h : LockstepFrom f s t) :
    s.arch.isa.x = (if t.Linked then (Dialect.step t.machine).elim t.machine.x Rv32i.State.x
      else t.machine.x) ∧ s.arch.isa.mem = t.machine.mem := by
  have hfl : InFlight f.arch s := by
    rw [h.state]
    exact inFlight_of_no_fetch h.fetch h.inside
  split_ifs with hlinked
  · -- the link is what the whole instruction leaves in the registers
    have hjump := (linked_iff h).1 hlinked
    have hop : f.arch.op = Opcode.jalr.asUInt := hfl.serves_at hjump
    have heven : f.pc.toNat % 2 = 0 := h.even (by rw [hlinked.2]; decide)
    have hexec := Arch.exec_jalr hop
    have hvisible : s.arch = f.arch.write f.arch.jalrLink := by rw [hfl.visible, hjump]; rfl
    obtain ⟨d, hd⟩ := Arch.decode_isSome hop
    have hstep : Dialect.step f.arch.isa = some (d.execute f.arch.isa) := by
      rw [Dialect.step, Arch.isa_fetch, hd]
      rfl
    have hisa := (Arch.isa_dialect heven hstep).2
    rw [← h.isa, hstep, Option.elim_some, ← hisa, hexec, hvisible]
    exact ⟨rfl, rfl⟩
  · have hsame := hfl.sameContents (mt (linked_iff h).2 hlinked)
    rw [← h.isa]
    refine ⟨?_, congrArg Memory.flat hsame.memory⟩
    funext r
    exact congrArg (fun rf : Registers => (rf (BitVec.ofNat 5 r)).toNat) hsame.registerFile

/-- **A reset keeps them in step.** -/
theorem reset (h : Lockstep s t) : Lockstep (s.clock true) t.reset ∧ t.reset.Clockable := by
  obtain ⟨f, hf⟩ := h
  obtain ⟨hx, hmem⟩ := isa_inFlight hf
  have hisa : t.reset.machine = (s.clock true).arch.isa := by
    rw [isa_clock_true]
    exact Rv32i.State.ext rfl hx.symm hmem.symm
  refine ⟨?_, .inr rfl⟩
  rw [show t.reset = ⟨(s.clock true).arch.isa, 0⟩ by rw [← hisa]; rfl]
  exact .of_fetch (atFetch_clock_true s)

theorem clock (h : Lockstep s t) (hc : t.Clockable) (reset : Bool) :
    Lockstep (s.clock reset) (t.clock reset) ∧ (t.clock reset).Clockable := by
  cases reset with
  | false => exact h.tick hc
  | true => exact h.reset

end Lockstep

/-- **The design is the reference under a clock.** From the reset after
power-on, whatever the registers and memory then hold, under any schedule
of resets: in every cycle the design is in step with the reference, so it
is at a fetch exactly when the reference starts a word, and then a program
sees the reference. -/
theorem lockstep_under_resets (s₀ : State) (reset : ℕ → Bool) (n : ℕ) :
    let s := trace State.clock reset (s₀.clock true) n
    let t := trace Timed.clock reset ⟨(s₀.clock true).arch.isa, 0⟩ n
    Lockstep s t ∧ (AtFetch s ↔ t.phase = 0) ∧ (AtFetch s → s.arch.isa = t.machine) := by
  intro s t
  have hinv : Lockstep s t ∧ t.Clockable := by
    induction n with
    | zero =>
      refine ⟨.of_fetch (atFetch_clock_true s₀), .inr ?_⟩
      exact congrArg (fun a => Rv32i.State.pc a % 2) (isa_clock_true s₀)
    | succ n ih => exact ih.1.clock ih.2 (reset n)
  obtain ⟨hin, -⟩ := hinv
  exact ⟨hin, hin.atFetch_iff, fun hs => hin.isa (hin.atFetch_iff.1 hs)⟩

end Perilus

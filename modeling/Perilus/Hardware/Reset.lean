import Perilus.Hardware.Helpers.Progress
/-!
# Perilus — reset at any cycle

A reset clears the registers of the design and leaves its two memories,
whatever the FSM state it hits. What a program then finds in them is what
was there when the interrupted instruction was fetched, or what its next
fetch would have found: an instruction writes them in at most one cycle.
-/

namespace Perilus

open Clocked

/-- The register file and the memory hold the same in both. -/
structure SameContents (s t : State) : Prop where
  registerFile : s.registerFile = t.registerFile
  memory : s.memory = t.memory

/-- The design as a reset leaves it, its two memories apart. -/
structure Cleared (s : State) : Prop where
  state : s.state = .fetch
  pc : s.pc = 0
  oldPc : s.oldPc = 0
  instr : s.instr = 0
  readDataBuf : s.readDataBuf = 0
  rd1Buf : s.rd1Buf = 0
  rd2Buf : s.rd2Buf = 0
  aluOutBuf : s.aluOutBuf = 0

/-- Whether the register file is written in this state, -/
def ControlUnitState.writesRegisters (st : ControlUnitState) : Bool :=
  match st with
  | .memWb | .aluWb | .jalrLink | .lui | .auipc => true
  | _ => false

/-- and whether the memory is. -/
def ControlUnitState.writesMemory (st : ControlUnitState) : Bool :=
  match st with
  | .memWrite => true
  | _ => false

theorem State.regWrite_eq (s : State) : s.wires.regWrite = s.state.writesRegisters := by
  unfold State.wires ControlUnit.fsm ControlUnitState.writesRegisters
  cases s.state <;> rfl

theorem State.memWrite_eq (s : State) : s.wires.memWrite = s.state.writesMemory := by
  unfold State.wires ControlUnit.fsm ControlUnitState.writesMemory
  cases s.state <;> rfl

theorem cleared_clock_true (s : State) : Cleared (s.clock true) := by
  rw [State.clock_true]
  exact ⟨rfl, rfl, rfl, rfl, rfl, rfl, rfl, rfl⟩

theorem sameContents_clock_true (s : State) : SameContents (s.clock true) s := by
  rw [State.clock_true]
  exact ⟨rfl, rfl⟩

/-! ## At most one write an instruction -/

/-- No path of the FSM writes twice. -/
theorem count_writes_phase (o : Opcode) :
    Nat.count (fun i => (o.phase i).writesRegisters) o.latency +
      Nat.count (fun i => (o.phase i).writesMemory) o.latency ≤ 1 := by
  cases o <;> decide

section

variable {s : State} (hs : AtFetch s) {n : ℕ}
  (hn : ∀ i, 0 < i → i < n → ¬ AtFetch ((State.clock false)^[i] s))
include hs hn

/-- The cycles of an instruction in which the FSM does something are among
those of its path. -/
theorem count_le_phase {o : Opcode} (ho : s.arch.op = o.asUInt) (f : ControlUnitState → Bool) :
    Nat.count (fun i => f ((State.clock false)^[i] s).state) n ≤
      Nat.count (fun i => f (o.phase i)) o.latency := by
  have hle : n ≤ o.latency := by
    by_contra hgt
    exact hn o.latency (nextAt_latency hs ho).pos (by omega) (atFetch_latency hs ho)
  refine (Nat.count_monotone _ hle).trans (le_of_eq ?_)
  rw [Nat.count_eq_card_filter_range, Nat.count_eq_card_filter_range]
  refine congrArg Finset.card (Finset.filter_congr fun i hi => ?_)
  rw [(inFlight_run hs ho i (Finset.mem_range.1 hi)).1]

/-- **An instruction writes the register file or the memory, once**, and an
unsupported one neither. -/
theorem count_writes_le_one :
    Nat.count (fun i => ((State.clock false)^[i] s).wires.regWrite) n +
      Nat.count (fun i => ((State.clock false)^[i] s).wires.memWrite) n ≤ 1 := by
  simp only [State.regWrite_eq, State.memWrite_eq]
  rcases ho : Opcode.ofUInt? s.arch.op with - | o
  · -- in `fetch` and then in `decode` for good
    have hstate : ∀ i, ((State.clock false)^[i] s).state = .fetch ∨
        ((State.clock false)^[i] s).state = .decode := by
      rintro (_ | i)
      · exact .inl hs
      · exact .inr (inFlight_stuck hs ho i).1
    have hnone : ∀ f : ControlUnitState → Bool, f .fetch = false → f .decode = false →
        Nat.count (fun i => f ((State.clock false)^[i] s).state) n = 0 := by
      intro f hfetch hdecode
      refine Nat.count_of_forall_not fun i _ => ?_
      rcases hstate i with h | h <;> rw [h]
      · rw [hfetch]; decide
      · rw [hdecode]; decide
    rw [hnone _ rfl rfl, hnone _ rfl rfl]
    exact Nat.zero_le 1
  · have ho' := Opcode.ofUInt?_eq_some.1 ho
    calc _ ≤ Nat.count (fun i => (o.phase i).writesRegisters) o.latency +
          Nat.count (fun i => (o.phase i).writesMemory) o.latency :=
          Nat.add_le_add (count_le_phase hs hn ho' _) (count_le_phase hs hn ho' _)
      _ ≤ 1 := count_writes_phase o

end

/-! ## What a reset finds -/

/-- In every state of an instruction but `jalrJump` the two memories are
as they were at its fetch. -/
theorem InFlight.sameContents {s u : State} (h : InFlight s.arch u)
    (hne : u.state ≠ .jalrJump) : SameContents u s := by
  have hrf : u.registerFile = (s.arch.during u.state).registerFile :=
    congrArg Arch.registerFile h.visible
  have hmem : u.memory = (s.arch.during u.state).memory := congrArg Arch.memory h.visible
  have hd : (s.arch.during u.state).registerFile = s.registerFile ∧
      (s.arch.during u.state).memory = s.memory := by
    unfold Arch.during
    cases hst : u.state with
    | jalrJump => exact absurd hst hne
    | aluWb => dsimp only; split <;> exact ⟨rfl, rfl⟩
    | _ => exact ⟨rfl, rfl⟩
  exact ⟨hrf.trans hd.1, hmem.trans hd.2⟩

/-- In `jalrJump` they are as the next fetch finds them. -/
theorem nextAt_jalrJump {u : State} (h : u.state = .jalrJump) :
    NextAt (State.clock false) AtFetch u 1 ∧ SameContents u (u.clock false) := by
  have hclock := State.clock_jalrJump h
  refine ⟨⟨Nat.one_pos, ?_, fun i hi hlt => by omega⟩, ?_⟩
  · rw [Function.iterate_one, AtFetch, hclock]
  · rw [hclock]
    exact ⟨rfl, rfl⟩

/-- **Reset is safe and instruction-atomic.** In a run from a reset under
any schedule of resets, a cycle that asserts it leaves the register file
and the memory, and clears the rest. The two are then as they were at the
fetch of the interrupted instruction, or as the next fetch would have
found them; with an unsupported opcode, which has no next fetch, they are
as at its own. The instruction writes one of the two at most, and in one
cycle. -/
theorem reset_atomic (s₀ : State) (reset : ℕ → Bool) {t : ℕ} (ht : reset t = true) :
    let σ := trace State.clock reset (s₀.clock true)
    SameContents (σ (t + 1)) (σ t) ∧ Cleared (σ (t + 1)) ∧
      ∃ f ≤ t, AtFetch (σ f) ∧ (∀ i, f < i → i ≤ t → ¬ AtFetch (σ i)) ∧
        (SameContents (σ t) (σ f) ∨
          ∃ d, NextAt (State.clock false) AtFetch (σ t) d ∧
            SameContents (σ t) ((State.clock false)^[d] (σ t))) ∧
        (Opcode.ofUInt? (σ f).arch.op = none →
          SameContents (σ t) (σ f) ∧
            ∀ d, 0 < d → ¬ AtFetch ((State.clock false)^[d] (σ t))) ∧
        ∀ n, (∀ i, 0 < i → i < n → ¬ AtFetch ((State.clock false)^[i] (σ f))) →
          Nat.count (fun i => ((State.clock false)^[i] (σ f)).wires.regWrite) n +
            Nat.count (fun i => ((State.clock false)^[i] (σ f)).wires.memWrite) n ≤ 1 := by
  intro σ
  have hclock : σ (t + 1) = (σ t).clock true := by
    change trace State.clock reset (s₀.clock true) (t + 1) = _
    rw [trace_succ, ht]
  refine ⟨hclock ▸ sameContents_clock_true _, hclock ▸ cleared_clock_true _, ?_⟩
  obtain ⟨f, hft, hfetch, hno, hσt, hfl⟩ := exists_inFlight s₀ reset t
  refine ⟨f, hft, hfetch, hno, ?_, ?_, fun n hn => count_writes_le_one hfetch hn⟩
  · -- only a link is written before the last cycle of its instruction
    by_cases hst : (σ t).state = .jalrJump
    · exact .inr ⟨1, (nextAt_jalrJump hst).1, (nextAt_jalrJump hst).2⟩
    · exact .inl (hfl.sameContents hst)
  · intro ho
    have hne : (σ t).state ≠ .jalrJump := by
      intro hst
      exact Opcode.ofUInt?_eq_none ho .jalr (hfl.serves_at hst)
    refine ⟨hfl.sameContents hne, ?_⟩
    intro d hd
    change ¬ AtFetch ((State.clock false)^[d] (trace State.clock reset (s₀.clock true) t))
    rw [hσt, ← Function.iterate_add_apply]
    exact not_atFetch_stuck hfetch ho (by omega)

/-- `jalr x1, 0(x0)` in every word of memory, reset in `jalrJump`: the link
is written already, and stays. -/
theorem reset_atomic_jalr :
    let σ := trace State.clock (fun n => n == 3)
      (State.clock true { State.zeroed with memory := fun _ => VecInit 0xe7 0x00 0x00 0x00 })
    (σ 3).state = .jalrJump ∧ (σ 4).registerFile 1 = 4 ∧ Cleared (σ 4) ∧
      ∃ f ≤ 3, AtFetch (σ f) ∧ (∀ i, f < i → i ≤ 3 → ¬ AtFetch (σ i)) ∧
        (SameContents (σ 3) (σ f) ∨
          ∃ d, NextAt (State.clock false) AtFetch (σ 3) d ∧
            SameContents (σ 3) ((State.clock false)^[d] (σ 3))) ∧
        ∀ n, (∀ i, 0 < i → i < n → ¬ AtFetch ((State.clock false)^[i] (σ f))) →
          Nat.count (fun i => ((State.clock false)^[i] (σ f)).wires.regWrite) n +
            Nat.count (fun i => ((State.clock false)^[i] (σ f)).wires.memWrite) n ≤ 1 := by
  obtain ⟨-, hcleared, f, hf, hfetch, hno, hcontents, -, hcount⟩ :=
    reset_atomic { State.zeroed with memory := fun _ => VecInit 0xe7 0x00 0x00 0x00 }
      (fun n => n == 3) (t := 3) rfl
  exact ⟨rfl, rfl, hcleared, f, hf, hfetch, hno, hcontents, hcount⟩

end Perilus

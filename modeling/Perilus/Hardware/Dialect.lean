import Mathlib.Tactic.IntervalCases
import Perilus.Hardware.Isa
import Perilus.Hardware.Model.Dialect
/-!
# Perilus — what every word does

On the legal words the design is RV32I. On the reserved ones it is the
rest of `Dialect`, and a word of any other opcode is the last it fetches.
So the dialect says of every program, to the cycle, what the design does
with it.
-/

namespace Perilus

open Rv32i Clocked

/-! ## The fields of a reserved word -/

theorem funct3_lt (w : ℕ) : funct3 w < 8 := Nat.mod_lt _ (by decide)

/-- **Of a register word only funct3 and bit 30 count.** -/
theorem arithmeticOf_rType {w : BitVec 32} (ho : opOf w = Opcode.rType.asUInt) :
    arithmeticOf w =
      controlOf (Dialect.aluAny (funct3 w.toNat) (Dialect.alternative w.toNat)) := by
  rw [arithmeticOf, ho, funct3Of_eq, funct7_5Of_eq, Dialect.alternative]
  have hlt := funct3_lt w.toNat
  generalize funct3 w.toNat = n3 at hlt ⊢
  generalize decide (funct7 w.toNat / 32 % 2 = 1) = b
  interval_cases n3 <;> cases b <;> rfl

/-- So they do of a jump and link register, unless funct3 is zero. -/
theorem arithmeticOf_jalr {w : BitVec 32} (ho : opOf w = Opcode.jalr.asUInt)
    (h3 : funct3 w.toNat ≠ 0) :
    arithmeticOf w =
      controlOf (Dialect.aluAny (funct3 w.toNat) (Dialect.alternative w.toNat)) := by
  rw [arithmeticOf, ho, funct3Of_eq, funct7_5Of_eq, Dialect.alternative]
  have hlt := funct3_lt w.toNat
  generalize funct3 w.toNat = n3 at h3 hlt ⊢
  generalize decide (funct7 w.toNat / 32 % 2 = 1) = b
  interval_cases n3
  · exact absurd rfl h3
  all_goals cases b <;> rfl

/-- A reserved immediate word is a shift. -/
theorem arithmeticOf_shift {w : BitVec 32} (ho : opOf w = Opcode.immediate.asUInt)
    (hno : aluImmOf w.toNat = none) :
    arithmeticOf w =
        controlOf (Dialect.aluAny (funct3 w.toNat) (Dialect.alternative w.toNat)) ∧
      (Dialect.aluAny (funct3 w.toNat) (Dialect.alternative w.toNat) = .sll ∨
        Dialect.aluAny (funct3 w.toNat) (Dialect.alternative w.toNat) = .srl ∨
        Dialect.aluAny (funct3 w.toNat) (Dialect.alternative w.toNat) = .sra) := by
  rw [arithmeticOf, ho, funct3Of_eq, funct7_5Of_eq, Dialect.alternative]
  have hlt := funct3_lt w.toNat
  unfold aluImmOf at hno
  generalize funct3 w.toNat = n3 at hno hlt ⊢
  generalize decide (funct7 w.toNat / 32 % 2 = 1) = b
  interval_cases n3
  case «1» => exact ⟨rfl, .inl rfl⟩
  case «5» => cases b <;> exact ⟨rfl, by decide⟩
  all_goals cases hno

namespace Arch

variable {a : Arch}

/-! ## Reserved words, opcode by opcode -/

theorem isa_load_reserved (hpc : a.pc.toNat % 2 = 0) (ho : a.op = Opcode.load.asUInt)
    (hno : loadOf (Rv32i.funct3 a.word.toNat) = none) :
    a.exec.isa = a.isa.execute
      (.load 4 false (Rv32i.rd a.word.toNat) (Rv32i.rs1 a.word.toNat) (immI a.word.toNat)) := by
  have hfunct3 : (accessMask a.funct3).width = 4 ∧
      ControlUnit.signExtData Opcode.load.asUInt a.funct3 = false := by
    rw [Arch.funct3, funct3Of_eq]
    have hlt := funct3_lt a.word.toNat
    generalize Rv32i.funct3 a.word.toNat = n3 at hno hlt ⊢
    interval_cases n3 <;> first | exact ⟨rfl, rfl⟩ | cases hno
  rw [isa_load_as hpc ho, hfunct3.1, hfunct3.2]

theorem isa_store_reserved (hpc : a.pc.toNat % 2 = 0) (ho : a.op = Opcode.store.asUInt)
    (hno : storeOf (Rv32i.funct3 a.word.toNat) = none) :
    a.exec.isa = a.isa.execute
      (.store (if Rv32i.funct3 a.word.toNat = 4 then 1
          else if Rv32i.funct3 a.word.toNat = 5 then 2 else 4)
        (Rv32i.rs1 a.word.toNat) (Rv32i.rs2 a.word.toNat) (immS a.word.toNat)) := by
  have hfunct3 : (accessMask a.funct3).width =
      if Rv32i.funct3 a.word.toNat = 4 then 1
      else if Rv32i.funct3 a.word.toNat = 5 then 2 else 4 := by
    rw [Arch.funct3, funct3Of_eq]
    have hlt := funct3_lt a.word.toNat
    generalize Rv32i.funct3 a.word.toNat = n3 at hno hlt ⊢
    interval_cases n3 <;> first | rfl | cases hno
  rw [isa_store_as hpc ho, hfunct3]

theorem isa_branch_reserved (hpc : a.pc.toNat % 2 = 0) (ho : a.op = Opcode.branch.asUInt)
    (hno : conditionOf (Rv32i.funct3 a.word.toNat) = none) :
    a.exec.isa = a.isa.execute .fence := by
  have htaken : a.taken = false := by
    rw [taken, Arch.funct3, funct3Of_eq]
    have hlt := funct3_lt a.word.toNat
    generalize Rv32i.funct3 a.word.toNat = n3 at hno hlt ⊢
    interval_cases n3 <;> first | rfl | cases hno
  rw [exec_branch ho, htaken, Rv32i.State.execute, isa_next hpc]
  rfl

/-- **One reserved word.** -/
theorem isa_reserved {d : Dialect} (hpc : a.pc.toNat % 2 = 0)
    (hno : Rv32i.decode a.word.toNat = none) (h : Dialect.reserved a.word.toNat = some d) :
    (∃ o : Opcode, a.op = o.asUInt) ∧ a.exec.isa = d.execute a.isa := by
  -- the rows of the table, each of an opcode RV32I has not decoded
  unfold Dialect.reserved at h
  unfold Rv32i.decode at hno
  split at h
  case h_1 hop =>
    cases h
    have ho : a.op = Opcode.jalr.asUInt := op_of_field hop
    rw [hop] at hno
    have h3 : Rv32i.funct3 a.word.toNat ≠ 0 := fun h3 => by rw [h3] at hno; cases hno
    exact ⟨⟨.jalr, ho⟩, isa_jalr_as ho (arithmeticOf_jalr ho h3)⟩
  case h_2 hop =>
    cases h
    rw [hop] at hno
    exact ⟨⟨.branch, op_of_field hop⟩,
      isa_branch_reserved hpc (op_of_field hop) (Option.map_eq_none_iff.1 hno)⟩
  case h_3 hop =>
    cases h
    rw [hop] at hno
    exact ⟨⟨.load, op_of_field hop⟩,
      isa_load_reserved hpc (op_of_field hop) (Option.map_eq_none_iff.1 hno)⟩
  case h_4 hop =>
    cases h
    rw [hop] at hno
    exact ⟨⟨.store, op_of_field hop⟩,
      isa_store_reserved hpc (op_of_field hop) (Option.map_eq_none_iff.1 hno)⟩
  case h_5 hop =>
    cases h
    have ho : a.op = Opcode.immediate.asUInt := op_of_field hop
    rw [hop] at hno
    obtain ⟨hctl, hshift⟩ := arithmeticOf_shift ho (Option.map_eq_none_iff.1 hno)
    refine ⟨⟨.immediate, ho⟩, isa_aluImm_as hpc ho hctl ?_⟩
    intro x
    rw [Arch.imm, toNat_immOf_immediate ho]
    exact eval_shift_immI hshift _ _
  case h_6 hop =>
    cases h
    have ho : a.op = Opcode.rType.asUInt := op_of_field hop
    exact ⟨⟨.rType, ho⟩, isa_alu_as hpc ho (arithmeticOf_rType ho)⟩
  case h_7 hop =>
    cases h
    exact ⟨⟨.fence, op_of_field hop⟩, isa_env hpc (.inr (op_of_field hop))⟩
  case h_8 hop =>
    cases h
    exact ⟨⟨.env, op_of_field hop⟩, isa_env hpc (.inl (op_of_field hop))⟩
  case h_9 => cases h

/-- Every word of a known opcode has a meaning. -/
theorem decode_isSome {o : Opcode} (ho : a.op = o.asUInt) :
    ∃ d, Dialect.decode a.word.toNat = some d := by
  have hop : field a.word.toNat 0 7 = o.asUInt.toNat := by
    rw [field_opOf]
    exact congrArg BitVec.toNat ho
  rw [Dialect.decode]
  rcases hi : Rv32i.decode a.word.toNat with - | i
  · -- an opcode without reserved encodings would have decoded
    unfold Rv32i.decode at hi
    dsimp only
    unfold Dialect.reserved
    rw [hop] at hi ⊢
    cases o <;> first | exact ⟨_, rfl⟩ | cases hi
  · exact ⟨_, rfl⟩

/-! ## One word -/

/-- **One step of the dialect.** -/
theorem isa_dialect {t : Rv32i.State memoryBytes} (hpc : a.pc.toNat % 2 = 0)
    (h : Dialect.step a.isa = some t) : (∃ o : Opcode, a.op = o.asUInt) ∧ a.exec.isa = t := by
  obtain ⟨d, hd, rfl⟩ := Option.map_eq_some_iff.1 h
  rw [isa_fetch, Dialect.decode] at hd
  split at hd
  · next i hi =>
    cases hd
    refine isa_step hpc ?_
    rw [Rv32i.State.step, isa_fetch, hi]
    rfl
  · next hno => exact isa_reserved hpc hno hd

/-- **Where it takes none**, the opcode is unknown. -/
theorem isa_dialect_none (h : Dialect.step a.isa = none) : Opcode.ofUInt? a.op = none := by
  rcases ho : Opcode.ofUInt? a.op with - | o
  · rfl
  · obtain ⟨d, hd⟩ := decode_isSome (Opcode.ofUInt?_eq_some.1 ho)
    rw [Dialect.step, isa_fetch, hd] at h
    cases h

theorem cycles_eq {o : Opcode} (ho : a.op = o.asUInt) :
    Dialect.cycles a.isa.fetch = o.latency := by
  have hop : field a.word.toNat 0 7 = o.asUInt.toNat := by
    rw [field_opOf]
    exact congrArg BitVec.toNat ho
  rw [isa_fetch, Dialect.cycles, hop]
  cases o <;> rfl

end Arch

/-! ## Runs -/

/-- The cycles of the next `n` words. -/
def Dialect.time (n : ℕ) (t : Rv32i.State memoryBytes) : ℕ :=
  runCost Dialect.step (fun t => Dialect.cycles t.fetch) n t

/-- From one fetch to the next the design takes one step of the dialect,
in the cycles of its word. -/
theorem dialect_boundary {s : State} {t : Rv32i.State memoryBytes}
    (hs : AtFetch s ∧ s.pc.toNat % 2 = 0) (h : Dialect.step s.arch.isa = some t) :
    let k := Dialect.cycles s.arch.isa.fetch
    NextAt (State.clock false) AtFetch s k ∧
      (AtFetch ((State.clock false)^[k] s) ∧ ((State.clock false)^[k] s).pc.toNat % 2 = 0) ∧
        ((State.clock false)^[k] s).arch.isa = t := by
  obtain ⟨⟨o, ho⟩, rfl⟩ := Arch.isa_dialect (a := s.arch) hs.2 h
  have harch := arch_latency hs.1 ho
  intro k
  rw [show k = o.latency from Arch.cycles_eq ho]
  refine ⟨nextAt_latency hs.1 ho, ⟨atFetch_latency hs.1 ho, ?_⟩, congrArg Arch.isa harch⟩
  rw [← State.arch_pc, harch]
  exact Arch.exec_pc_even _

/-- **What the design does with any program.** From a fetch at an even pc,
whatever the buffers hold and whatever words memory holds: as long as the
dialect steps, the design is there when it has come back to a fetch as
often, and that takes the cycles of the words; and it never comes back
more often than the dialect steps. -/
theorem refines_dialect {s : State} (hs : AtFetch s) (hpc : s.pc.toNat % 2 = 0) (n : ℕ) :
    (∀ t, runSpec Dialect.step n s.arch.isa = some t →
      NthReturn (State.clock false) AtFetch s n (Dialect.time n s.arch.isa) ∧
        ((State.clock false)^[Dialect.time n s.arch.isa] s).arch.isa = t) ∧
    (runSpec Dialect.step n s.arch.isa = none →
      ∀ c, returns (State.clock false) AtFetch s c < n) := by
  constructor
  · intro t ht
    obtain ⟨hnth, -, hisa⟩ := nthReturn_of_timed
      (fun t : Rv32i.State memoryBytes => Dialect.cycles t.fetch) (fun s : State => s.arch.isa)
      (fun s => AtFetch s ∧ s.pc.toNat % 2 = 0) (fun _ _ => dialect_boundary) n s t ⟨hs, hpc⟩ ht
    exact ⟨hnth, hisa⟩
  · refine returns_lt_of_simulates (fun s : State => s.arch.isa)
      (fun s => AtFetch s ∧ s.pc.toNat % 2 = 0) ?_ ?_ n s ⟨hs, hpc⟩
    · intro s t hs h
      exact ⟨_, dialect_boundary hs h⟩
    · intro s hs h k hk
      exact not_atFetch_stuck hs.1 (Arch.isa_dialect_none h) hk

/-- `mul x3, x1, x2` in every word of memory, twice: eight cycles. -/
theorem refines_dialect_mul :
    let s := { State.zeroed with memory := fun _ => VecInit 0xb3 0x81 0x20 0x02 }
    NthReturn (State.clock false) AtFetch s 2 8 ∧
      ((State.clock false)^[8] s).arch.isa =
        (s.arch.isa.execute (.alu .add 3 1 2)).execute (.alu .add 3 1 2) :=
  (refines_dialect (s := { State.zeroed with memory := fun _ => VecInit 0xb3 0x81 0x20 0x02 })
    rfl rfl 2).1 _ rfl

end Perilus

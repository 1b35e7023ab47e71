import Perilus.Hardware.Helpers.Integers
import Perilus.Hardware.Helpers.Progress
/-!
# Perilus — the design refines RV32I

`Arch.isa` reads what a program sees as a state of the reference
instruction set over integers. Between two fetches of a legal instruction
the design takes one step of it, an opcode at a time; the run of any
number of them follows.
-/

namespace Perilus

open Rv32i Clocked

/-- The bytes of the design's memory. -/
abbrev memoryBytes : ℕ := 4 * 2 ^ memoryBits

/-- **What a program sees, over integers.** -/
def Arch.isa (a : Arch) : Rv32i.State memoryBytes where
  pc := a.pc.toNat
  x r := (a.registerFile (BitVec.ofNat 5 r)).toNat
  mem := Memory.flat a.memory

namespace Arch

variable {a : Arch}

@[simp] theorem isa_pc : a.isa.pc = a.pc.toNat := rfl
@[simp] theorem isa_mem : a.isa.mem = Memory.flat a.memory := rfl

/-! ## What an instruction reads -/

theorem ofNat_reg_eq_zero {r : Reg} : BitVec.ofNat 5 r = 0 ↔ r = 0 := by
  rw [← BitVec.toNat_inj, BitVec.toNat_ofNat, Nat.mod_eq_of_lt r.isLt]
  exact Fin.ext_iff.symm

/-- Register 0 reads as zero on both sides. -/
theorem isa_reg (r : Reg) :
    a.isa.reg r = (RegisterFile.rd a.registerFile (BitVec.ofNat 5 r)).toNat := by
  rw [Rv32i.State.reg, RegisterFile.rd]
  by_cases h : r = 0
  · rw [if_pos h, if_pos (ofNat_reg_eq_zero.2 h)]
    rfl
  · rw [if_neg h, if_neg (mt ofNat_reg_eq_zero.1 h)]
    rfl

theorem isa_rs1 : a.isa.reg (Rv32i.rs1 a.word.toNat) = a.rd1.toNat := by
  rw [isa_reg, ofNat_rs1, rd1]

theorem isa_rs2 : a.isa.reg (Rv32i.rs2 a.word.toNat) = a.rd2.toNat := by
  rw [isa_reg, ofNat_rs2, rd2]

/-- Both fetch one word. -/
theorem isa_fetch : a.isa.fetch = a.word.toNat := by
  rw [word, fetched, Memory.readData_eq, toNat_readFlat, if_neg (by decide)]
  rfl

theorem isa_next (hpc : a.pc.toNat % 2 = 0) : a.isa.next = a.nextPc.toNat := by
  rw [Rv32i.State.next, nextPc, toNat_and_not_one, BitVec.toNat_add, isa_pc, wrap,
    show BitVec.toNat (4 : BitVec 32) = 4 from rfl]
  omega

/-! ## What it writes -/

/-- The register file after a write, over integers: register 0 ignores it
on both sides. -/
theorem isa_written (r : Reg) (v : BitVec 32) :
    (fun r' : Reg => (RegisterFile.written a.registerFile (BitVec.ofNat 5 r) v
      (BitVec.ofNat 5 r')).toNat) = (a.isa.set r v.toNat).x := by
  funext r'
  have hne : BitVec.ofNat 5 (r' : ℕ) = BitVec.ofNat 5 (r : ℕ) ↔ r' = r := by
    rw [← BitVec.toNat_inj, BitVec.toNat_ofNat, BitVec.toNat_ofNat, Nat.mod_eq_of_lt r'.isLt,
      Nat.mod_eq_of_lt r.isLt, Fin.ext_iff]
  rw [RegisterFile.written, Rv32i.State.set_x]
  by_cases h : r = 0
  · rw [if_pos (ofNat_reg_eq_zero.2 h), if_pos (.inl h)]
    rfl
  · rw [if_neg (mt ofNat_reg_eq_zero.1 h)]
    by_cases hr : r' = r
    · rw [if_neg (by tauto), hr, Function.update_self]
    · rw [if_pos (.inr hr), Function.update_of_ne (mt hne.1 hr)]
      rfl

theorem isa_write (v pc : BitVec 32) :
    Arch.isa { a.write v with pc := pc } =
      { a.isa.set (Rv32i.rd a.word.toNat) v.toNat with pc := pc.toNat } := by
  refine Rv32i.State.ext rfl ?_
    (Rv32i.State.set_mem a.isa (Rv32i.rd a.word.toNat) v.toNat).symm
  rw [← isa_written, ofNat_rd]
  rfl

/-- Writing the destination register and moving on. -/
theorem isa_write_next (hpc : a.pc.toNat % 2 = 0) {v : BitVec 32} {n : ℕ} (hv : v.toNat = n) :
    (a.write v).isa = { a.isa.set (Rv32i.rd a.word.toNat) n with pc := a.isa.next } := by
  rw [isa_next hpc, ← hv]
  exact isa_write v a.nextPc

/-! ## The immediates -/

theorem imm_iType (ho : a.op = Opcode.load.asUInt ∨ a.op = Opcode.immediate.asUInt ∨
    a.op = Opcode.jalr.asUInt) : a.imm = BitVec.ofInt 32 (immI a.word.toNat) := by
  rw [imm, immOf_iType ho, signExtend_eq, signed_toNat, iBits_toInt]

theorem imm_store (ho : a.op = Opcode.store.asUInt) :
    a.imm = BitVec.ofInt 32 (immS a.word.toNat) := by
  rw [imm, immOf_store ho, signExtend_eq, signed_toNat, sBits_toInt]

theorem imm_branch (ho : a.op = Opcode.branch.asUInt) :
    a.imm = BitVec.ofInt 32 (immB a.word.toNat) := by
  rw [imm, immOf_branch ho, signExtend_eq, signed_toNat, bBits_toInt]

theorem imm_jal (ho : a.op = Opcode.jal.asUInt) :
    a.imm = BitVec.ofInt 32 (immJ a.word.toNat) := by
  rw [imm, immOf_jal ho, signExtend_eq, signed_toNat, jBits_toInt]

theorem imm_uType (ho : a.op = Opcode.lui.asUInt ∨ a.op = Opcode.auipc.asUInt) :
    a.imm = BitVec.ofInt 32 (immU a.word.toNat) := by
  rw [imm, immOf_uType ho, uBits_eq]

/-- A jump to an even offset: the bit the pc drops is zero already. -/
theorem target_toNat {z : ℤ} (hpc : a.pc.toNat % 2 = 0) (himm : a.imm = BitVec.ofInt 32 z)
    (hz : z % 2 = 0) : a.target.toNat = wrap (a.isa.pc + z) := by
  rw [target, toNat_and_not_one, himm, toNat_add_ofInt, isa_pc, wrap]
  omega

/-- The effective address, over integers. -/
theorem address_toNat {z : ℤ} (himm : a.imm = BitVec.ofInt 32 z) :
    a.address.toNat = wrap (a.isa.reg (Rv32i.rs1 a.word.toNat) + z) := by
  rw [address, himm, toNat_add_ofInt, isa_rs1]

/-! ## Opcode by opcode -/

theorem isa_lui (hpc : a.pc.toNat % 2 = 0) (ho : a.op = Opcode.lui.asUInt) :
    a.exec.isa = a.isa.execute (.lui (Rv32i.rd a.word.toNat) (immU a.word.toNat)) := by
  rw [exec_lui ho]
  exact isa_write_next hpc (by rw [imm_uType (.inl ho), ← wrap_eq])

theorem isa_auipc (hpc : a.pc.toNat % 2 = 0) (ho : a.op = Opcode.auipc.asUInt) :
    a.exec.isa = a.isa.execute (.auipc (Rv32i.rd a.word.toNat) (immU a.word.toNat)) := by
  rw [exec_auipc ho]
  exact isa_write_next hpc (by rw [imm_uType (.inr ho), toNat_add_ofInt, isa_pc])

theorem link_toNat : (a.pc + 4).toNat = a.isa.next := by
  have hfour : BitVec.toNat (4 : BitVec 32) = 4 := rfl
  rw [Rv32i.State.next, isa_pc, wrap, BitVec.toNat_add, hfour]
  omega

theorem isa_jal (hpc : a.pc.toNat % 2 = 0) (ho : a.op = Opcode.jal.asUInt) :
    a.exec.isa = a.isa.execute (.jal (Rv32i.rd a.word.toNat) (immJ a.word.toNat)) := by
  have heven : immJ a.word.toNat % 2 = 0 := by
    rw [immJ, signed]
    split <;> omega
  rw [exec_jal ho, isa_write, aluValue_jal ho, link_toNat, target_toNat hpc (imm_jal ho) heven]
  rfl

/-- A jump and link register, through whatever function its word selects. -/
theorem isa_jalr_as {f : Rv32i.Alu} (ho : a.op = Opcode.jalr.asUInt)
    (hctl : arithmeticOf a.word = controlOf f) :
    a.exec.isa = { a.isa.set (Rv32i.rd a.word.toNat) (f.eval a.isa.pc 4) with
      pc := f.eval (a.isa.reg (Rv32i.rs1 a.word.toNat)) (wrap (immI a.word.toNat)) / 2 * 2 } := by
  have hlink : a.jalrLink.toNat = f.eval a.isa.pc 4 := by
    rw [jalrLink, hctl, aluResult_eval]
    rfl
  have htarget : a.jalrTarget.toNat =
      f.eval (a.isa.reg (Rv32i.rs1 a.word.toNat)) (wrap (immI a.word.toNat)) / 2 * 2 := by
    rw [jalrTarget, toNat_and_not_one, hctl, aluResult_eval, imm_iType (.inr (.inr ho)),
      ← wrap_eq, isa_rs1]
  rw [exec_jalr ho, isa_write, hlink, htarget]

theorem isa_jalr (ho : a.op = Opcode.jalr.asUInt) (h3 : Rv32i.funct3 a.word.toNat = 0) :
    a.exec.isa = a.isa.execute
      (.jalr (Rv32i.rd a.word.toNat) (Rv32i.rs1 a.word.toNat) (immI a.word.toNat)) := by
  have hadd : arithmeticOf a.word = controlOf .add := by
    rw [arithmeticOf, show opOf a.word = _ from ho, funct3Of_eq, h3]
    rfl
  have hlink : Rv32i.Alu.eval .add a.isa.pc 4 = a.isa.next := by
    rw [Rv32i.Alu.eval, Rv32i.State.next, wrap]
    omega
  have htarget : Rv32i.Alu.eval .add (a.isa.reg (Rv32i.rs1 a.word.toNat))
      (wrap (immI a.word.toNat)) =
        wrap (a.isa.reg (Rv32i.rs1 a.word.toNat) + immI a.word.toNat) := by
    simp only [Rv32i.Alu.eval, wrap]
    omega
  rw [isa_jalr_as ho hadd, hlink, htarget]
  rfl

theorem isa_branch {c : Condition} (hpc : a.pc.toNat % 2 = 0) (ho : a.op = Opcode.branch.asUInt)
    (hc : conditionOf (Rv32i.funct3 a.word.toNat) = some c) :
    a.exec.isa = a.isa.execute
      (.branch c (Rv32i.rs1 a.word.toNat) (Rv32i.rs2 a.word.toNat) (immB a.word.toNat)) := by
  have heven : immB a.word.toNat % 2 = 0 := by
    rw [immB, signed]
    split <;> omega
  have htaken : a.taken = c.holds (a.isa.reg (Rv32i.rs1 a.word.toNat))
      (a.isa.reg (Rv32i.rs2 a.word.toNat)) := by
    rw [isa_rs1, isa_rs2]
    exact branchTaken_eq hc _ _
  rw [exec_branch ho, Rv32i.State.execute, ← htaken, ← target_toNat hpc (imm_branch ho) heven,
    isa_next hpc]
  cases a.taken <;> rfl

/-- A load, at the width and the extension the control unit asks for. -/
theorem isa_load_as (hpc : a.pc.toNat % 2 = 0) (ho : a.op = Opcode.load.asUInt) :
    a.exec.isa = a.isa.execute
      (.load (accessMask a.funct3).width (ControlUnit.signExtData Opcode.load.asUInt a.funct3)
        (Rv32i.rd a.word.toNat) (Rv32i.rs1 a.word.toNat) (immI a.word.toNat)) := by
  rw [exec_load ho]
  refine isa_write_next hpc ?_
  rw [loaded, Memory.readData_eq, toNat_readFlat, address_toNat (imm_iType (.inl ho))]
  rfl

theorem isa_load {width : ℕ} {extend : Bool} (hpc : a.pc.toNat % 2 = 0)
    (ho : a.op = Opcode.load.asUInt)
    (hl : loadOf (Rv32i.funct3 a.word.toNat) = some (width, extend)) :
    a.exec.isa = a.isa.execute
      (.load width extend (Rv32i.rd a.word.toNat) (Rv32i.rs1 a.word.toNat)
        (immI a.word.toNat)) := by
  have hfunct3 : (accessMask a.funct3).width = width ∧
      ControlUnit.signExtData Opcode.load.asUInt a.funct3 = extend := by
    rw [Arch.funct3, funct3Of_eq]
    generalize Rv32i.funct3 a.word.toNat = n3 at hl ⊢
    unfold loadOf at hl
    split at hl <;> cases hl <;> exact ⟨rfl, rfl⟩
  obtain ⟨rfl, rfl⟩ := hfunct3
  exact isa_load_as hpc ho

/-- A store, at the width the control unit asks for. -/
theorem isa_store_as (hpc : a.pc.toNat % 2 = 0) (ho : a.op = Opcode.store.asUInt) :
    a.exec.isa = a.isa.execute
      (.store (accessMask a.funct3).width (Rv32i.rs1 a.word.toNat) (Rv32i.rs2 a.word.toNat)
        (immS a.word.toNat)) := by
  rw [exec_store ho]
  refine Rv32i.State.ext (isa_next hpc).symm rfl ?_
  rw [isa_mem, Memory.flat_stored, address_toNat (imm_store ho), ← isa_rs2]
  rfl

theorem isa_store {width : ℕ} (hpc : a.pc.toNat % 2 = 0) (ho : a.op = Opcode.store.asUInt)
    (hs : storeOf (Rv32i.funct3 a.word.toNat) = some width) :
    a.exec.isa = a.isa.execute
      (.store width (Rv32i.rs1 a.word.toNat) (Rv32i.rs2 a.word.toNat) (immS a.word.toNat)) := by
  have hfunct3 : (accessMask a.funct3).width = width := by
    rw [Arch.funct3, funct3Of_eq]
    generalize Rv32i.funct3 a.word.toNat = n3 at hs ⊢
    unfold storeOf at hs
    split at hs <;> cases hs <;> rfl
  subst hfunct3
  exact isa_store_as hpc ho

/-- An immediate instruction, through the function its word selects, on
an operand the function cannot tell from the immediate. -/
theorem isa_aluImm_as {f : Rv32i.Alu} {imm : ℤ} (hpc : a.pc.toNat % 2 = 0)
    (ho : a.op = Opcode.immediate.asUInt) (hctl : arithmeticOf a.word = controlOf f)
    (himm : ∀ x, f.eval x a.imm.toNat = f.eval x (wrap imm)) :
    a.exec.isa = a.isa.execute
      (.aluImm f (Rv32i.rd a.word.toNat) (Rv32i.rs1 a.word.toNat) imm) := by
  rw [exec_immediate ho]
  refine isa_write_next hpc ?_
  rw [aluValue_immediate ho, hctl, aluResult_eval, isa_rs1]
  exact himm _

theorem isa_aluImm {f : Rv32i.Alu} {imm : ℤ} (hpc : a.pc.toNat % 2 = 0)
    (ho : a.op = Opcode.immediate.asUInt) (hf : aluImmOf a.word.toNat = some (f, imm)) :
    a.exec.isa = a.isa.execute
      (.aluImm f (Rv32i.rd a.word.toNat) (Rv32i.rs1 a.word.toNat) imm) := by
  obtain ⟨hctl, himm⟩ := arithmeticOf_aluImm ho hf
  exact isa_aluImm_as hpc ho hctl himm

/-- A register instruction, through the function its word selects. -/
theorem isa_alu_as {f : Rv32i.Alu} (hpc : a.pc.toNat % 2 = 0) (ho : a.op = Opcode.rType.asUInt)
    (hctl : arithmeticOf a.word = controlOf f) :
    a.exec.isa = a.isa.execute
      (.alu f (Rv32i.rd a.word.toNat) (Rv32i.rs1 a.word.toNat) (Rv32i.rs2 a.word.toNat)) := by
  rw [exec_rType ho]
  refine isa_write_next hpc ?_
  rw [aluValue_rType ho, hctl, aluResult_eval, isa_rs1, isa_rs2]

theorem isa_alu {f : Rv32i.Alu} (hpc : a.pc.toNat % 2 = 0) (ho : a.op = Opcode.rType.asUInt)
    (hf : aluOf (Rv32i.funct3 a.word.toNat) (funct7 a.word.toNat) = some f) :
    a.exec.isa = a.isa.execute
      (.alu f (Rv32i.rd a.word.toNat) (Rv32i.rs1 a.word.toNat) (Rv32i.rs2 a.word.toNat)) :=
  isa_alu_as hpc ho (arithmeticOf_alu ho hf)

theorem isa_env (hpc : a.pc.toNat % 2 = 0)
    (ho : a.op = Opcode.env.asUInt ∨ a.op = Opcode.fence.asUInt) :
    a.exec.isa = { a.isa with pc := a.isa.next } := by
  rw [exec_env ho, isa_next hpc]
  rfl

/-- The opcode of a word, from its value. -/
theorem op_of_field {o : Opcode} (h : field a.word.toNat 0 7 = o.asUInt.toNat) :
    a.op = o.asUInt :=
  BitVec.eq_of_toNat_eq (by rw [← h, field_opOf]; rfl)

/-- **One instruction.** Where the reference steps, the word has a
supported opcode and the design does the same. -/
theorem isa_step {t : Rv32i.State memoryBytes} (hpc : a.pc.toNat % 2 = 0)
    (h : a.isa.step = some t) : (∃ o : Opcode, a.op = o.asUInt) ∧ a.exec.isa = t := by
  obtain ⟨i, hi, rfl⟩ := Option.map_eq_some_iff.1 h
  rw [isa_fetch] at hi
  -- one case for each opcode of the reference's decoder
  unfold decode at hi
  split at hi
  case h_1 hop =>
    cases hi
    exact ⟨⟨.lui, op_of_field hop⟩, isa_lui hpc (op_of_field hop)⟩
  case h_2 hop =>
    cases hi
    exact ⟨⟨.auipc, op_of_field hop⟩, isa_auipc hpc (op_of_field hop)⟩
  case h_3 hop =>
    cases hi
    exact ⟨⟨.jal, op_of_field hop⟩, isa_jal hpc (op_of_field hop)⟩
  case h_4 hop =>
    split at hi <;> cases hi
    next h3 => exact ⟨⟨.jalr, op_of_field hop⟩, isa_jalr (op_of_field hop) h3⟩
  case h_5 hop =>
    obtain ⟨c, hc, rfl⟩ := Option.map_eq_some_iff.1 hi
    exact ⟨⟨.branch, op_of_field hop⟩, isa_branch hpc (op_of_field hop) hc⟩
  case h_6 hop =>
    obtain ⟨p, hp, rfl⟩ := Option.map_eq_some_iff.1 hi
    exact ⟨⟨.load, op_of_field hop⟩, isa_load hpc (op_of_field hop) hp⟩
  case h_7 hop =>
    obtain ⟨width, hw, rfl⟩ := Option.map_eq_some_iff.1 hi
    exact ⟨⟨.store, op_of_field hop⟩, isa_store hpc (op_of_field hop) hw⟩
  case h_8 hop =>
    obtain ⟨p, hp, rfl⟩ := Option.map_eq_some_iff.1 hi
    exact ⟨⟨.immediate, op_of_field hop⟩, isa_aluImm hpc (op_of_field hop) hp⟩
  case h_9 hop =>
    obtain ⟨f, hf, rfl⟩ := Option.map_eq_some_iff.1 hi
    exact ⟨⟨.rType, op_of_field hop⟩, isa_alu hpc (op_of_field hop) hf⟩
  case h_10 hop =>
    split at hi <;> cases hi
    exact ⟨⟨.fence, op_of_field hop⟩, isa_env hpc (.inr (op_of_field hop))⟩
  case h_11 hop =>
    refine ⟨⟨.env, op_of_field hop⟩, ?_⟩
    split at hi
    · cases hi
      exact isa_env hpc (.inl (op_of_field hop))
    · split at hi <;> cases hi
      exact isa_env hpc (.inl (op_of_field hop))
  case h_12 => cases hi

end Arch

/-- Every pc write clears bit 0. -/
theorem Arch.exec_pc_even (a : Arch) : a.exec.pc.toNat % 2 = 0 := by
  have hmask : ∀ x : BitVec 32, (x &&& ~~~(1 : BitVec 32)).toNat % 2 = 0 := fun x => by
    rw [toNat_and_not_one]
    omega
  unfold Arch.exec
  split
  case h_8 =>
    dsimp only
    split <;> exact hmask _
  all_goals exact hmask _

/-! ## Runs -/

/-- From one fetch to the next the design takes one step of the reference. -/
theorem isa_boundary {s : State} {t : Rv32i.State memoryBytes} (hs : AtFetch s)
    (hpc : s.pc.toNat % 2 = 0) (h : s.arch.isa.step = some t) :
    ∃ k, NextAt (State.clock false) AtFetch s k ∧
      (AtFetch ((State.clock false)^[k] s) ∧ ((State.clock false)^[k] s).pc.toNat % 2 = 0) ∧
        ((State.clock false)^[k] s).arch.isa = t := by
  obtain ⟨⟨o, ho⟩, rfl⟩ := Arch.isa_step (a := s.arch) hpc h
  have harch := arch_latency hs ho
  refine ⟨o.latency, nextAt_latency hs ho, ⟨atFetch_latency hs ho, ?_⟩, congrArg Arch.isa harch⟩
  rw [← State.arch_pc, harch]
  exact Arch.exec_pc_even _

/-- **The design refines RV32I over whole runs.** From a fetch at an even
pc, whatever the buffers hold, if the reference takes `n` steps from what
a program sees, then clocking the design until it has come back to a
fetch `n` times takes some number of cycles and leaves what the reference
does. -/
theorem refines_rv32i {s : State} (hs : AtFetch s) (hpc : s.pc.toNat % 2 = 0) {n : ℕ}
    {t : Rv32i.State memoryBytes} (h : runSpec Rv32i.State.step n s.arch.isa = some t) :
    ∃ c, NthReturn (State.clock false) AtFetch s n c ∧
      ((State.clock false)^[c] s).arch.isa = t := by
  obtain ⟨c, hc, -, hisa⟩ := nthReturn_of_simulates (fun s : State => s.arch.isa)
    (fun s => AtFetch s ∧ s.pc.toNat % 2 = 0) (fun _ _ ⟨hs, hpc⟩ => isa_boundary hs hpc)
    n s t ⟨hs, hpc⟩ h
  exact ⟨c, hc, hisa⟩

/-- `addi x1, x1, 1` in every word of memory, twice. -/
theorem refines_rv32i_addi :
    let s := { State.zeroed with memory := fun _ => VecInit 0x93 0x80 0x10 0x00 }
    ∃ c, NthReturn (State.clock false) AtFetch s 2 c ∧
      ((State.clock false)^[c] s).arch.isa =
        (s.arch.isa.execute (.aluImm .add 1 1 1)).execute (.aluImm .add 1 1 1) :=
  refines_rv32i
    (s := { State.zeroed with memory := fun _ => VecInit 0x93 0x80 0x10 0x00 }) rfl rfl rfl

end Perilus

import Perilus.Hardware.Program
import Perilus.Simulator.Verdict
/-!
# Simulator — how a test program halts

`rvmodel_macros.h`: a test ends by loading a value into `x1` and executing
`ebreak`. Wherever a program reaches such a macro, the value decides what
the `Test` command reports, and the values of the header are the ones the
command looks for.
-/

namespace Perilus

open Rv32i Clocked

/-! ## The macros -/

/-- `li x1, v`, as an assembler expands it: the upper twenty bits, one more
where the low twelve are negative, and the low twelve. -/
def liWords (v : BitVec 32) : List (BitVec 32) :=
  [testUType (v + 0x800) 1 0x37, assembleIType 0 false 1 1 v 0x13]

/-- The value `RVMODEL_HALT_PASS` loads. -/
def rvmodelHaltPass : BitVec 32 := 0xebbb3689

/-- The value `RVMODEL_HALT_FAIL` loads. -/
def rvmodelHaltFail : BitVec 32 := 0xd02a545a

/-- The word at an address. -/
def wordAt (t : Rv32i.State memoryBytes) (a : ℕ) : ℕ :=
  ByteMemory.load t.mem (ByteMemory.place memoryBytes 4 a) 4

/-- **A halt macro stands at the pc**, inside memory: `li x1, v` and
`ebreak`. -/
structure HaltAt (t : Rv32i.State memoryBytes) (v : BitVec 32) : Prop where
  inside : (t.pc + 8) / 4 < Simulator.memorySizeWords
  words : [wordAt t t.pc, wordAt t (t.pc + 4), wordAt t (t.pc + 8)] =
    (liWords v ++ [ebreakInstruction]).map BitVec.toNat

/-! ## `li` -/

section Li

variable (v : BitVec 32)

/-- What `lui` loads. -/
def upper : ℕ := (v + 0x800).toNat / 4096 * 4096

/-- The first word of a `li`. -/
theorem lui_eq : testUType (v + 0x800) 1 0x37 = assemble (.lui 1 (upper v)) := by
  have hlt := (v + 0x800).isLt
  -- the low twelve bits do not get into the word
  have hbits : (v + 0x800).extractLsb 31 12 = (BitVec.ofInt 32 (upper v)).extractLsb 31 12 := by
    rw [← BitVec.toNat_inj, Bits.toNat_extractLsb, Bits.toNat_extractLsb, BitVec.toNat_ofInt,
      upper]
    omega
  refine (testUType_eq 1 (v + 0x800) Opcode.lui.asUInt).trans ?_
  rw [hbits]
  exact (testUType_eq 1 (BitVec.ofInt 32 (upper v)) Opcode.lui.asUInt).symm

theorem encodable_lui : Encodable (.lui 1 (upper v)) := by
  have hlt := (v + 0x800).isLt
  rw [Encodable, upper]
  omega

/-- The low twelve bits, as the second word has them. -/
theorem low_fits : FitsBits 12 (signed 12 (v.toNat % 4096)) ∧
    v.setWidth 12 = (BitVec.ofInt 32 (signed 12 (v.toNat % 4096))).setWidth 12 := by
  refine (toInt_eq_iff (by decide) (v.setWidth 12) _).1 ?_
  rw [← signed_toNat, BitVec.toNat_setWidth]

/-- The second. -/
theorem addi_eq : assembleIType 0 false 1 1 v 0x13 =
    assemble (.aluImm .add 1 1 (signed 12 (v.toNat % 4096))) := by
  rw [assembleIType_eq, (low_fits v).2]
  exact (assembleIType_eq ..).symm

theorem encodable_addi : Encodable (.aluImm .add 1 1 (signed 12 (v.toNat % 4096))) := (low_fits v).1

/-- **`li` loads its value.** -/
theorem li_eq :
    Rv32i.Alu.eval .add (wrap (upper v)) (wrap (signed 12 (v.toNat % 4096))) = v.toNat := by
  have hlt := v.isLt
  have hadd : (v + 0x800).toNat = (v.toNat + 2048) % 2 ^ 32 := BitVec.toNat_add v 0x800
  simp only [Rv32i.Alu.eval, wrap, signed, upper, hadd]
  split <;> omega

variable (t : Rv32i.State memoryBytes)

/-- After the `lui`. -/
def afterLui : Rv32i.State memoryBytes := t.execute (.lui 1 (upper v))

/-- After the `addi`. -/
def afterLi : Rv32i.State memoryBytes :=
  (afterLui v t).execute (.aluImm .add 1 1 (signed 12 (v.toNat % 4096)))

theorem afterLi_x : (afterLi v t).x 1 = v.toNat := li_eq v

variable {v t}

theorem step_lui (h : t.fetch = (testUType (v + 0x800) 1 0x37).toNat) :
    Dialect.step t = some (afterLui v t) ∧ Dialect.cycles t.fetch = 3 := by
  rw [lui_eq] at h
  obtain ⟨hstep, hcycles⟩ := Program.step_of_fetch (encodable_lui v) h
  exact ⟨Dialect.step_of_rv32i hstep, hcycles⟩

theorem step_addi (h : (afterLui v t).fetch = (assembleIType 0 false 1 1 v 0x13).toNat) :
    Dialect.step (afterLui v t) = some (afterLi v t) ∧
      Dialect.cycles (afterLui v t).fetch = 4 := by
  rw [addi_eq] at h
  obtain ⟨hstep, hcycles⟩ := Program.step_of_fetch (encodable_addi v) h
  exact ⟨Dialect.step_of_rv32i hstep, hcycles⟩

/-- The word the command looks for is that of one instruction. -/
theorem assemble_eq_ebreak_iff {i : Instr} (hi : Encodable i) :
    (assemble i).toNat = ebreakInstruction.toNat ↔ i = .ebreak := by
  constructor
  · intro h
    have hdec := decode_assemble hi
    rw [h] at hdec
    exact (Option.some.inj hdec).symm
  · rintro rfl
    rfl

/-- A pc low in memory does not wrap around. -/
theorem wrap_add_four {a : ℕ} (h : a < 2 ^ 31) : wrap (a + 4) = a + 4 := by
  rw [wrap]
  omega

theorem afterLui_pc (h : t.pc < 2 ^ 30) : (afterLui v t).pc = t.pc + 4 := wrap_add_four (by omega)

theorem afterLi_pc (h : t.pc < 2 ^ 30) : (afterLi v t).pc = t.pc + 8 := by
  change wrap ((afterLui v t).pc + 4) = t.pc + 8
  rw [afterLui_pc h]
  exact wrap_add_four (a := t.pc + 4) (by omega)

end Li

/-! ## The runner on a halt macro -/

section Run

variable {c n : ℕ} {t t' : Rv32i.State memoryBytes} {v : BitVec 32}

/-- One word inside the limit that does not leave memory. -/
theorem isaTest_step (hstep : Dialect.step t = some t')
    (hc : c + Dialect.cycles t.fetch ≤ testMaxCycles)
    (hin : t'.pc / 4 < Simulator.memorySizeWords) :
    isaTest c t =
      if t'.fetch = ebreakInstruction.toNat then testVerdict (BitVec.ofNat 32 (t'.x 1))
      else isaTest (c + Dialect.cycles t.fetch) t' := by
  rw [isaTest, hstep]
  dsimp only
  rw [if_neg (Nat.not_lt.2 hc), if_neg (Nat.not_le.2 hin)]

/-- **A run past no end.** -/
theorem isaTest_run (hrun : runSpec Dialect.step n t = some t')
    (hpass : ∀ i u, 0 < i → i ≤ n → runSpec Dialect.step i t = some u →
      u.pc / 4 < Simulator.memorySizeWords ∧ u.fetch ≠ ebreakInstruction.toNat)
    (hc : c + Dialect.time n t ≤ testMaxCycles) :
    isaTest c t = isaTest (c + Dialect.time n t) t' := by
  induction n generalizing c t with
  | zero => rw [Option.some.inj hrun]; rfl
  | succ n ih =>
    obtain ⟨t₁, hstep, hrest⟩ := Option.bind_eq_some_iff.1 hrun
    have htime : Dialect.time (n + 1) t = Dialect.cycles t.fetch + Dialect.time n t₁ := by
      rw [Dialect.time, runCost, hstep]
      rfl
    rw [htime] at hc ⊢
    have hone : runSpec Dialect.step 1 t = some t₁ := by
      rw [runSpec, hstep]
      rfl
    -- where the first word leads, nothing ends the run
    obtain ⟨hin, hne⟩ := hpass 1 t₁ Nat.one_pos (by omega) hone
    rw [isaTest_step hstep (by omega) hin, if_neg hne, ← Nat.add_assoc]
    refine ih hrest ?_ (by omega)
    intro i u hi hle hu
    refine hpass (i + 1) u (by omega) (by omega) ?_
    rw [runSpec, hstep]
    exact hu

/-- **The macro's value decides.** -/
theorem isaTest_halt (h : HaltAt t v) (hc : c + 7 ≤ testMaxCycles) :
    isaTest c t = testVerdict v := by
  obtain ⟨hin, hwords⟩ := h
  simp only [liWords, List.cons_append, List.nil_append, List.map_cons, List.map_nil,
    List.cons.injEq, and_true] at hwords
  obtain ⟨hlui, haddi, hebreak⟩ := hwords
  -- inside memory the pc does not wrap around over the three words
  have hlow : t.pc < 2 ^ 30 := by
    rw [Simulator.memorySizeWords] at hin
    omega
  obtain ⟨hstep, hcycles⟩ := step_lui (t := t) hlui
  have hfetch : (afterLui v t).fetch = (assembleIType 0 false 1 1 v 0x13).toNat := by
    rw [Rv32i.State.fetch, afterLui_pc hlow, ← haddi]
    rfl
  obtain ⟨hstep', hcycles'⟩ := step_addi hfetch
  have hfetch' : (afterLi v t).fetch = ebreakInstruction.toNat := by
    rw [Rv32i.State.fetch, afterLi_pc hlow, ← hebreak]
    rfl
  have hne : (afterLui v t).fetch ≠ ebreakInstruction.toNat := by
    rw [hfetch, addi_eq]
    exact mt (assemble_eq_ebreak_iff (encodable_addi v)).1 Instr.noConfusion
  rw [Simulator.memorySizeWords] at hin
  rw [isaTest_step hstep (by omega) (by rw [afterLui_pc hlow, Simulator.memorySizeWords]; omega),
    if_neg hne, isaTest_step hstep' (by omega) (by rw [afterLi_pc hlow]; exact hin),
    if_pos hfetch', afterLi_x, BitVec.ofNat_toNat, BitVec.setWidth_eq]

end Run

/-- **The halt macros decide the verdict.** Wherever the run of an image
meets one, if nothing before it has ended the run and the limit leaves
time for its three words, the `Test` command reports what the value it
loads stands for: success for `RVMODEL_HALT_PASS`, and a failed test for
`RVMODEL_HALT_FAIL`. -/
theorem halt_verdict (image : List (BitVec 8)) {n : ℕ} {t : Rv32i.State memoryBytes}
    {v : BitVec 32} (hlen : image.length ≤ Simulator.memorySizeBytes)
    (hrun : runSpec Dialect.step n (isaBoot image) = some t)
    (hpass : ∀ i u, 0 < i → i ≤ n → runSpec Dialect.step i (isaBoot image) = some u →
      u.pc / 4 < Simulator.memorySizeWords ∧ u.fetch ≠ ebreakInstruction.toNat)
    (htime : Dialect.time n (isaBoot image) + 7 ≤ testMaxCycles) (hhalt : HaltAt t v) :
    ∃ run, testCommand (.ok image) = some run ∧ run.result = testVerdict v ∧
      (v = rvmodelHaltPass → run.result = .ok ()) ∧
      (v = rvmodelHaltFail → run.result = .error "Test failed") := by
  obtain ⟨run, hcommand, hresult⟩ := testCommand_of_fits hlen
  have hverdict : run.result = testVerdict v := by
    rw [hresult, isaTest_run hrun hpass (by omega), Nat.zero_add]
    exact isaTest_halt hhalt htime
  refine ⟨run, hcommand, hverdict, ?_, ?_⟩
  · rintro rfl
    exact hverdict
  · rintro rfl
    exact hverdict

/-- `addi x5, x0, 1`, and then the passing macro. -/
theorem halt_verdict_pass :
    ∃ run, testCommand (.ok [0x93, 0x02, 0x10, 0x00, 0xb7, 0x30, 0xbb, 0xeb, 0x93, 0x80, 0x90, 0x68,
      0x73, 0x00, 0x10, 0x00]) = some run ∧ run.result = .ok () := by
  obtain ⟨run, hcommand, -, hverdict, -⟩ := halt_verdict
    [0x93, 0x02, 0x10, 0x00, 0xb7, 0x30, 0xbb, 0xeb, 0x93, 0x80, 0x90, 0x68, 0x73, 0x00, 0x10, 0x00]
    (n := 1) (v := rvmodelHaltPass) (by decide) rfl (fun i u hi hle hu => by
      obtain rfl : i = 1 := by omega
      obtain rfl := Option.some.inj hu
      exact ⟨by decide, by decide⟩) (by decide) ⟨by decide, by decide⟩
  exact ⟨run, hcommand, hverdict rfl⟩

end Perilus

import Perilus.Simulator.Halt
/-!
# Simulator — an assembled program under the `Test` command

The image of a program is its words one after another. The command runs
it as its list of instructions reads, up to the first `ebreak` it comes
to, and `x1` there is the verdict.
-/

namespace Perilus

open ByteMemory Clocked

/-! ## The image -/

/-- The image of a program. -/
def Program.image (p : Program memoryBytes) : List (BitVec 8) :=
  (p.instrs.map assemble).flatMap toLeBytes

theorem length_flatMap_toLeBytes (ws : List (BitVec 32)) :
    (ws.flatMap toLeBytes).length = 4 * ws.length := by
  induction ws with
  | nil => rfl
  | cons w ws ih =>
    rw [List.flatMap_cons, List.length_append, ih, List.length_cons]
    change 4 + _ = _
    omega

/-- Byte by byte, word after word. -/
theorem getD_flatMap_toLeBytes (ws : List (BitVec 32)) {k j : ℕ} (hk : k < ws.length)
    (hj : j < 4) : (ws.flatMap toLeBytes).getD (4 * k + j) 0 = (toLeBytes ws[k]).getD j 0 := by
  induction ws generalizing k with
  | nil => cases hk
  | cons w ws ih =>
    rw [List.flatMap_cons]
    cases k with
    | zero =>
      rw [Nat.mul_zero, Nat.zero_add, List.getD_append _ _ _ _ hj]
      rfl
    | succ k =>
      -- past the four bytes of the first word
      have hlen : (toLeBytes w).length ≤ 4 * (k + 1) + j := by
        change 4 ≤ _
        omega
      rw [List.getD_append_right _ _ _ _ hlen]
      have hsub : 4 * (k + 1) + j - (toLeBytes w).length = 4 * k + j := by
        change 4 * (k + 1) + j - 4 = _
        omega
      rw [hsub]
      exact ih (Nat.lt_of_succ_lt_succ hk)

/-- The bytes of a word are its digits. -/
theorem ofDigits_toLeBytes (w : BitVec 32) :
    Nat.ofDigits 256 ((List.range 4).map fun j => ((toLeBytes w).getD j 0).toNat) = w.toNat := by
  have hw := w.isLt
  simp only [toLeBytes, List.range, List.range.loop, List.map_cons, List.map_nil,
    List.getD_cons_zero, List.getD_cons_succ, Nat.ofDigits_cons, Nat.ofDigits_nil,
    Bits.toNat_extractLsb]
  omega

/-- **The image is the program.** -/
theorem Program.in_isaBoot (p : Program memoryBytes) : p.In (isaBoot p.image).mem := by
  intro k hk
  have hfits : 4 * p.instrs.length ≤ memoryBytes := p.fits
  have hk' : k < (p.instrs.map assemble).length := by rwa [List.length_map]
  rw [load, ← ofDigits_toLeBytes]
  congr 1
  refine List.map_congr_left fun j hj => ?_
  have hj4 := List.mem_range.1 hj
  rw [byteAt_of_lt _ (show 4 * k + j < memoryBytes by omega), isaBoot, image]
  dsimp only
  rw [getD_flatMap_toLeBytes _ hk' hj4, List.getElem_map]

/-! ## The run -/

section Run

variable {p : Program memoryBytes} {s t : Rv32i.State memoryBytes}

/-- The pc of an instruction is inside memory. -/
theorem Program.pc_inside {i : Rv32i.Instr} (h : p.fetch s.pc = some i) :
    s.pc / 4 < Simulator.memorySizeWords := by
  have hfits : 4 * p.instrs.length ≤ 4194304 := p.fits
  rw [fetch, Option.ite_none_right_eq_some] at h
  obtain ⟨hlt, -⟩ := List.getElem?_eq_some_iff.1 h.2
  rw [Simulator.memorySizeWords]
  omega

/-- **One instruction under the command**, inside the limit. -/
theorem isaTest_instr {c : ℕ} {i j : Rv32i.Instr} (hin : p.In s.mem) (hi : p.fetch s.pc = some i)
    (hstep : p.step s = some t) (hj : p.fetch t.pc = some j)
    (hc : c + (opcodeOf i).latency ≤ testMaxCycles) :
    isaTest c s =
      if j = .ebreak then testVerdict (BitVec.ofNat 32 (t.x 1))
      else isaTest (c + (opcodeOf i).latency) t := by
  obtain ⟨i', hi', hspec, hcycles, hin'⟩ := hin.step hstep
  obtain rfl := Option.some.inj (hi.symm.trans hi')
  obtain ⟨hfetch, hmem⟩ := hin'.fetch_eq hj
  rw [isaTest_step (Dialect.step_of_rv32i hspec) (by rwa [hcycles]) (Program.pc_inside hj), hcycles,
    hfetch]
  exact if_congr (assemble_eq_ebreak_iff (p.encodable j hmem)) rfl rfl

theorem Program.time_succ {n : ℕ} {i : Rv32i.Instr} (hi : p.fetch s.pc = some i)
    (hstep : p.step s = some t) : p.time (n + 1) s = (opcodeOf i).latency + p.time n t := by
  rw [time, runCost, hstep, hi]
  rfl

/-- **Up to the first `ebreak`** the program comes to. -/
theorem isaTest_program {n c : ℕ} (hin : p.In s.mem) (hrun : runSpec p.step (n + 1) s = some t)
    (hpass : ∀ m u, 0 < m → m ≤ n → runSpec p.step m s = some u → p.fetch u.pc ≠ some .ebreak)
    (hend : p.fetch t.pc = some .ebreak) (hc : c + p.time (n + 1) s ≤ testMaxCycles) :
    isaTest c s = testVerdict (BitVec.ofNat 32 (t.x 1)) := by
  induction n generalizing c s with
  | zero =>
    obtain ⟨s₁, hstep, hrest⟩ := Option.bind_eq_some_iff.1 hrun
    obtain rfl := Option.some.inj hrest
    obtain ⟨i, hi, -⟩ := hin.step hstep
    rw [Program.time_succ hi hstep] at hc
    rw [isaTest_instr hin hi hstep hend (by omega), if_pos rfl]
  | succ n ih =>
    obtain ⟨s₁, hstep, hrest⟩ := Option.bind_eq_some_iff.1 hrun
    obtain ⟨i, hi, -, -, hin₁⟩ := hin.step hstep
    -- there is an instruction after this one, and it is no `ebreak`
    obtain ⟨s₂, hstep₁, -⟩ := Option.bind_eq_some_iff.1 hrest
    obtain ⟨j, hj, -⟩ := hin₁.step hstep₁
    have hone : runSpec p.step 1 s = some s₁ := by
      rw [runSpec, hstep]
      rfl
    have hne : j ≠ .ebreak := by
      rintro rfl
      exact hpass 1 s₁ Nat.one_pos (by omega) hone hj
    rw [Program.time_succ hi hstep] at hc
    rw [isaTest_instr hin hi hstep hj (by omega), if_neg hne]
    refine ih hin₁ hrest ?_ (by omega)
    intro m u hm hle hu
    refine hpass (m + 1) u (by omega) (by omega) ?_
    rw [runSpec, hstep]
    exact hu

end Run

/-- **The verdict on an assembled program.** If the program's list of
instructions, read from its first one on, comes to an `ebreak` after some
instructions and to none before, and their cycles are within the limit,
the `Test` command on its image reports the value in `x1` there. -/
theorem testCommand_program (p : Program memoryBytes) {n : ℕ} {t : Rv32i.State memoryBytes}
    (hrun : runSpec p.step (n + 1) (isaBoot p.image) = some t)
    (hpass : ∀ m u, 0 < m → m ≤ n → runSpec p.step m (isaBoot p.image) = some u →
      p.fetch u.pc ≠ some .ebreak)
    (hend : p.fetch t.pc = some .ebreak)
    (htime : p.time (n + 1) (isaBoot p.image) ≤ testMaxCycles) :
    ∃ run, testCommand (.ok p.image) = some run ∧
      run.result = testVerdict (BitVec.ofNat 32 (t.x 1)) := by
  have hfits : 4 * p.instrs.length ≤ 4194304 := p.fits
  have hlen : p.image.length ≤ Simulator.memorySizeBytes := by
    rw [Program.image, length_flatMap_toLeBytes, List.length_map]
    exact hfits
  obtain ⟨run, hcommand, hresult⟩ := testCommand_of_fits hlen
  refine ⟨run, hcommand, ?_⟩
  rw [hresult]
  exact isaTest_program p.in_isaBoot hrun hpass hend (by omega)

/-- The instructions of `RVMODEL_HALT_PASS`. -/
def haltPassInstrs : List Rv32i.Instr :=
  (liWords rvmodelHaltPass ++ [ebreakInstruction]).filterMap fun w => Rv32i.decode w.toNat

theorem encodable_haltPassInstrs : ∀ i ∈ haltPassInstrs, Encodable i := by decide

def haltPassProgram : Program memoryBytes where
  instrs := haltPassInstrs
  encodable := encodable_haltPassInstrs
  fits := Nat.le_of_ble_eq_true rfl

/-- It passes. -/
theorem testCommand_program_pass :
    ∃ run, testCommand (.ok haltPassProgram.image) = some run ∧ run.result = .ok () :=
  testCommand_program haltPassProgram (n := 1)
    (t := (haltPassInstrs.take 2).foldl Rv32i.State.execute (isaBoot haltPassProgram.image)) rfl
    (by
      intro m u hm hle hu
      obtain rfl : m = 1 := by omega
      obtain rfl := Option.some.inj hu
      decide)
    rfl (by decide)

end Perilus

import Perilus.Hardware.Dialect
import Perilus.Simulator.TestRunner
/-!
# Simulator — the test runner, without a processor

`isaTest` runs a program on the reference machine: it steps, adds up the
cycles, and looks where the pc is after each word. The `Test` command is
that function of the image, error texts included, for every image.
-/

namespace Perilus

open Clocked

/-! ## The runner over the reference -/

/-- What the `Test` command reports over its limit. -/
def testTimeout : String := "Test execution hit maximum cycle count limit"

/-- Every word takes some time. -/
theorem Dialect.cycles_pos (w : ℕ) : 0 < Dialect.cycles w := by
  unfold Dialect.cycles
  split <;> decide

/-- **The runner of the reference machine**, `cycles` into the limit. A
word without a meaning is never left. -/
def isaTest (cycles : ℕ) (t : Rv32i.State memoryBytes) : Except String Unit :=
  match Dialect.step t with
  | none => .error testTimeout
  | some t' =>
    if cycles + Dialect.cycles t.fetch > testMaxCycles then .error testTimeout
    else if t'.pc / 4 ≥ Simulator.memorySizeWords then
      .error ("Program counter diverged to an address outside memory: 0x" ++
        hex08 (BitVec.ofNat 32 t'.pc))
    else if t'.fetch = ebreakInstruction.toNat then testVerdict (BitVec.ofNat 32 (t'.x 1))
    else isaTest (cycles + Dialect.cycles t.fetch) t'
termination_by testMaxCycles - cycles
decreasing_by
  have := Dialect.cycles_pos t.fetch
  omega

/-- The reference machine with an image at address 0, the rest zero. -/
def isaBoot (image : List (BitVec 8)) : Rv32i.State memoryBytes where
  pc := 0
  x _ := 0
  mem i := image.getD i 0

/-- **The `Test` command over the reference**, given what reading the file
returned. -/
def isaTestCommand (contents : Except String (List (BitVec 8))) : Except String Unit :=
  match contents with
  | .error e => .error e
  | .ok image =>
    if image.length > Simulator.memorySizeBytes then
      .error "Provided file is too large to fit in simulated memory"
    else isaTest 0 (isaBoot image)

theorem isa_boot (image : List (BitVec 8)) : (State.boot image).arch.isa = isaBoot image := by
  refine Rv32i.State.ext rfl rfl ?_
  funext i
  have hword : (BitVec.ofNat memoryBits (i.val / 4)).toNat = i.val / 4 :=
    Nat.mod_eq_of_lt (Nat.div_lt_of_lt_mul i.isLt)
  change imageMemory image (BitVec.ofNat memoryBits (i.val / 4)) (Fin.ofNat 4 i) = _
  rw [imageMemory, hword, Fin.val_ofNat, Nat.div_add_mod]
  rfl

/-! ## From one boundary to the next -/

section Loop

variable {p : Simulator}

/-- **The loop passes over the inside of an instruction.** -/
theorem testLoop_until (hr : p.reset = false) {k : ℕ} (hk : 0 < k)
    (hno : ∀ i, 0 < i → i < k → ¬ AtFetch ((State.clock false)^[i] p.rtl)) (c : ℕ) :
    (testLoop c p).result =
      if testMaxCycles < c + k then .error testTimeout
      else (testCheck (Simulator.pulseClock^[k] p)).getD
        (testLoop (c + k) (Simulator.pulseClock^[k] p)).result := by
  induction k generalizing c p with
  | zero => exact absurd hk (Nat.lt_irrefl 0)
  | succ k ih =>
    rw [testLoop]
    rcases Nat.eq_zero_or_pos k with rfl | hpos
    · split_ifs
      · rfl
      · rw [Nat.zero_add, Function.iterate_one]
        rcases testCheck p.pulseClock with - | r <;> rfl
    · by_cases hover : c + 1 > testMaxCycles
      · rw [if_pos hover, if_pos (by omega)]
        rfl
      · -- inside the instruction the loop does not look
        have hfetch : ¬ AtFetch p.pulseClock.rtl := by
          rw [Simulator.pulseClock_rtl, hr]
          exact hno 1 Nat.one_pos (by omega)
        rw [if_neg hover, testCheck_of_not_fetch hfetch]
        have hno' : ∀ i, 0 < i → i < k →
            ¬ AtFetch ((State.clock false)^[i] p.pulseClock.rtl) := by
          intro i hi hik
          rw [Simulator.pulseClock_rtl, hr]
          exact hno (i + 1) (by omega) (by omega)
        dsimp only
        rw [ih (p := p.pulseClock) hr hpos hno' (c + 1), show c + 1 + k = c + (k + 1) by omega]
        rfl

/-- What the loop looks for, over the reference. -/
theorem testCheck_isa (hs : AtFetch p.rtl) :
    testCheck p =
      if p.rtl.arch.isa.pc / 4 ≥ Simulator.memorySizeWords then
        some (.error ("Program counter diverged to an address outside memory: 0x" ++
          hex08 (BitVec.ofNat 32 p.rtl.arch.isa.pc)))
      else if p.rtl.arch.isa.fetch = ebreakInstruction.toNat then
        some (testVerdict (BitVec.ofNat 32 (p.rtl.arch.isa.x 1)))
      else none := by
  by_cases hin : Inside p.rtl
  · have hpc : ¬ p.rtl.arch.isa.pc / 4 ≥ Simulator.memorySizeWords := Nat.not_le.2 hin
    have hword : p.rtl.arch.isa.fetch = ebreakInstruction.toNat ↔
        p.rtl.arch.word = ebreakInstruction := by
      rw [Arch.isa_fetch]
      exact BitVec.toNat_inj
    have hx1 : BitVec.ofNat 32 (p.rtl.arch.isa.x 1) = p.rtl.registerFile 1 :=
      BitVec.ofNat_toNat _ _ |>.trans (BitVec.setWidth_eq _)
    rw [testCheck_of_inside hs hin, if_neg hpc, hx1]
    exact (if_congr hword rfl rfl).symm
  · have hpc : p.rtl.arch.isa.pc / 4 ≥ Simulator.memorySizeWords := Nat.not_lt.1 hin
    rw [testCheck_of_outside hs hin, if_pos hpc, Arch.isa_pc, State.arch_pc, BitVec.ofNat_toNat,
      BitVec.setWidth_eq]

/-- **The loop is the reference's runner.** -/
theorem testLoop_isa (hs : AtFetch p.rtl) (hpc : p.rtl.pc.toNat % 2 = 0) (hr : p.reset = false)
    (c : ℕ) : (testLoop c p).result = isaTest c p.rtl.arch.isa := by
  -- every word uses up some of what is left of the limit
  induction hn : testMaxCycles - c using Nat.strong_induction_on generalizing c p with
  | _ n ih =>
    rw [isaTest]
    rcases hstep : Dialect.step p.rtl.arch.isa with - | t
    · -- the control unit is stuck, so the limit is all there is to meet
      have hstuck := Arch.isa_dialect_none hstep
      rw [testLoop_until hr (Nat.succ_pos (testMaxCycles - c))
        (fun i hi _ => not_atFetch_stuck hs hstuck hi), if_pos (by omega)]
    · obtain ⟨hnext, ⟨hfetch, heven⟩, hisa⟩ := dialect_boundary ⟨hs, hpc⟩ hstep
      obtain ⟨hrtl, hreset⟩ := p.iterate_pulseClock hr (Dialect.cycles p.rtl.arch.isa.fetch)
      rw [testLoop_until hr hnext.pos hnext.before]
      rw [← hrtl] at hfetch heven hisa
      dsimp only
      split_ifs with hover hout heb
      · rfl
      · rw [testCheck_isa hfetch, hisa, if_pos hout]
        rfl
      · rw [testCheck_isa hfetch, hisa, if_neg hout, if_pos heb]
        rfl
      · rw [testCheck_isa hfetch, hisa, if_neg hout, if_neg heb, Option.getD_none]
        have hpos := hnext.pos
        rw [ih _ (by omega) hfetch heven hreset _ rfl, hisa]

end Loop

/-- An image that fits is run. -/
theorem testCommand_of_fits {image : List (BitVec 8)}
    (hlen : image.length ≤ Simulator.memorySizeBytes) :
    ∃ run, testCommand (.ok image) = some run ∧ run.result = isaTest 0 (isaBoot image) := by
  refine ⟨_, testCommand_ok hlen, ?_⟩
  rw [← isa_boot]
  exact testLoop_isa (p := Simulator.init.withMemory (imageMemory image)) rfl rfl rfl 0

/-- **The `Test` command is the reference's.** Whatever the file holds,
the command ends, and it reports what running the image on the reference
machine reports. -/
theorem testCommand_isa (contents : Except String (List (BitVec 8))) :
    (testCommand contents).map TestRun.result = some (isaTestCommand contents) := by
  rcases contents with e | image
  · rfl
  · rw [isaTestCommand]
    by_cases hlen : image.length > Simulator.memorySizeBytes
    · rw [testCommand, Simulator.loadFile, Simulator.loadBytes, if_pos hlen]
      simp only [if_pos hlen]
      rfl
    · obtain ⟨run, hcommand, hresult⟩ := testCommand_of_fits (Nat.not_lt.1 hlen)
      simp only [if_neg hlen]
      rw [hcommand, Option.map_some, hresult]

end Perilus

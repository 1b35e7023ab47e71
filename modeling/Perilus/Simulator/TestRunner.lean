import Perilus.Hardware.Helpers.Progress
import Perilus.Simulator.Helpers.Load
import Perilus.Simulator.Model.TestRunner
/-!
# Simulator — the test runner's verdict

What the `Test` command should report is a matter of the instructions the
design executes: the first `ebreak` among them decides. The runner looks
after each pulse and so at every boundary but the first; its verdict is
the right one exactly when the image does not start with an `ebreak`.
-/

namespace Perilus

/-! ## The verdict of a run -/

/-- The pc is inside memory. -/
def Inside (s : State) : Prop := s.pc.toNat / 4 < Simulator.memorySizeWords

/-- An `ebreak` is about to be executed. -/
def AboutToEbreak (s : State) : Prop :=
  AtFetch s ∧ Inside s ∧ s.arch.word = ebreakInstruction

/-- **The program passes**: within the cycle limit an `ebreak` is reached
with the pass value in `x1`, the pc inside memory at every boundary up to
it, and it is the first. -/
def Passes (s₀ : State) : Prop :=
  ∃ t ≤ testMaxCycles, AboutToEbreak ((State.clock false)^[t] s₀) ∧
    ((State.clock false)^[t] s₀).registerFile 1 = testPassValue ∧
    ∀ t' < t, AtFetch ((State.clock false)^[t'] s₀) →
      Inside ((State.clock false)^[t'] s₀) ∧
        ((State.clock false)^[t'] s₀).arch.word ≠ ebreakInstruction

/-- **The runner is right about an image**: it reports success exactly if
the program passes, and clocks the design past no `ebreak`. -/
structure VerdictRight (image : List (BitVec 8)) : Prop where
  verdict : (∃ run, testCommand (.ok image) = some run ∧ run.result = .ok ()) ↔
    Passes (State.boot image)
  noneSkipped : ∀ run, testCommand (.ok image) = some run →
    ∀ t < run.cycles, ¬ AboutToEbreak ((State.clock false)^[t] (State.boot image))

/-- The first word of an image, over zeroed memory. -/
def firstWord (image : List (BitVec 8)) : BitVec 32 :=
  image.getD 3 0 ++ image.getD 2 0 ++ image.getD 1 0 ++ image.getD 0 0

/-! ## What the runner looks at -/

section Check

variable {p : Simulator}

/-- The word the runner reads is the word the processor will fetch. -/
theorem getMemory_pc (h : Inside p.rtl) :
    p.getMemory (p.getPc / 4).toNat = some p.rtl.arch.word := by
  have hpc : p.rtl.pc.toNat < Simulator.memorySizeBytes := by
    rw [Inside] at h
    rw [Simulator.memorySizeBytes]
    omega
  obtain ⟨hlt, hidx, -⟩ := Simulator.word_of_byte hpc
  rw [Simulator.getPc, Simulator.getMemory_of_lt p hlt, hidx]
  rfl

theorem getMemory_pc_eq_none (h : ¬ Inside p.rtl) : p.getMemory (p.getPc / 4).toNat = none := by
  rw [Simulator.getMemory, Simulator.getPc, BitVec.toNat_udiv]
  exact if_neg h

theorem testCheck_of_not_fetch (hs : ¬ AtFetch p.rtl) : testCheck p = none := by
  rw [testCheck, if_neg (mt p.getControlUnitState_eq_zero.1 hs)]

theorem testCheck_of_outside (hs : AtFetch p.rtl) (hin : ¬ Inside p.rtl) :
    testCheck p = some (.error
      ("Program counter diverged to an address outside memory: 0x" ++ hex08 p.rtl.pc)) := by
  rw [testCheck, if_pos (p.getControlUnitState_eq_zero.2 hs)]
  simp only [getMemory_pc_eq_none hin]
  rfl

theorem testCheck_of_inside (hs : AtFetch p.rtl) (hin : Inside p.rtl) :
    testCheck p =
      if p.rtl.arch.word = ebreakInstruction then some (testVerdict (p.rtl.registerFile 1))
      else none := by
  rw [testCheck, if_pos (p.getControlUnitState_eq_zero.2 hs)]
  simp only [getMemory_pc hin]
  rfl

theorem testVerdict_eq_ok {x : BitVec 32} : testVerdict x = .ok () ↔ x = testPassValue := by
  rw [testVerdict]
  split
  · next h => exact ⟨fun _ => h, fun _ => rfl⟩
  · next h => exact ⟨fun h' => (by split at h' <;> cases h'), fun h' => absurd h' h⟩

/-- The runner goes on at a boundary inside memory that is no `ebreak`. -/
theorem testCheck_eq_none :
    testCheck p = none ↔
      (AtFetch p.rtl → Inside p.rtl ∧ p.rtl.arch.word ≠ ebreakInstruction) := by
  by_cases hs : AtFetch p.rtl
  · by_cases hin : Inside p.rtl
    · rw [testCheck_of_inside hs hin]
      by_cases hw : p.rtl.arch.word = ebreakInstruction <;> simp [hw, hs, hin]
    · simp [testCheck_of_outside hs hin, hin, hs]
  · simp [testCheck_of_not_fetch hs, hs]

/-- It reports success at an `ebreak` with the pass value in `x1`. -/
theorem testCheck_eq_ok :
    testCheck p = some (.ok ()) ↔
      AboutToEbreak p.rtl ∧ p.rtl.registerFile 1 = testPassValue := by
  rw [AboutToEbreak]
  by_cases hs : AtFetch p.rtl
  · by_cases hin : Inside p.rtl
    · rw [testCheck_of_inside hs hin]
      by_cases hw : p.rtl.arch.word = ebreakInstruction <;>
        simp [hw, hs, hin, testVerdict_eq_ok]
    · simp [testCheck_of_outside hs hin, hin]
  · simp [testCheck_of_not_fetch hs, hs]

end Check

/-! ## The loop -/

/-- Cycle `t` ends no run: a fetch there is inside memory, of no
`ebreak`. -/
def PassedOver (s₀ : State) (t : ℕ) : Prop :=
  AtFetch ((State.clock false)^[t] s₀) →
    Inside ((State.clock false)^[t] s₀) ∧
      ((State.clock false)^[t] s₀).arch.word ≠ ebreakInstruction

/-- **The program passes after cycle `c`**: the next boundary that is not
passed over is an `ebreak` with the pass value. -/
def PassesAfter (s₀ : State) (c : ℕ) : Prop :=
  ∃ t ≤ testMaxCycles, c < t ∧ AboutToEbreak ((State.clock false)^[t] s₀) ∧
    ((State.clock false)^[t] s₀).registerFile 1 = testPassValue ∧
    ∀ t' < t, c < t' → PassedOver s₀ t'

section Loop

variable {s₀ : State} {c t : ℕ} {p : Simulator}

theorem PassedOver.not_aboutToEbreak (h : PassedOver s₀ t) :
    ¬ AboutToEbreak ((State.clock false)^[t] s₀) := fun hat => (h hat.1).2 hat.2.2

theorem testCheck_eq_none_iff (hp : p.rtl = (State.clock false)^[t] s₀) :
    testCheck p = none ↔ PassedOver s₀ t := by
  rw [testCheck_eq_none, hp]
  rfl

theorem not_passesAfter (hc : testMaxCycles ≤ c) : ¬ PassesAfter s₀ c := by
  rintro ⟨t, ht, hct, -⟩
  omega

/-- A cycle passed over decides nothing. -/
theorem passesAfter_succ (hgo : PassedOver s₀ (c + 1)) :
    PassesAfter s₀ (c + 1) ↔ PassesAfter s₀ c := by
  constructor
  · rintro ⟨t, ht, hct, hat, hx, hbefore⟩
    refine ⟨t, ht, by omega, hat, hx, ?_⟩
    intro t' ht' hct'
    rcases Nat.eq_or_lt_of_le hct' with rfl | hlt'
    · exact hgo
    · exact hbefore t' ht' hlt'
  · rintro ⟨t, ht, hct, hat, hx, hbefore⟩
    rcases Nat.eq_or_lt_of_le hct with rfl | hlt'
    · exact absurd hat hgo.not_aboutToEbreak
    · exact ⟨t, ht, hlt', hat, hx, fun t' ht' hct' => hbefore t' ht' (by omega)⟩

/-- **The cycle at which the runner stops** decides. -/
theorem passesAfter_of_stop (hp : p.rtl = (State.clock false)^[c + 1] s₀)
    (hc : c + 1 ≤ testMaxCycles) {r : Except String Unit} (hcheck : testCheck p = some r) :
    r = .ok () ↔ PassesAfter s₀ c := by
  constructor
  · rintro rfl
    obtain ⟨hat, hx⟩ := testCheck_eq_ok.1 hcheck
    rw [hp] at hat hx
    exact ⟨c + 1, hc, Nat.lt_succ_self c, hat, hx, fun t' ht' hct' => by omega⟩
  · rintro ⟨t, ht, hct, hat, hx, hbefore⟩
    rcases Nat.eq_or_lt_of_le hct with rfl | hlt'
    · rw [← hp] at hat hx
      exact Option.some.inj (hcheck.symm.trans (testCheck_eq_ok.2 ⟨hat, hx⟩))
    · -- an earlier boundary would have let the runner go on
      have hnone := (testCheck_eq_none_iff hp).2 (hbefore (c + 1) hlt' (Nat.lt_succ_self c))
      rw [hnone] at hcheck
      cases hcheck

variable (s₀) in
/-- **What the loop reports.** From cycle `c` on it succeeds exactly if
the program passes after it, and it passes over no `ebreak`. -/
theorem testLoop_spec (hp : p.rtl = (State.clock false)^[c] s₀) (hr : p.reset = false)
    (hc : c ≤ testMaxCycles) :
    ((testLoop c p).result = .ok () ↔ PassesAfter s₀ c) ∧ c < (testLoop c p).cycles ∧
      ∀ t < (testLoop c p).cycles, c < t → ¬ AboutToEbreak ((State.clock false)^[t] s₀) := by
  induction hn : testMaxCycles - c generalizing c p with
  | zero =>
    -- one pulse more is over the limit
    rw [testLoop, if_pos (by omega)]
    refine ⟨⟨fun h => (nomatch h), fun h => absurd h (not_passesAfter (by omega))⟩,
      Nat.lt_succ_self c, ?_⟩
    intro t ht hlt
    change t < c + 1 at ht
    omega
  | succ n ih =>
    have hq : p.pulseClock.rtl = (State.clock false)^[c + 1] s₀ := by
      rw [Simulator.pulseClock_rtl, hp, hr, Function.iterate_succ_apply']
    have hr' : p.pulseClock.reset = false := hr
    rw [testLoop, if_neg (by omega)]
    rcases hcheck : testCheck p.pulseClock with - | r <;> dsimp only
    · -- the runner goes on, so this cycle ends no run
      obtain ⟨hresult, hlt, hskip⟩ := ih hq hr' (by omega) (by omega)
      have hgo := (testCheck_eq_none_iff hq).1 hcheck
      refine ⟨hresult.trans (passesAfter_succ hgo), by omega, ?_⟩
      intro t ht hct
      rcases Nat.eq_or_lt_of_le hct with rfl | hlt'
      · exact hgo.not_aboutToEbreak
      · exact hskip t ht hlt'
    · refine ⟨passesAfter_of_stop hq (by omega) hcheck, Nat.lt_succ_self c, ?_⟩
      intro t ht hct
      change t < c + 1 at ht
      omega

end Loop

/-! ## The verdict -/

/-- The command loads an image that fits and runs the loop on it. -/
theorem testCommand_ok {image : List (BitVec 8)}
    (h : image.length ≤ Simulator.memorySizeBytes) :
    testCommand (.ok image) =
      some (testLoop 0 (Simulator.init.withMemory (imageMemory image))) := by
  rw [testCommand, Simulator.loadFile, Simulator.init_loadBytes h]
  rfl

theorem word_boot (image : List (BitVec 8)) :
    (State.boot image).arch.word = firstWord image := by
  have hidx : Memory.index memoryBits (0 : BitVec 32) = 0 := by decide
  change imageMemory image (Memory.index memoryBits 0) 3 ++
    imageMemory image (Memory.index memoryBits 0) 2 ++
    imageMemory image (Memory.index memoryBits 0) 1 ++
    imageMemory image (Memory.index memoryBits 0) 0 = firstWord image
  rw [hidx]
  rfl

/-- **The test runner's verdict is the ISA-level verdict on every image
that does not start with an `ebreak`, and on no other.** The runner
pulses the clock before it looks, so that one is passed over. -/
theorem verdictRight_iff {image : List (BitVec 8)}
    (h : image.length ≤ Simulator.memorySizeBytes) :
    VerdictRight image ↔ firstWord image ≠ ebreakInstruction := by
  obtain ⟨hresult, hpos, hskip⟩ := testLoop_spec (State.boot image) (c := 0)
    (p := Simulator.init.withMemory (imageMemory image)) rfl rfl (Nat.zero_le _)
  rw [← word_boot]
  have hinside : Inside (State.boot image) := by
    change BitVec.toNat (0 : BitVec 32) / 4 < Simulator.memorySizeWords
    decide
  constructor
  · intro hright hfirst
    exact hright.noneSkipped _ (testCommand_ok h) 0 hpos ⟨rfl, hinside, hfirst⟩
  · intro hfirst
    refine ⟨?_, ?_⟩
    · rw [testCommand_ok h]
      constructor
      · rintro ⟨run, hrun, hok⟩
        obtain rfl := Option.some.inj hrun
        obtain ⟨t, ht, hct, hat, hx, hbefore⟩ := hresult.1 hok
        refine ⟨t, ht, hat, hx, ?_⟩
        intro t' ht' hs
        rcases Nat.eq_zero_or_pos t' with rfl | hpos'
        · exact ⟨hinside, hfirst⟩
        · exact hbefore t' ht' hpos' hs
      · rintro ⟨t, ht, hat, hx, hbefore⟩
        refine ⟨_, rfl, hresult.2 ⟨t, ht, ?_, hat, hx, fun t' ht' _ => hbefore t' ht'⟩⟩
        rcases Nat.eq_zero_or_pos t with rfl | hpos'
        · exact absurd hat.2.2 hfirst
        · exact hpos'
    · intro run hrun t ht
      obtain rfl := Option.some.inj ((testCommand_ok h).symm.trans hrun)
      rcases Nat.eq_zero_or_pos t with rfl | hpos'
      · exact fun hat => hfirst hat.2.2
      · exact hskip t ht hpos'

/-- An image of one `addi x0, x0, 0`. -/
theorem verdictRight_nop : VerdictRight [0x13, 0x00, 0x00, 0x00] :=
  (@verdictRight_iff [0x13, 0x00, 0x00, 0x00] (by decide)).2 (by decide)

/-- **An `ebreak` the runner passes over.** The image is `ebreak`, then
`lui x1, 0xebbb3`, `addi x1, x1, 0x689` and `ebreak` again: its first
`ebreak` finds zero in `x1`, and the runner reports success at the
second. -/
theorem ebreak_passed_over :
    let image := [0x73, 0x00, 0x10, 0x00, 0xb7, 0x30, 0xbb, 0xeb,
      0x93, 0x80, 0x90, 0x68, 0x73, 0x00, 0x10, 0x00]
    (∃ run, testCommand (.ok image) = some run ∧ run.result = .ok ()) ∧
      ¬ Passes (State.boot image) ∧ ¬ VerdictRight image := by
  intro image
  have hload := @testCommand_ok image (by decide)
  obtain ⟨hresult, hpos, -⟩ := testLoop_spec (State.boot image) (c := 0)
    (p := Simulator.init.withMemory (imageMemory image)) rfl rfl (Nat.zero_le _)
  have hfirst : AboutToEbreak (State.boot image) := by
    unfold AboutToEbreak Inside
    decide
  have hok : (testLoop 0 (Simulator.init.withMemory (imageMemory image))).result = .ok () := by
    refine hresult.2 ⟨9, by decide, by decide, ?_, by decide, ?_⟩
    · unfold AboutToEbreak Inside
      decide
    · unfold PassedOver Inside
      decide
  refine ⟨⟨_, hload, hok⟩, ?_, fun hright => hright.noneSkipped _ hload 0 hpos hfirst⟩
  rintro ⟨t, -, -, hx, hbefore⟩
  rcases Nat.eq_zero_or_pos t with rfl | hpos'
  · exact absurd hx (by decide)
  · exact (hbefore 0 hpos' hfirst.1).2 hfirst.2.2

end Perilus

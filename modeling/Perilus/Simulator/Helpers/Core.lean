import Mathlib.Tactic.FinCases
import Perilus.Hardware.Helpers.Flat
import Perilus.Simulator.Model.Core
/-!
# Simulator — what each operation does to the design

A pulse is one clock cycle, a debugger write is a write of one register
or one word, and the two byte accessors are a load and a store of the
array the memory lays out.
-/

namespace Perilus

/-! ## Lanes and words -/

section Lanes

variable (v : Vec (BitVec 8)) (w : BitVec 32) (i : Fin 4) {j : ℕ}

theorem getLsbD_vecOfWord (hj : j < 8) : (vecOfWord w i).getLsbD j = w.getLsbD (8 * i + j) := by
  fin_cases i <;> simp [vecOfWord, VecInit] <;> omega

theorem getLsbD_wordOfVec (hj : j < 8) : (wordOfVec v).getLsbD (8 * i + j) = (v i).getLsbD j := by
  fin_cases i <;> simp only [wordOfVec] <;> grind

/-- Shifting a lane down and truncating reads it. -/
theorem byte_wordOfVec : (wordOfVec v >>> (8 * i.val)).setWidth 8 = v i := by
  refine BitVec.eq_of_getLsbD_eq fun j hj => ?_
  rw [BitVec.getLsbD_setWidth, BitVec.getLsbD_ushiftRight, getLsbD_wordOfVec _ _ hj,
    decide_eq_true hj, Bool.true_and]

/-- Masking eight bits out and another byte in. -/
theorem getLsbD_setByte (b : BitVec 8) {s n : ℕ} (hn : n < 32) :
    (w &&& ~~~(0xff#32 <<< s) ||| b.setWidth 32 <<< s).getLsbD n =
      if s ≤ n ∧ n < s + 8 then b.getLsbD (n - s) else w.getLsbD n := by
  have hff : ∀ n, (0xff#32).getLsbD n = decide (n < 8) := by
    intro n
    rw [BitVec.getLsbD_ofNat, show 0xff = 2 ^ 8 - 1 from rfl, Nat.testBit_two_pow_sub_one]
    grind
  simp only [BitVec.getLsbD_or, BitVec.getLsbD_and, BitVec.getLsbD_not, BitVec.getLsbD_shiftLeft,
    BitVec.getLsbD_setWidth, hff, hn]
  grind

/-- The same at a lane writes that lane. -/
theorem vecOfWord_setByte (b : BitVec 8) :
    vecOfWord (wordOfVec v &&& ~~~(0xff#32 <<< (8 * i.val)) ||| b.setWidth 32 <<< (8 * i.val)) =
      Function.update v i b := by
  funext k
  refine BitVec.eq_of_getLsbD_eq fun j hj => ?_
  rw [getLsbD_vecOfWord _ _ hj, getLsbD_setByte _ _ (by omega), getLsbD_wordOfVec _ _ hj]
  by_cases hk : k = i
  · rw [hk, Function.update_self, if_pos (by omega), Nat.add_sub_cancel_left]
  · have hne : k.val ≠ i.val := fun h => hk (Fin.ext h)
    rw [Function.update_of_ne hk, if_neg (by omega)]

end Lanes

namespace Simulator

variable (p : Simulator)

/-! ## The clock -/

/-- The control unit is at a fetch when its number is zero. -/
theorem getControlUnitState_eq_zero : p.getControlUnitState = 0 ↔ p.rtl.state = .fetch := by
  rw [getControlUnitState]
  cases p.rtl.state <;> decide

/-- **A pulse is one cycle**, whatever the clock was left at. -/
@[simp] theorem pulseClock_rtl : p.pulseClock.rtl = p.rtl.clock p.reset := by
  simp [pulseClock, eval, incrementTime, setClock]

@[simp] theorem pulseClock_reset : p.pulseClock.reset = p.reset := rfl

theorem resetTime_rtl : p.resetTime.rtl = p.rtl := by
  rw [resetTime]
  split <;> rfl

/-- A reset is one cycle with reset asserted. -/
@[simp] theorem resetPulse_rtl : p.resetPulse.rtl = p.rtl.clock true := by
  rw [resetPulse, setReset, pulseClock_rtl]
  simp only [setReset, resetTime_rtl]

@[simp] theorem resetPulse_reset : p.resetPulse.reset = false := rfl

/-- Any number of pulses, reset low. -/
theorem iterate_pulseClock (h : p.reset = false) (n : ℕ) :
    (pulseClock^[n] p).rtl = (State.clock false)^[n] p.rtl ∧ (pulseClock^[n] p).reset = false := by
  induction n with
  | zero => exact ⟨rfl, h⟩
  | succ n ih =>
    rw [Function.iterate_succ_apply', Function.iterate_succ_apply']
    exact ⟨by rw [pulseClock_rtl, ih.1, ih.2], by rw [pulseClock_reset, ih.2]⟩

/-! ## The memory -/

/-- The simulator with another memory. -/
def withMemory (memory : Words memoryBits) : Simulator :=
  { p with rtl := { p.rtl with memory := memory } }

@[simp] theorem withMemory_memory (memory : Words memoryBits) :
    (p.withMemory memory).rtl.memory = memory := rfl

theorem getMemory_of_lt {i : ℕ} (hi : i < memorySizeWords) :
    p.getMemory i = some (wordOfVec (p.rtl.memory (BitVec.ofNat memoryBits i))) := if_pos hi

/-- A byte address inside the memory: its word and its lane. -/
theorem word_of_byte {a : BitVec 32} (ha : a.toNat < memorySizeBytes) :
    (a / 4).toNat < memorySizeWords ∧
      BitVec.ofNat memoryBits (a / 4).toNat = Memory.index memoryBits a ∧
      (a % 4 * 8).toNat = 8 * (Memory.byteOffset a).toNat := by
  have hdiv : (a / 4).toNat = a.toNat / 4 := BitVec.toNat_udiv
  have hmod : (a % 4 * 8).toNat = 8 * (a.toNat % 4) := by
    rw [BitVec.toNat_mul, BitVec.toNat_umod, show BitVec.toNat (4 : BitVec 32) = 4 from rfl,
      show BitVec.toNat (8 : BitVec 32) = 8 from rfl]
    omega
  have hlt : a.toNat / 4 < memorySizeWords := Nat.div_lt_of_lt_mul (by rwa [Nat.mul_comm])
  refine ⟨by rwa [hdiv], ?_, by rw [hmod, Memory.toNat_byteOffset]⟩
  rw [hdiv, Memory.index_eq, Nat.mod_eq_of_lt (show a.toNat / 4 < 2 ^ memoryBits from hlt)]

/-- **Reading a byte** is reading the lane its address names. -/
theorem getMemoryByte_of_lt {a : BitVec 32} (ha : a.toNat < memorySizeBytes) :
    p.getMemoryByte a =
      some (p.rtl.memory (Memory.index memoryBits a) (Memory.byteOffset a).toFin) := by
  obtain ⟨hlt, hidx, hshift⟩ := word_of_byte ha
  rw [getMemoryByte, getMemory_of_lt p hlt, hidx]
  change some (BitVec.setWidth 8 (_ >>> (a % 4 * 8))) = _
  rw [BitVec.ushiftRight_eq', hshift]
  exact congrArg some (byte_wordOfVec _ (Memory.byteOffset a).toFin)

/-- **Writing a byte** is a byte write of the hardware. -/
theorem setMemoryByte_of_lt {a : BitVec 32} (ha : a.toNat < memorySizeBytes) (value : BitVec 8) :
    p.setMemoryByte a value =
      some (p.withMemory (Memory.stored p.rtl.memory a .byte (value.setWidth 32))) := by
  obtain ⟨hlt, hidx, hshift⟩ := word_of_byte ha
  rw [setMemoryByte, getMemory_of_lt p hlt, hidx]
  change p.setMemory (a / 4) (_ &&& ~~~(0xff#32 <<< (a % 4 * 8)) ||| _ <<< (a % 4 * 8)) = _
  rw [setMemory, if_pos hlt, hidx, Memory.stored_byte, BitVec.shiftLeft_eq', BitVec.shiftLeft_eq',
    hshift, BitVec.setWidth_setWidth_of_le _ (by decide), BitVec.setWidth_eq]
  exact congrArg (fun v => some (p.withMemory (Function.update p.rtl.memory _ v)))
    (vecOfWord_setByte _ (Memory.byteOffset a).toFin value)

theorem lt_of_setMemoryByte {p p' : Simulator} {a : BitVec 32} {value : BitVec 8}
    (h : p.setMemoryByte a value = some p') : a.toNat < memorySizeBytes := by
  obtain ⟨w, hw, -⟩ := Option.bind_eq_some_iff.1 h
  rw [getMemory, BitVec.toNat_udiv, show BitVec.toNat (4 : BitVec 32) = 4 from rfl] at hw
  by_contra hge
  rw [memorySizeBytes] at hge
  rw [if_neg (by omega)] at hw
  cases hw

theorem lt_of_setMemory {p p' : Simulator} {i value : BitVec 32}
    (h : p.setMemory i value = some p') : i.toNat < memorySizeWords := by
  by_contra hge
  rw [setMemory, if_neg hge] at h
  cases h

/-- **Writing a word** is a word write of the hardware. -/
theorem setMemory_of_lt {i : BitVec 32} (hi : i.toNat < memorySizeWords) (value : BitVec 32) :
    p.setMemory i value =
      some (p.withMemory (Memory.stored p.rtl.memory (i * 4) .word value)) := by
  have hidx : Memory.index memoryBits (i * 4) = BitVec.ofNat memoryBits i.toNat := by
    have hdiv : i.toNat * 4 % 2 ^ 32 / 4 = i.toNat := by
      rw [memorySizeWords] at hi
      omega
    rw [Memory.index_eq, BitVec.toNat_mul, show BitVec.toNat (4 : BitVec 32) = 4 from rfl, hdiv,
      Nat.mod_eq_of_lt (show i.toNat < 2 ^ memoryBits from hi)]
  rw [setMemory, if_pos hi, Memory.stored_word, hidx]
  rfl

end Simulator

end Perilus

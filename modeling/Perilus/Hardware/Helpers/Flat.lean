import Mathlib.Tactic.FinCases
import Perilus.Common.Bits
import Perilus.Hardware.Model.Arch
import Perilus.Hardware.Model.Flat
/-!
# Perilus — the memory as an array of bytes

The write port stores into the array `Memory.flat` and the read port loads
from it, whatever the width and the address: the write mask and the lane
data, and the lanes picked and extended, are those of an access at its
place.
-/

namespace Perilus

open ByteMemory

namespace Memory

variable {k : ℕ}

/-- The word of a byte, and its lane. -/
theorem byteAt_flat (memory : Words k) {q r : ℕ} (hq : q < 2 ^ k) (hr : r < 4) :
    byteAt (flat memory) (4 * q + r) = memory (BitVec.ofNat k q) ⟨r, hr⟩ := by
  rw [byteAt_of_lt _ (by omega), flat]
  dsimp only
  rw [show (4 * q + r) / 4 = q by omega]
  congr 1
  exact Fin.ext (show (4 * q + r) % 4 = r by omega)

/-- The index is the address shifted down and taken modulo the size. -/
theorem toNat_index (address : BitVec 32) :
    (index k address).toNat = address.toNat / 4 % 2 ^ k := by
  rw [index, BitVec.toNat_setWidth, BitVec.toNat_ushiftRight, Nat.shiftRight_eq_div_pow]

theorem index_eq (address : BitVec 32) :
    index k address = BitVec.ofNat k (address.toNat / 4 % 2 ^ k) :=
  BitVec.eq_of_toNat_eq (by rw [toNat_index, BitVec.toNat_ofNat, Nat.mod_mod])

/-- The offset of an address in its word. -/
theorem toNat_byteOffset (address : BitVec 32) :
    (byteOffset address).toNat = address.toNat % 4 := by
  rw [byteOffset, BitVec.toNat_setWidth, BitVec.toNat_and,
    show BitVec.toNat (3 : BitVec 32) = 2 ^ 2 - 1 from rfl, Nat.and_two_pow_sub_one_eq_mod]
  omega

/-- **Where an access goes**: its word, and in it its offset rounded down
to the width. -/
theorem place_eq (dataMask : DataMask) (address : BitVec 32) :
    place (4 * 2 ^ k) dataMask.width address.toNat =
      4 * (address.toNat / 4 % 2 ^ k) +
        (byteOffset address).toNat / dataMask.width * dataMask.width := by
  -- the width divides a word, so rounding down stays inside it
  rw [place, Nat.mod_mul, toNat_byteOffset]
  cases dataMask <;> simp only [DataMask.width] <;> omega

/-- The write mask: the lanes with the access's own quotient by the width. -/
theorem maskValue_eq : ∀ (dataMask : DataMask) (off : BitVec 2) (i : Fin 4),
    maskValue dataMask off i =
      decide (i.val / dataMask.width = off.toNat / dataMask.width) := by
  intro dataMask
  cases dataMask <;> decide

/-- Byte `j` of a word, as the write side slices it. -/
theorem extractLsb_byte (v : BitVec 32) :
    v.extractLsb 7 0 = BitVec.ofNat 8 (v.toNat / 256 ^ 0) ∧
      v.extractLsb 15 8 = BitVec.ofNat 8 (v.toNat / 256 ^ 1) ∧
      v.extractLsb 23 16 = BitVec.ofNat 8 (v.toNat / 256 ^ 2) ∧
      v.extractLsb 31 24 = BitVec.ofNat 8 (v.toNat / 256 ^ 3) := by
  refine ⟨?_, ?_, ?_, ?_⟩ <;>
    exact BitVec.eq_of_toNat_eq (by rw [Bits.toNat_extractLsb, BitVec.toNat_ofNat]; norm_num)

/-- The lane data: under the mask, the bytes of the written word in order. -/
theorem writeLanes_eq (dataMask : DataMask) (off : BitVec 2) (v : BitVec 32) (i : Fin 4)
    (h : i.val / dataMask.width = off.toNat / dataMask.width) :
    writeLanes dataMask off v i =
      BitVec.ofNat 8 (v.toNat / 256 ^ (i.val - off.toNat / dataMask.width * dataMask.width)) := by
  obtain ⟨h0, h1, h2, h3⟩ := extractLsb_byte v
  have hoff : off = 0 ∨ off = 1 ∨ off = 2 ∨ off = 3 := by clear h; revert off; decide
  cases dataMask <;> rcases hoff with rfl | rfl | rfl | rfl <;> fin_cases i <;>
    simp [DataMask.width] at h <;>
    simp [writeLanes, VecInit, DataMask.width, h0, h1, h2, h3]

/-- What a lane of a word holds after a write. -/
theorem stored_apply (memory : Words k) (address : BitVec 32) (dataMask : DataMask)
    (v : BitVec 32) (idx : BitVec k) (i : Fin 4) :
    stored memory address dataMask v idx i =
      if idx = index k address ∧
          i.val / dataMask.width = (byteOffset address).toNat / dataMask.width then
        BitVec.ofNat 8 (v.toNat /
          256 ^ (i.val - (byteOffset address).toNat / dataMask.width * dataMask.width))
      else memory idx i := by
  by_cases hidx : idx = index k address
  · subst hidx
    simp only [stored, write, Function.update_self, maskValue_eq, decide_eq_true_eq, true_and]
    split
    · next h => exact writeLanes_eq _ _ _ _ h
    · rfl
  · rw [if_neg fun h => hidx h.1, stored, write, Function.update_of_ne hidx]

/-- A byte write changes the lane its address names. -/
theorem stored_byte (memory : Words k) (address v : BitVec 32) :
    stored memory address .byte v =
      Function.update memory (index k address)
        (Function.update (memory (index k address)) (byteOffset address).toFin
          (v.setWidth 8)) := by
  refine congrArg (Function.update memory (index k address)) (funext fun i => ?_)
  rw [maskValue_eq, DataMask.width, Nat.div_one, Nat.div_one]
  by_cases hi : i = (byteOffset address).toFin
  · have hval : i.val = (byteOffset address).toNat := by rw [hi]; rfl
    rw [if_pos (decide_eq_true hval), writeLanes_eq _ _ _ _ (by rw [hval]), hval, ← hi,
      Function.update_self, DataMask.width, Nat.div_one, Nat.mul_one, Nat.sub_self, Nat.pow_zero,
      Nat.div_one, BitVec.ofNat_toNat]
  · have hval : i.val ≠ (byteOffset address).toNat := fun h => hi (Fin.ext h)
    rw [if_neg (by rw [decide_eq_false hval]; decide), Function.update_of_ne hi]

/-- A word write changes them all. -/
theorem stored_word (memory : Words k) (address v : BitVec 32) :
    stored memory address .word v =
      Function.update memory (index k address)
        (VecInit (v.extractLsb 7 0) (v.extractLsb 15 8) (v.extractLsb 23 16)
          (v.extractLsb 31 24)) := by
  refine congrArg (Function.update memory (index k address)) (funext fun i => ?_)
  rw [maskValue_eq, if_pos]
  · rfl
  · have hoff := (byteOffset address).isLt
    rw [DataMask.width]
    exact decide_eq_true (by omega)

/-- The bytes of an access, as words and lanes. -/
theorem mem_place_iff (dataMask : DataMask) (address : BitVec 32) {i : ℕ} (hi : i < 4 * 2 ^ k) :
    (place (4 * 2 ^ k) dataMask.width address.toNat ≤ i ∧
        i < place (4 * 2 ^ k) dataMask.width address.toNat + dataMask.width) ↔
      BitVec.ofNat k (i / 4) = index k address ∧
        i % 4 / dataMask.width = (byteOffset address).toNat / dataMask.width := by
  have hidx : BitVec.ofNat k (i / 4) = index k address ↔ i / 4 = address.toNat / 4 % 2 ^ k := by
    rw [index_eq, ← BitVec.toNat_inj, BitVec.toNat_ofNat, BitVec.toNat_ofNat,
      Nat.mod_eq_of_lt (by omega), Nat.mod_mod]
  have hoff := (byteOffset address).isLt
  rw [hidx, place_eq]
  cases dataMask <;> simp only [DataMask.width] <;> omega

/-- **A write is a store** of its low bytes at its place. -/
theorem flat_stored (memory : Words k) (address : BitVec 32) (dataMask : DataMask)
    (v : BitVec 32) :
    flat (stored memory address dataMask v) =
      store (flat memory) (place (4 * 2 ^ k) dataMask.width address.toNat) dataMask.width
        v.toNat := by
  funext i
  rw [flat, stored_apply, store]
  simp only [mem_place_iff dataMask address i.isLt, Fin.val_ofNat]
  split
  · next h =>
    -- in the word written, the offsets from the place are the lanes'
    have hidx := congrArg BitVec.toNat h.1
    rw [index_eq, BitVec.toNat_ofNat, BitVec.toNat_ofNat, Nat.mod_mod,
      Nat.mod_eq_of_lt (by omega)] at hidx
    rw [place_eq]
    congr 3
    omega
  · rfl

/-! ## The read port -/

/-- Bit 1 of an address picks the pair its offset lies in. -/
theorem halfOffset_eq (address : BitVec 32) :
    address.getLsbD 1 = decide ((byteOffset address).toNat / 2 = 1) := by
  rw [toNat_byteOffset, BitVec.getLsbD, Nat.testBit_eq_decide_div_mod_eq]
  refine decide_eq_decide.2 ?_
  omega

/-- A byte of an access, as a lane of its word. -/
theorem byteAt_place (memory : Words k) (address : BitVec 32) (dataMask : DataMask) {j : ℕ}
    (hj : j < dataMask.width) :
    byteAt (flat memory) (place (4 * 2 ^ k) dataMask.width address.toNat + j) =
      memory (index k address)
        (Fin.ofNat 4 ((byteOffset address).toNat / dataMask.width * dataMask.width + j)) := by
  have hoff := (byteOffset address).isLt
  have h : (byteOffset address).toNat / dataMask.width * dataMask.width + j < 4 := by
    revert hj
    cases dataMask <;> simp only [DataMask.width] <;> omega
  rw [place_eq, Nat.add_assoc, byteAt_flat _ (Nat.mod_lt _ (by positivity)) h, ← index_eq]
  congr 1
  exact Fin.ext (Nat.mod_eq_of_lt h).symm

/-- The number an access holds, lane by lane. -/
theorem load_place (memory : Words k) (address : BitVec 32) (dataMask : DataMask) :
    load (flat memory) (place (4 * 2 ^ k) dataMask.width address.toNat) dataMask.width =
      Nat.ofDigits 256 ((List.range dataMask.width).map fun j =>
        (memory (index k address)
          (Fin.ofNat 4
            ((byteOffset address).toNat / dataMask.width * dataMask.width + j))).toNat) := by
  rw [load]
  congr 1
  exact List.map_congr_left fun j hj => by
    rw [byteAt_place _ _ _ (List.mem_range.1 hj)]

theorem returnByte_eq (memory : Words k) (address : BitVec 32) :
    returnByte (memory (index k address)) (byteOffset address) =
      BitVec.ofNat 8 (load (flat memory) (place (4 * 2 ^ k) 1 address.toNat) 1) := by
  have hload := load_place memory address .byte
  rw [DataMask.width] at hload
  rw [hload]
  have hoff : byteOffset address = 0 ∨ byteOffset address = 1 ∨ byteOffset address = 2 ∨
      byteOffset address = 3 := by
    generalize byteOffset address = off
    revert off
    decide
  rcases hoff with h | h | h | h
  all_goals
    rw [h]
    exact BitVec.eq_of_toNat_eq (Nat.mod_eq_of_lt (BitVec.isLt _)).symm

theorem returnHalf_eq (memory : Words k) (address : BitVec 32) :
    returnHalf (memory (index k address)) (address.getLsbD 1) =
      BitVec.ofNat 16 (load (flat memory) (place (4 * 2 ^ k) 2 address.toNat) 2) := by
  have hload := load_place memory address .half
  rw [DataMask.width] at hload
  rw [hload, halfOffset_eq]
  generalize memory (index k address) = w
  have hoff := (byteOffset address).isLt
  refine BitVec.eq_of_toNat_eq ?_
  rcases (by omega : (byteOffset address).toNat / 2 = 0 ∨ (byteOffset address).toNat / 2 = 1)
    with h | h
  · -- the low pair
    rw [h, returnHalf, if_neg (by decide), Bits.toNat_append]
    change _ = Nat.ofDigits 256 [(w 0).toNat, (w 1).toNat] % _
    simp only [Nat.ofDigits_cons, Nat.ofDigits_nil]
    omega
  · -- the high pair
    rw [h, returnHalf, if_pos (by decide), Bits.toNat_append]
    change _ = Nat.ofDigits 256 [(w 2).toNat, (w 3).toNat] % _
    simp only [Nat.ofDigits_cons, Nat.ofDigits_nil]
    omega

theorem readWord_eq (memory : Words k) (address : BitVec 32) :
    memory (index k address) 3 ++ memory (index k address) 2 ++ memory (index k address) 1 ++
        memory (index k address) 0 =
      BitVec.ofNat 32 (load (flat memory) (place (4 * 2 ^ k) 4 address.toNat) 4) := by
  have hload := load_place memory address .word
  rw [DataMask.width] at hload
  have hoff := (byteOffset address).isLt
  rw [hload, show (byteOffset address).toNat / 4 = 0 by omega]
  generalize memory (index k address) = w
  refine BitVec.eq_of_toNat_eq ?_
  rw [Bits.toNat_append, Bits.toNat_append, Bits.toNat_append]
  change _ = Nat.ofDigits 256 [(w 0).toNat, (w 1).toNat, (w 2).toNat, (w 3).toNat] % _
  simp only [Nat.ofDigits_cons, Nat.ofDigits_nil]
  omega

/-- Sign extension, as the read side concatenates it. -/
theorem fill_append_byte (b : BitVec 8) :
    BitVec.fill 24 (b.getLsbD 7) ++ b = b.signExtend 32 := by
  ext i hi
  simp only [BitVec.getElem_append, BitVec.getElem_signExtend, BitVec.getElem_fill]
  grind

/-- A half is its two bytes, and its sign extension a fill before them. -/
theorem extractLsb_half (h : BitVec 16) : h.extractLsb 15 8 ++ h.extractLsb 7 0 = h := by
  ext i hi
  simp only [BitVec.getElem_append]
  grind

theorem fill_append_half (h : BitVec 16) :
    BitVec.fill 16 (h.getLsbD 15) ++ h.extractLsb 15 8 ++ h.extractLsb 7 0 = h.signExtend 32 := by
  ext i hi
  simp only [BitVec.getElem_append, BitVec.getElem_signExtend, BitVec.getElem_fill]
  grind

/-- **A read is a load** from the array, extended. -/
theorem readData_eq (memory : Words k) (address : BitVec 32) (dataMask : DataMask)
    (signExtData : Bool) :
    readData memory address dataMask signExtData =
      readFlat (flat memory) address dataMask signExtData := by
  cases dataMask with
  | byte =>
    simp only [readData, readFlat, DataMask.width, returnByte_eq, ← BitVec.getLsbD_eq_getElem,
      fill_append_byte]
  | half =>
    simp only [readData, readFlat, DataMask.width, ← BitVec.getLsbD_eq_getElem, returnHalf_eq,
      fill_append_half, extractLsb_half]
  | word =>
    simp only [readData, readFlat, DataMask.width, readWord_eq]
    rw [BitVec.signExtend_eq, BitVec.setWidth_eq, ite_self]

end Memory

end Perilus

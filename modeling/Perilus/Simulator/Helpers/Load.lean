import Perilus.Simulator.Helpers.Core
/-!
# Simulator — loading an image

`load_bytes` writes the image a byte at a time from address 0 on, and
leaves the rest of memory.
-/

namespace Perilus

open ByteMemory

namespace Memory

variable {k : ℕ}

/-- The bytes determine the words. -/
theorem flat_injective {m m' : Words k} (h : flat m = flat m') : m = m' := by
  funext idx i
  have hb : byteAt (flat m) (4 * idx.toNat + i) = byteAt (flat m') (4 * idx.toNat + i) := by
    rw [h]
  rw [byteAt_flat m idx.isLt i.isLt, byteAt_flat m' idx.isLt i.isLt, BitVec.ofNat_toNat,
    BitVec.setWidth_eq] at hb
  exact hb

/-- A byte write, byte by byte. -/
theorem flat_stored_byte (m : Words memoryBits) {a : BitVec 32}
    (ha : a.toNat < Simulator.memorySizeBytes) (v : BitVec 8) :
    flat (stored m a .byte (v.setWidth 32)) = store (flat m) a.toNat 1 v.toNat := by
  rw [flat_stored, DataMask.width, place,
    Nat.mod_eq_of_lt (show a.toNat < 4 * 2 ^ memoryBits from ha), Nat.div_one, Nat.mul_one,
    BitVec.toNat_setWidth, Nat.mod_eq_of_lt (Nat.lt_trans v.isLt (by decide))]

end Memory

/-- A byte stored alone. -/
theorem store_byte {N : ℕ} (m : Bytes N) (a : ℕ) (v : BitVec 8) (i : Fin N) :
    store m a 1 v.toNat i = if i.val = a then v else m i := by
  rw [store]
  by_cases hi : i.val = a
  · rw [if_pos hi, if_pos (by omega), hi, Nat.sub_self, Nat.pow_zero, Nat.div_one,
      BitVec.ofNat_toNat, BitVec.setWidth_eq]
  · rw [if_neg hi, if_neg (by omega)]

namespace Simulator

/-- The bytes of a memory, read one at a time. -/
theorem getMemoryByte_flat (p : Simulator) {a : BitVec 32} (ha : a.toNat < memorySizeBytes) :
    p.getMemoryByte a = some (byteAt (Memory.flat p.rtl.memory) a.toNat) := by
  have hlane := Memory.byteAt_place p.rtl.memory a .byte (j := 0) (by decide)
  rw [getMemoryByte_of_lt p ha]
  rw [DataMask.width, place, Nat.mod_eq_of_lt (show a.toNat < 4 * 2 ^ memoryBits from ha),
    Nat.div_one, Nat.mul_one, Nat.div_one, Nat.mul_one, Nat.add_zero, Nat.add_zero] at hlane
  rw [hlane]
  congr 2
  exact Fin.ext (Nat.mod_eq_of_lt (Memory.byteOffset a).isLt).symm

/-- **Writing a byte**, as the bytes read back. -/
theorem getMemoryByte_setMemoryByte (p : Simulator) {a : BitVec 32}
    (ha : a.toNat < memorySizeBytes) (value : BitVec 8) :
    ∃ memory, p.setMemoryByte a value = some (p.withMemory memory) ∧
      ∀ b : BitVec 32, b.toNat < memorySizeBytes →
        (p.withMemory memory).getMemoryByte b =
          if b = a then some value else p.getMemoryByte b := by
  refine ⟨_, p.setMemoryByte_of_lt ha value, ?_⟩
  intro b hb
  have hlt : b.toNat < 4 * 2 ^ memoryBits := hb
  rw [getMemoryByte_flat _ hb, getMemoryByte_flat _ hb, withMemory_memory,
    Memory.flat_stored_byte _ ha, byteAt_of_lt _ hlt, byteAt_of_lt _ hlt, store_byte]
  by_cases hba : b = a
  · rw [if_pos hba, if_pos (congrArg BitVec.toNat hba)]
  · rw [if_neg hba, if_neg fun h => hba (BitVec.eq_of_toNat_eq h)]

/-- **The loop of `load_bytes`** changes the bytes from `a` on, and nothing
else. -/
theorem storeBytes_eq (p : Simulator) {a : ℕ} {bytes : List (BitVec 8)}
    (h : a + bytes.length ≤ memorySizeBytes) :
    ∃ memory, p.storeBytes a bytes = some (p.withMemory memory) ∧
      ∀ i, Memory.flat memory i =
        if a ≤ i.val ∧ i.val < a + bytes.length then bytes.getD (i.val - a) 0
        else Memory.flat p.rtl.memory i := by
  induction bytes generalizing p a with
  | nil =>
    refine ⟨p.rtl.memory, rfl, ?_⟩
    intro i
    rw [if_neg (by simp only [List.length_nil]; omega)]
  | cons v bytes ih =>
    rw [List.length_cons] at h
    have hmem : memorySizeBytes = 4194304 := rfl
    have ha : (BitVec.ofNat 32 a).toNat = a := by
      rw [BitVec.toNat_ofNat]
      omega
    have hlt : (BitVec.ofNat 32 a).toNat < memorySizeBytes := by omega
    obtain ⟨memory, hrun, hflat⟩ :=
      ih (p.withMemory (Memory.stored p.rtl.memory (BitVec.ofNat 32 a) .byte (v.setWidth 32)))
        (a := a + 1) (by omega)
    refine ⟨memory, ?_, ?_⟩
    · rw [storeBytes, setMemoryByte_of_lt p hlt]
      exact hrun
    · intro i
      rw [hflat, withMemory_memory, Memory.flat_stored_byte _ hlt, store_byte, ha, List.length_cons]
      -- below, at and above the byte this iteration writes
      rcases Nat.lt_trichotomy i.val a with hi | hi | hi
      · rw [if_neg (by omega), if_neg (by omega), if_neg (by omega)]
      · rw [if_neg (by omega), if_pos hi, if_pos (by omega), hi, Nat.sub_self, List.getD_cons_zero]
      · by_cases hle : i.val < a + 1 + bytes.length
        · rw [if_pos (by omega), if_pos (by omega),
            show i.val - a = i.val - (a + 1) + 1 by omega, List.getD_cons_succ]
        · rw [if_neg (by omega), if_neg (by omega), if_neg (by omega)]

/-- **`load_bytes` of an image that fits.** -/
theorem loadBytes_eq (p : Simulator) {bytes : List (BitVec 8)}
    (h : bytes.length ≤ memorySizeBytes) :
    ∃ memory, p.loadBytes bytes = some (.ok (), p.withMemory memory) ∧
      ∀ i, Memory.flat memory i =
        if i.val < bytes.length then bytes.getD i.val 0 else Memory.flat p.rtl.memory i := by
  have hfit : 0 + bytes.length ≤ memorySizeBytes := by omega
  obtain ⟨memory, hrun, hflat⟩ := storeBytes_eq p hfit
  refine ⟨memory, ?_, ?_⟩
  · rw [loadBytes, if_neg (by omega), hrun]
    rfl
  · intro i
    rw [hflat]
    simp only [Nat.zero_le, true_and, Nat.zero_add, Nat.sub_zero]

/-- Whatever a file holds, loading it changes nothing but the memory. -/
theorem loadFile_eq_withMemory {p p' : Simulator} {contents : Except String (List (BitVec 8))}
    {result : Except String Unit} (h : p.loadFile contents = some (result, p')) :
    ∃ memory, p' = p.withMemory memory := by
  rcases contents with e | bytes
  · cases h
    exact ⟨p.rtl.memory, rfl⟩
  · rcases Nat.lt_or_ge memorySizeBytes bytes.length with hlt | hle
    · rw [loadFile, loadBytes, if_pos hlt] at h
      cases h
      exact ⟨p.rtl.memory, rfl⟩
    · obtain ⟨memory, hrun, -⟩ := loadBytes_eq p hle
      rw [loadFile, hrun] at h
      cases h
      exact ⟨memory, rfl⟩

end Simulator

/-- An image over zeroed memory. -/
def imageMemory (image : List (BitVec 8)) : Words memoryBits := fun idx i =>
  image.getD (4 * idx.toNat + i) 0

/-- The design with an image loaded at address 0, every other bit zero. -/
def State.boot (image : List (BitVec 8)) : State :=
  { State.zeroed with memory := imageMemory image }

/-- **Loading into a new simulator boots the design on the image.** -/
theorem Simulator.init_loadBytes {image : List (BitVec 8)}
    (h : image.length ≤ Simulator.memorySizeBytes) :
    Simulator.init.loadBytes image =
      some (.ok (), Simulator.init.withMemory (imageMemory image)) := by
  obtain ⟨memory, hrun, hflat⟩ := loadBytes_eq init h
  rw [hrun]
  congr 3
  refine Memory.flat_injective ?_
  funext i
  have hword : (BitVec.ofNat memoryBits (i.val / 4)).toNat = i.val / 4 :=
    Nat.mod_eq_of_lt (Nat.div_lt_of_lt_mul i.isLt)
  have himage : Memory.flat (imageMemory image) i = image.getD i.val 0 := by
    rw [Memory.flat, imageMemory, hword, Fin.val_ofNat, Nat.div_add_mod]
  rw [hflat, himage]
  split
  · rfl
  · next hge =>
    rw [List.getD_eq_default _ _ (by omega)]
    rfl

end Perilus

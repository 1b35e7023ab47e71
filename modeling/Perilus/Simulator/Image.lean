import Perilus.Simulator.Helpers.Load
/-!
# Simulator — loading and saving an image

`save_file` writes the array the memory lays out, and `load_bytes` writes
into it from its first byte on, all of the image or nothing. So the two
undo each other.
-/

namespace Perilus

namespace Simulator

/-- **Loading an image into `p`, and saving it.** -/
structure LoadSave (p : Simulator) (bytes : List (BitVec 8)) : Prop where
  /-- An image too long is refused, and nothing changes. -/
  tooLong : memorySizeBytes < bytes.length → ∃ e, p.loadBytes bytes = some (.error e, p)
  /-- Any other is written over the first bytes of memory, and nothing
  else changes. -/
  fits : bytes.length ≤ memorySizeBytes →
    ∃ memory, p.loadBytes bytes = some (.ok (), p.withMemory memory) ∧
      (p.withMemory memory).memoryBytes = bytes ++ p.memoryBytes.drop bytes.length
  /-- An image saved from `q` brings `q`'s memory. -/
  restores : ∀ q : Simulator,
    p.loadFile (.ok q.saveFile) = some (.ok (), p.withMemory q.rtl.memory)
  /-- An image of full size is saved as it was loaded. -/
  saves : bytes.length = memorySizeBytes →
    ∃ p', p.loadFile (.ok bytes) = some (.ok (), p') ∧ p'.saveFile = bytes

variable (p : Simulator)

/-! ## The bytes of memory -/

theorem vecOfWord_wordOfVec (v : Vec (BitVec 8)) : vecOfWord (wordOfVec v) = v := by
  funext i
  refine BitVec.eq_of_getLsbD_eq fun j hj => ?_
  rw [getLsbD_vecOfWord _ _ hj, getLsbD_wordOfVec _ _ hj]

theorem toLeBytes_wordOfVec (v : Vec (BitVec 8)) : toLeBytes (wordOfVec v) = List.ofFn v := by
  have hbytes : toLeBytes (wordOfVec v) = List.ofFn (vecOfWord (wordOfVec v)) := rfl
  rw [hbytes, vecOfWord_wordOfVec]

/-- **What `memory_bytes` lists** is the array the memory lays out. -/
theorem memoryBytes_eq : p.memoryBytes = List.ofFn (Memory.flat p.rtl.memory) := by
  rw [memoryBytes, memoryWords, List.ofFn_mul' (m := 4) (n := 2 ^ memoryBits), List.flatMap_def,
    List.map_ofFn]
  -- word by word, and in a word lane by lane
  congr 2
  funext i
  rw [Function.comp_apply, toLeBytes_wordOfVec]
  congr 1
  funext j
  rw [Memory.flat]
  congr 2
  · dsimp only
    omega
  · exact Fin.ext (by rw [Fin.val_ofNat]; dsimp only; omega)

theorem length_memoryBytes : p.memoryBytes.length = memorySizeBytes := by
  rw [memoryBytes_eq, List.length_ofFn]
  rfl

/-- An entry of a list given by its entries. -/
theorem getElem_of_eq_ofFn {α : Type} {n i : ℕ} {f : Fin n → α} {l : List α}
    (h : l = List.ofFn f) (hi : i < l.length) (hn : i < n) : l[i] = f ⟨i, hn⟩ := by
  subst h
  exact List.getElem_ofFn hi

theorem getElem_memoryBytes {i : ℕ} (hlt : i < 4 * 2 ^ memoryBits)
    (hi : i < p.memoryBytes.length) :
    p.memoryBytes[i] = Memory.flat p.rtl.memory ⟨i, hlt⟩ :=
  getElem_of_eq_ofFn p.memoryBytes_eq hi hlt

/-! ## Loading -/

/-- **The image, and the rest of memory behind it.** -/
theorem memoryBytes_loadBytes {bytes : List (BitVec 8)} (h : bytes.length ≤ memorySizeBytes) :
    ∃ memory, p.loadBytes bytes = some (.ok (), p.withMemory memory) ∧
      (p.withMemory memory).memoryBytes = bytes ++ p.memoryBytes.drop bytes.length := by
  obtain ⟨memory, hload, hflat⟩ := loadBytes_eq p h
  refine ⟨memory, hload, ?_⟩
  refine List.ext_getElem ?_ ?_
  · rw [List.length_append, List.length_drop, length_memoryBytes, length_memoryBytes]
    omega
  · intro i hi hi'
    have hlt : i < 4 * 2 ^ memoryBits := by
      rw [length_memoryBytes] at hi
      exact hi
    rw [getElem_memoryBytes _ hlt hi, withMemory_memory, hflat, List.getElem_append]
    split
    · next hin => rw [List.getD_eq_getElem _ _ hin]
    · next hout =>
      have hback : bytes.length + (i - bytes.length) = i := by
        dsimp only at hout
        omega
      have hi'' : i < p.memoryBytes.length := by
        rw [length_memoryBytes]
        exact hlt
      simp only [List.getElem_drop, hback]
      rw [getElem_memoryBytes _ hlt hi'']

/-- **Loading what another memory saved** brings that memory. -/
theorem loadBytes_memoryBytes (q : Simulator) :
    p.loadBytes q.memoryBytes = some (.ok (), p.withMemory q.rtl.memory) := by
  obtain ⟨memory, hload, hflat⟩ := loadBytes_eq p q.length_memoryBytes.le
  have hmemory : memory = q.rtl.memory := by
    refine Memory.flat_injective (funext fun i => ?_)
    have hlt : i.val < q.memoryBytes.length := by
      rw [length_memoryBytes]
      exact i.isLt
    rw [hflat, if_pos hlt, List.getD_eq_getElem _ _ hlt, getElem_memoryBytes _ i.isLt hlt]
  rw [hload, hmemory]

/-- **Loading and saving are inverse**, and an image is loaded whole or
not at all. -/
theorem load_save (bytes : List (BitVec 8)) : p.LoadSave bytes where
  tooLong hlong := ⟨_, by rw [loadBytes, if_pos hlong]⟩
  fits hfits := p.memoryBytes_loadBytes hfits
  restores q := p.loadBytes_memoryBytes q
  saves hfull := by
    obtain ⟨memory, hload, hbytes⟩ := p.memoryBytes_loadBytes hfull.le
    refine ⟨_, hload, ?_⟩
    have hdrop : p.memoryBytes.drop bytes.length = [] :=
      List.drop_eq_nil_of_le (by rw [length_memoryBytes, hfull])
    rw [saveFile, hbytes, hdrop, List.append_nil]

end Simulator

end Perilus

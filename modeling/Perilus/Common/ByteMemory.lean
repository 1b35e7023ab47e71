import Mathlib.Data.Nat.Digits.Lemmas
/-!
# Flat little-endian byte memories

An array of `N` bytes whose addresses wrap around. A number is stored in
`w` bytes from a place on, least significant first, and loaded back from
them; an access of `w` bytes at any address goes to its place, the
address modulo the size and rounded down to a multiple of `w`.
-/

namespace ByteMemory

/-- An array of `N` bytes. -/
abbrev Bytes (N : ℕ) := Fin N → BitVec 8

variable {N : ℕ} [NeZero N]

/-- The byte at an address. -/
def byteAt (m : Bytes N) (a : ℕ) : BitVec 8 := m (Fin.ofNat N a)

/-- The number in the `w` bytes from `a` on. -/
def load (m : Bytes N) (a w : ℕ) : ℕ :=
  Nat.ofDigits 256 ((List.range w).map fun j => (byteAt m (a + j)).toNat)

omit [NeZero N] in
/-- The low `w` bytes of `v` stored from `a` on. -/
def store (m : Bytes N) (a w v : ℕ) : Bytes N := fun i =>
  if a ≤ i.val ∧ i.val < a + w then BitVec.ofNat 8 (v / 256 ^ (i.val - a)) else m i

/-- Where an access of `w` bytes goes. -/
def place (N w a : ℕ) : ℕ := a % N / w * w

theorem byteAt_of_lt (m : Bytes N) {a : ℕ} (ha : a < N) : byteAt m a = m ⟨a, ha⟩ := by
  rw [byteAt]
  congr 1
  exact Fin.ext (Nat.mod_eq_of_lt ha)

/-- A store leaves what is below it alone. -/
theorem load_store_of_le (m : Bytes N) {a b w w' v : ℕ} (hle : b + w' ≤ a) (hN : b + w' ≤ N) :
    load (store m a w v) b w' = load m b w' := by
  rw [load, load]
  congr 1
  refine List.map_congr_left fun j hj => ?_
  have hlt : b + j < N := by have := List.mem_range.1 hj; omega
  rw [byteAt_of_lt _ hlt, byteAt_of_lt _ hlt, store, if_neg]
  have := List.mem_range.1 hj
  dsimp only
  omega

/-- What `w` bytes hold is below `256 ^ w`. -/
theorem load_lt (m : Bytes N) (a w : ℕ) : load m a w < 256 ^ w := by
  have h := Nat.ofDigits_lt_base_pow_length (b := 256) (by decide)
    (l := (List.range w).map fun j => (byteAt m (a + j)).toNat) (by
      intro d hd
      obtain ⟨j, -, rfl⟩ := List.mem_map.1 hd
      exact (byteAt m (a + j)).isLt)
  rw [load]
  simpa only [List.length_map, List.length_range] using h

end ByteMemory

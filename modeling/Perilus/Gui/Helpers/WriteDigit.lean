import Perilus.Gui.Helpers.Digits
/-!
# Debugger — one hex digit of memory written

A digit typed and a digit cleared are one operation: half of the byte
under the cursor is written, which changes the digit at the cursor's
position and no other, and the cursor moves on.
-/

namespace Perilus

/-! ## Half a byte -/

/-- The byte `edit_nibble` writes. -/
def setNibble (byte : BitVec 8) (nib : ℕ) (nibble : BitVec 4) : BitVec 8 :=
  if nib = 0 then (byte &&& 0x0f) ||| (nibble.setWidth 8 <<< 4)
  else (byte &&& 0xf0) ||| nibble.setWidth 8

theorem nibbleOf_setNibble (byte : BitVec 8) (nib : ℕ) (nibble : BitVec 4) :
    nibbleOf (setNibble byte nib nibble) nib = nibble := by
  rw [nibbleOf, setNibble]
  split
  · refine BitVec.eq_of_getLsbD_eq fun i hi => ?_
    interval_cases i <;> simp
  · refine BitVec.eq_of_getLsbD_eq fun i hi => ?_
    interval_cases i <;> simp

theorem nibbleOf_setNibble_of_ne (byte : BitVec 8) {nib nib' : ℕ} (nibble : BitVec 4)
    (h : nib < 2) (h' : nib' < 2) (hne : nib' ≠ nib) :
    nibbleOf (setNibble byte nib nibble) nib' = nibbleOf byte nib' := by
  rw [setNibble, nibbleOf, nibbleOf]
  rcases Nat.eq_zero_or_pos nib with rfl | hpos
  · rw [if_pos rfl, if_neg hne, if_neg hne]
    refine BitVec.eq_of_getLsbD_eq fun i hi => ?_
    interval_cases i <;> simp
  · obtain rfl : nib' = 0 := by omega
    rw [if_neg (Nat.ne_of_gt hpos), if_pos rfl, if_pos rfl]
    refine BitVec.eq_of_getLsbD_eq fun i hi => ?_
    interval_cases i <;> simp

/-- `backspace` writes a zero. -/
theorem setNibble_zero (byte : BitVec 8) (nib : ℕ) :
    setNibble byte nib 0 = if nib = 0 then byte &&& 0x0f else byte &&& 0xf0 := by
  rw [setNibble]
  split <;> simp

/-! ## One digit -/

namespace SimApp

/-- **One digit written**, at position `p`, and the cursor put at `r`. -/
structure Wrote (app : SimApp) (p : ℕ) (nibble : BitVec 4) (r : ℕ) (app' : SimApp) : Prop where
  focus : app'.focus = app.focus
  view : app'.view = app.view
  cursor : app'.CursorAt r
  digitAt : ∀ q < numDigits, app'.digitAt q = if q = p then some nibble else app.digitAt q

variable {app app' : SimApp} {p : ℕ}

theorem digitAt_eq (q : ℕ) :
    app.digitAt q = (app.perilus.getMemoryByte
      (BitVec.ofNat 32 (q / 64 * bytesPerRow + digitOffset app.view (q % 64)))).map
        (nibbleOf · (q % 2)) := by
  rw [digitAt, digitPlace_eq]
  change (app.perilus.getMemoryByte _).bind _ = _
  cases app.perilus.getMemoryByte _ <;> rfl

/-- The address of a digit, as a number. -/
theorem toNat_digitAddr (view : ViewMode) {q : ℕ} (h : q < numDigits) :
    (BitVec.ofNat 32 (q / 64 * bytesPerRow + digitOffset view (q % 64))).toNat =
      q / 64 * bytesPerRow + digitOffset view (q % 64) := by
  have hlt := digitPlace_lt view h
  rw [Simulator.memorySizeBytes, Simulator.memorySizeWords] at hlt
  rw [BitVec.toNat_ofNat, Nat.mod_eq_of_lt (by omega)]

theorem CursorAt.memAddr_eq (h : app.CursorAt p) :
    app.memAddr = BitVec.ofNat 32 (p / 64 * bytesPerRow + digitOffset app.view (p % 64)) :=
  BitVec.eq_of_toNat_eq (h.memAddr.trans (toNat_digitAddr app.view h.lt).symm)

/-- `edit_nibble` with the focus on memory. -/
theorem editNibble_memory (hf : app.focus = .memory) {byte : BitVec 8} {p' : Simulator}
    {nibble : BitVec 4} (hbyte : app.perilus.getMemoryByte app.memAddr = some byte)
    (hset : app.perilus.setMemoryByte app.memAddr (setNibble byte app.memNib nibble) = some p') :
    app.editNibble (nibble.setWidth 8) = moveMemory { app with perilus := p' } .right := by
  rw [editNibble]
  split
  · dsimp only
    rw [hbyte]
    change (app.perilus.setMemoryByte app.memAddr (setNibble byte app.memNib nibble)).bind _ = _
    rw [hset]
    rfl
  · next hregisters => cases hf.symm.trans hregisters

/-- The digits after the byte under the cursor has been written. -/
theorem digitAt_setNibble (h : app.CursorAt p) {byte : BitVec 8} {nibble : BitVec 4}
    (hbyte : app.perilus.getMemoryByte app.memAddr = some byte)
    (hview : app'.view = app.view)
    (hget : ∀ b : BitVec 32, b.toNat < Simulator.memorySizeBytes →
      app'.perilus.getMemoryByte b =
        if b = app.memAddr then some (setNibble byte app.memNib nibble)
        else app.perilus.getMemoryByte b) {q : ℕ} (hq : q < numDigits) :
    app'.digitAt q = if q = p then some nibble else app.digitAt q := by
  have haddr : (BitVec.ofNat 32 (q / 64 * bytesPerRow + digitOffset app.view (q % 64))).toNat <
      Simulator.memorySizeBytes := by
    rw [toNat_digitAddr app.view hq]
    exact digitPlace_lt app.view hq
  rw [digitAt_eq, digitAt_eq, hview, hget _ haddr]
  by_cases hbyteq :
      BitVec.ofNat 32 (q / 64 * bytesPerRow + digitOffset app.view (q % 64)) = app.memAddr
  · -- a digit of the same byte
    rw [if_pos hbyteq, hbyteq, hbyte, Option.map_some, Option.map_some]
    split
    · next hqp => rw [hqp, ← h.memNib, nibbleOf_setNibble]
    · next hqp =>
      have hnib : q % 2 ≠ app.memNib := by
        intro hnib
        refine hqp (digitPlace_injective app.view ?_)
        rw [h.place, digitPlace_eq, ← toNat_digitAddr app.view hq, hbyteq, hnib]
      have hlt : app.memNib < 2 := by
        rw [h.memNib]
        exact Nat.mod_lt p (by decide)
      rw [nibbleOf_setNibble_of_ne byte nibble hlt (Nat.mod_lt q (by decide)) hnib]
  · have hqp : q ≠ p := by
      rintro rfl
      exact hbyteq h.memAddr_eq.symm
    rw [if_neg hbyteq, if_neg hqp]

/-- **The byte under the cursor can be written**, half of it. -/
theorem CursorAt.write (h : app.CursorAt p) (nibble : BitVec 4) :
    ∃ byte memory, app.perilus.getMemoryByte app.memAddr = some byte ∧
      app.perilus.setMemoryByte app.memAddr (setNibble byte app.memNib nibble) =
        some (app.perilus.withMemory memory) ∧
      ∀ r < numDigits, app.Wrote p nibble r
        (withCursor { app with perilus := app.perilus.withMemory memory } r) := by
  have haddr : app.memAddr.toNat < Simulator.memorySizeBytes := by
    rw [h.memAddr]
    exact digitPlace_lt app.view h.lt
  obtain ⟨byte, hbyte⟩ : ∃ byte, app.perilus.getMemoryByte app.memAddr = some byte :=
    ⟨_, app.perilus.getMemoryByte_flat haddr⟩
  obtain ⟨memory, hset, hget⟩ := app.perilus.getMemoryByte_setMemoryByte haddr
    (setNibble byte app.memNib nibble)
  refine ⟨byte, memory, hbyte, hset, ?_⟩
  intro r hr
  have hview : (withCursor { app with perilus := app.perilus.withMemory memory } r).view =
    app.view := rfl
  exact ⟨rfl, rfl, withCursor_cursorAt hr, fun q hq => digitAt_setNibble h hbyte hview hget hq⟩

/-- **A digit typed.** -/
theorem editNibble_wrote (hf : app.focus = .memory) (h : app.CursorAt p) (nibble : BitVec 4) :
    ∃ app', app.editNibble (nibble.setWidth 8) = some app' ∧
      app.Wrote p nibble (min (p + 1) (numDigits - 1)) app' := by
  have hlt := h.lt
  obtain ⟨byte, memory, hbyte, hset, hwrote⟩ := h.write nibble
  have h₁ : CursorAt { app with perilus := app.perilus.withMemory memory } p := ⟨hlt, h.place⟩
  exact ⟨_, (editNibble_memory hf hbyte hset).trans h₁.moveMemory_right, hwrote _ (by omega)⟩

/-- `backspace` with the focus on memory. -/
theorem backspace_memory (hf : app.focus = .memory) (h : app.CursorAt p) (hp : 0 < p)
    {byte : BitVec 8} {p' : Simulator}
    (hbyte : app.perilus.getMemoryByte app.memAddr = some byte)
    (hset : app.perilus.setMemoryByte app.memAddr (setNibble byte app.memNib 0) = some p') :
    app.backspace = moveMemory { app with perilus := p' } .left := by
  rw [setNibble_zero] at hset
  rw [backspace]
  split
  · rw [if_neg (mt h.first_iff.1 (by omega))]
    dsimp only
    rw [hbyte, Option.bind_eq_bind, Option.bind_some, hset]
    rfl
  · next hregisters => cases hf.symm.trans hregisters

/-- **A digit cleared**, the one under the cursor. -/
theorem backspace_wrote (hf : app.focus = .memory) (h : app.CursorAt p) (hp : 0 < p) :
    ∃ app', app.backspace = some app' ∧ app.Wrote p 0 (p - 1) app' := by
  have hlt := h.lt
  obtain ⟨byte, memory, hbyte, hset, hwrote⟩ := h.write 0
  have h₁ : CursorAt { app with perilus := app.perilus.withMemory memory } p := ⟨hlt, h.place⟩
  exact ⟨_, (backspace_memory hf h hp hbyte hset).trans h₁.moveMemory_left, hwrote _ (by omega)⟩

end SimApp

end Perilus

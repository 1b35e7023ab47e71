import Perilus.Common.Bits
import Perilus.Common.Reachable
import Perilus.Gui.Helpers.WriteDigit
/-!
# Debugger — typing into memory

A digit typed with the focus on memory goes where the cursor is, into
half a byte, and the cursor goes on to the next position; so a text typed
from a position on is what the screen shows there.
-/

namespace Perilus

open Transition

/-! ## One digit -/

namespace SimApp

/-- **What typing from `p` on leaves.** -/
structure Typed (app : SimApp) (p : ℕ) (nibbles : List (BitVec 4)) (app' : SimApp) : Prop where
  focus : app'.focus = .memory
  view : app'.view = app.view
  cursor : app'.CursorAt (min (p + nibbles.length) (numDigits - 1))
  typed : ∀ i < nibbles.length, app'.digitAt (p + i) = nibbles[i]?
  others : ∀ q < numDigits, q < p ∨ p + nibbles.length ≤ q → app'.digitAt q = app.digitAt q

variable {app app' : SimApp} {p : ℕ}

/-- **One digit typed.** -/
theorem editNibble_typed (hf : app.focus = .memory) (h : app.CursorAt p) (nibble : BitVec 4) :
    ∃ app', app.editNibble (nibble.setWidth 8) = some app' ∧ app.Typed p [nibble] app' := by
  obtain ⟨app', hedit, hwrote⟩ := editNibble_wrote hf h nibble
  refine ⟨app', hedit, hwrote.focus.trans hf, hwrote.view, hwrote.cursor, ?_, ?_⟩
  · intro i hi
    obtain rfl : i = 0 := by simpa using hi
    rw [Nat.add_zero, hwrote.digitAt p h.lt, if_pos rfl]
    rfl
  · intro q hq hne
    rw [List.length_singleton] at hne
    rw [hwrote.digitAt q hq, if_neg (by omega)]

/-! ## A text -/

/-- Nothing typed. -/
theorem Typed.nil (hf : app.focus = .memory) (h : app.CursorAt p) : app.Typed p [] app where
  focus := hf
  view := rfl
  cursor := by
    have hlt := h.lt
    rw [List.length_nil, Nat.add_zero, Nat.min_eq_left (by omega)]
    exact h
  typed i hi := absurd hi (Nat.not_lt_zero i)
  others _ _ _ := rfl

/-- One digit, and the rest from the next position on. -/
theorem Typed.cons {app₁ : SimApp} {nibble : BitVec 4} {nibbles : List (BitVec 4)}
    (h₁ : app.Typed p [nibble] app₁) (h : app₁.Typed (p + 1) nibbles app')
    (hlt : p < numDigits) : app.Typed p (nibble :: nibbles) app' where
  focus := h.focus
  view := h.view.trans h₁.view
  cursor := by
    have hcursor := h.cursor
    rw [Nat.add_assoc, Nat.add_comm 1] at hcursor
    exact hcursor
  typed i hi := by
    rcases i with - | i
    · rw [Nat.add_zero, h.others p hlt (by omega)]
      exact h₁.typed 0 (Nat.succ_pos 0)
    · have hrest := h.typed i (by simpa using hi)
      rw [Nat.add_assoc, Nat.add_comm 1] at hrest
      exact hrest
  others q hq hne := by
    rw [List.length_cons] at hne
    rw [h.others q hq (by omega), h₁.others q hq (by rw [List.length_singleton]; omega)]

/-- `edit_nibble` on one digit after another. -/
def typeNibbles (nibbles : List (BitVec 4)) (app : SimApp) : Option SimApp :=
  run (fun app nibble => app.editNibble (nibble.setWidth 8)) nibbles app

/-- **A text typed.** -/
theorem typeNibbles_typed (nibbles : List (BitVec 4)) (hf : app.focus = .memory)
    (h : app.CursorAt p) (hlen : p + nibbles.length ≤ numDigits) :
    ∃ app', typeNibbles nibbles app = some app' ∧ app.Typed p nibbles app' := by
  induction nibbles generalizing app p with
  | nil => exact ⟨app, rfl, .nil hf h⟩
  | cons nibble nibbles ih =>
    rw [List.length_cons] at hlen
    obtain ⟨app₁, hedit, htyped⟩ := editNibble_typed hf h nibble
    have hrun : typeNibbles (nibble :: nibbles) app = typeNibbles nibbles app₁ := by
      rw [typeNibbles, run, hedit, Option.bind_some, typeNibbles]
    rw [hrun]
    rcases nibbles with - | ⟨nibble', nibbles⟩
    · exact ⟨app₁, rfl, htyped⟩
    · -- there is a next position, and the cursor is on it
      have hcursor := htyped.cursor
      rw [List.length_cons] at hlen
      rw [List.length_singleton, Nat.min_eq_left (by omega)] at hcursor
      obtain ⟨app', hrest, htyped'⟩ := ih htyped.focus hcursor (by rw [List.length_cons]; omega)
      exact ⟨app', hrest, htyped.cons htyped' h.lt⟩

end SimApp

/-! ## A word -/

/-- The number a list of hex digits writes, the first the highest. -/
def hexNumber (nibbles : List (BitVec 4)) : ℕ :=
  nibbles.foldl (fun v nibble => v * 16 + nibble.toNat) 0

/-- A byte is its two nibbles. -/
theorem toNat_of_nibbles (byte : BitVec 8) :
    byte.toNat = (nibbleOf byte 0).toNat * 16 + (nibbleOf byte 1).toNat := by
  rw [nibbleOf, nibbleOf, if_pos rfl, if_neg (by decide), Bits.toNat_extractLsb,
    Bits.toNat_extractLsb]
  have := byte.isLt
  omega

theorem toNat_wordOfVec (v : Vec (BitVec 8)) :
    (wordOfVec v).toNat =
      (((v 3).toNat * 2 ^ 8 + (v 2).toNat) * 2 ^ 8 + (v 1).toNat) * 2 ^ 8 + (v 0).toNat := by
  rw [wordOfVec, Bits.toNat_append, Bits.toNat_append, Bits.toNat_append]

/-- A byte of a word of memory. -/
theorem Simulator.getMemoryByte_word (p : Simulator) {w : ℕ} (hw : w < memorySizeWords)
    (i : Fin 4) :
    p.getMemoryByte (BitVec.ofNat 32 (4 * w + i)) =
      some (p.rtl.memory (BitVec.ofNat memoryBits w) i) := by
  have hi := i.isLt
  rw [memorySizeWords] at hw
  have hnat : (BitVec.ofNat 32 (4 * w + i)).toNat = 4 * w + i := by
    rw [BitVec.toNat_ofNat, Nat.mod_eq_of_lt (by omega)]
  have hlt : (BitVec.ofNat 32 (4 * w + i)).toNat < memorySizeBytes := by
    rw [hnat, memorySizeBytes, memorySizeWords]
    omega
  have hindex : Memory.index memoryBits (BitVec.ofNat 32 (4 * w + i)) =
      BitVec.ofNat memoryBits w := by
    rw [Memory.index_eq, hnat, show (4 * w + i.val) / 4 = w by omega,
      Nat.mod_eq_of_lt (show w < 2 ^ memoryBits from hw)]
  have hlane : (Memory.byteOffset (BitVec.ofNat 32 (4 * w + i))).toFin = i := by
    refine Fin.ext ?_
    rw [BitVec.val_toFin, Memory.toNat_byteOffset, hnat]
    omega
  rw [p.getMemoryByte_of_lt hlt, hindex, hlane]

namespace SimApp

/-- **The digits of a word, in word view.** -/
theorem digitAt_word {app : SimApp} (hview : app.view = .word) {w : ℕ}
    (hw : w < Simulator.memorySizeWords) {j : ℕ} (hj : j < 8) :
    app.digitAt (8 * w + j) =
      some (nibbleOf (app.perilus.rtl.memory (BitVec.ofNat memoryBits w)
        (Fin.ofNat 4 (3 - j / 2))) (j % 2)) := by
  have haddr : (8 * w + j) / 64 * bytesPerRow + digitOffset .word ((8 * w + j) % 64) =
      4 * w + (Fin.ofNat 4 (3 - j / 2)).val := by
    rw [bytesPerRow, digitOffset, Fin.val_ofNat]
    omega
  rw [digitAt_eq, hview, haddr, app.perilus.getMemoryByte_word hw, Option.map_some,
    show (8 * w + j) % 2 = j % 2 by omega]

/-- **Eight digits make the word they write.** -/
theorem getMemory_hexNumber {app : SimApp} (hview : app.view = .word) {w : ℕ}
    (hw : w < Simulator.memorySizeWords) {nibbles : List (BitVec 4)} (hlen : nibbles.length = 8)
    (hdigits : ∀ j < 8, app.digitAt (8 * w + j) = nibbles[j]?) :
    (app.perilus.getMemory w).map BitVec.toNat = some (hexNumber nibbles) := by
  have hnibble : ∀ j < 8, some (nibbleOf (app.perilus.rtl.memory (BitVec.ofNat memoryBits w)
      (Fin.ofNat 4 (3 - j / 2))) (j % 2)) = nibbles[j]? := by
    intro j hj
    rw [← digitAt_word hview hw hj]
    exact hdigits j hj
  rw [app.perilus.getMemory_of_lt hw, Option.map_some, toNat_wordOfVec]
  generalize app.perilus.rtl.memory (BitVec.ofNat memoryBits w) = v at hnibble
  match nibbles, hlen with
  | [n₀, n₁, n₂, n₃, n₄, n₅, n₆, n₇], _ =>
    have h₀ : nibbleOf (v 3) 0 = n₀ := Option.some.inj (hnibble 0 (by decide))
    have h₁ : nibbleOf (v 3) 1 = n₁ := Option.some.inj (hnibble 1 (by decide))
    have h₂ : nibbleOf (v 2) 0 = n₂ := Option.some.inj (hnibble 2 (by decide))
    have h₃ : nibbleOf (v 2) 1 = n₃ := Option.some.inj (hnibble 3 (by decide))
    have h₄ : nibbleOf (v 1) 0 = n₄ := Option.some.inj (hnibble 4 (by decide))
    have h₅ : nibbleOf (v 1) 1 = n₅ := Option.some.inj (hnibble 5 (by decide))
    have h₆ : nibbleOf (v 0) 0 = n₆ := Option.some.inj (hnibble 6 (by decide))
    have h₇ : nibbleOf (v 0) 1 = n₇ := Option.some.inj (hnibble 7 (by decide))
    rw [toNat_of_nibbles (v 3), toNat_of_nibbles (v 2), toNat_of_nibbles (v 1),
      toNat_of_nibbles (v 0), h₀, h₁, h₂, h₃, h₄, h₅, h₆, h₇, hexNumber]
    simp only [List.foldl_cons, List.foldl_nil]
    congr 1
    omega

/-- **Typing hex digits writes them where the screen shows them**, and
eight of them from the start of a word in word view make that word the
number typed. -/
theorem typing_right {app : SimApp} {p : ℕ} {nibbles : List (BitVec 4)}
    (hf : app.focus = .memory) (h : app.CursorAt p) (hlen : p + nibbles.length ≤ numDigits) :
    ∃ app', typeNibbles nibbles app = some app' ∧ app.Typed p nibbles app' ∧
      (app.view = .word → p % 8 = 0 → nibbles.length = 8 →
        (app'.perilus.getMemory (p / 8)).map BitVec.toNat = some (hexNumber nibbles)) := by
  obtain ⟨app', hrun, htyped⟩ := typeNibbles_typed nibbles hf h hlen
  refine ⟨app', hrun, htyped, ?_⟩
  intro hview hp hn
  have hw : p / 8 < Simulator.memorySizeWords := by
    have hlt := h.lt
    rw [numDigits, totalRows, wordsPerRow] at hlt
    rw [Simulator.memorySizeWords] at *
    omega
  refine getMemory_hexNumber (htyped.view.trans hview) hw hn ?_
  intro j hj
  rw [show 8 * (p / 8) + j = p + j by omega]
  exact htyped.typed j (by omega)

/-- Eight digits into the last word of a new machine. -/
theorem typing_right_last :
    ∃ app', typeNibbles [0xd, 0xe, 0xa, 0xd, 0xb, 0xe, 0xe, 0xf]
        (withCursor { SimApp.new with focus := .memory } 8388600) = some app' ∧
      (app'.perilus.getMemory 1048575).map BitVec.toNat = some 0xdeadbeef := by
  have hat : (withCursor { SimApp.new with focus := .memory } 8388600).CursorAt 8388600 :=
    withCursor_cursorAt (by decide)
  have hlen : 8388600 + ([0xd, 0xe, 0xa, 0xd, 0xb, 0xe, 0xe, 0xf] : List (BitVec 4)).length ≤
      numDigits := by decide
  obtain ⟨app', hrun, -, hword⟩ := typing_right rfl hat hlen
  exact ⟨app', hrun, hword rfl rfl rfl⟩

end SimApp

end Perilus

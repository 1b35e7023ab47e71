import Perilus.Gui.Reference
import Perilus.Gui.Window
import Perilus.Simulator.Image
/-!
# Debugger — the screen shows the reference

The two memory views and the register grid are the numbers of the
reference machine, digit by digit, with its cursor and its pc marked; so
whatever a session is made of, its user sees the reference. The names of
the registers, the status line and the switches are not the machine's, and
`Display` leaves them out.
-/

namespace Perilus

open ByteMemory Digits Transition

/-! ## The screen of the reference -/

/-- **What a screen shows of the machine and its cursors.** -/
structure Display where
  state : String
  controlUnit : String
  cells : List (List Glyph)
  freeRun : String
  byteView : Bool
  addressInput : String
  selected : String
  rows : List MemoryRow

def Screen.display (s : Screen) : Display where
  state := s.state
  controlUnit := s.controlUnit
  cells := s.registers.map RegisterCell.digits
  freeRun := s.freeRun
  byteView := s.byteView
  addressInput := s.addressInput
  selected := s.selected
  rows := s.rows

namespace IsaApp

variable (t : IsaApp)

/-- How a byte is painted that is not under the cursor. -/
def byteInk (a : ℕ) : Ink := if a / 4 = t.timed.machine.pc / 4 then .pc else .text

/-- The digit at a position. -/
def memoryGlyph (p : ℕ) : Glyph where
  ch := Nat.digitChar
    (Digits.digit 16 (byteAt t.timed.machine.mem (digitByte t.view p)).toNat (1 - p % 2))
  ink := if t.focus = .memory ∧ p = t.digit then .cursor else t.byteInk (digitByte t.view p)

/-- A number as a character, if it is one of the printable ones of ASCII. -/
def asciiChar (n : ℕ) : Char := if 32 ≤ n ∧ n < 127 then Char.ofNat n else '.'

/-- A byte as a character, the same in both views. -/
def asciiGlyph (a : ℕ) : Glyph where
  ch := asciiChar (byteAt t.timed.machine.mem a).toNat
  ink := if t.focus = .memory ∧ a = t.byte then .cursor else t.byteInk a

/-- The number in a cell: 0 is the pc. -/
def cellValue (i : Fin 32) : ℕ := if i = 0 then t.timed.machine.pc else t.timed.machine.x i

/-- A digit of a cell. -/
def cellGlyph (i : Fin 32) (nib : ℕ) : Glyph where
  ch := Nat.digitChar (Digits.digit 16 (t.cellValue i) (7 - nib))
  ink := if t.focus = .registers ∧ 8 * i.val + nib = t.cell then .cursor
    else if i = 0 then .pc else .text

def memoryRow (row : ℕ) : MemoryRow where
  address := hex08 (BitVec.ofNat 32 (32 * row))
  digits := (List.range 64).map fun col => t.memoryGlyph (64 * row + col)
  ascii := (List.range 32).map fun i => t.asciiGlyph (32 * row + i)

def cellDigits (i : Fin 32) : List Glyph := (List.range 8).map (t.cellGlyph i)

/-- **The display**, between two words, with these rows in view. -/
def display (rows : ℕ × ℕ) : Display where
  state := "state: " ++ t.runState.text
  controlUnit := "cu: 0"
  cells := (List.finRange 32).map t.cellDigits
  freeRun := if t.runState = .freeRun then "Stop [ctrl+space]" else "Free run [ctrl+space]"
  byteView := t.view = .byte
  addressInput := t.addressInput
  selected := "selected 0x" ++ hex08 (BitVec.ofNat 32 t.byte)
  rows := (List.range' rows.1 (rows.2 - rows.1)).map t.memoryRow

/-- **A digit of memory is marked** where the cursor is, if its pane has the
focus. -/
theorem memoryGlyph_ink_iff (p : ℕ) :
    (t.memoryGlyph p).ink = .cursor ↔ t.focus = .memory ∧ p = t.digit := by
  rw [memoryGlyph, byteInk]
  split_ifs with hcursor <;> simp [hcursor]

/-- **And so is one of a cell.** -/
theorem cellGlyph_ink_iff (i : Fin 32) (nib : ℕ) :
    (t.cellGlyph i nib).ink = .cursor ↔ t.focus = .registers ∧ 8 * i.val + nib = t.cell := by
  rw [cellGlyph]
  dsimp only
  split_ifs with hcursor <;> simp [hcursor]

end IsaApp

/-! ## Digits -/

theorem mapM_eq_some_map {α β : Type} {f : α → Option β} {g : α → β} {as : List α}
    (h : ∀ a ∈ as, f a = some (g a)) : as.mapM f = some (as.map g) := by
  induction as with
  | nil => rfl
  | cons a as ih =>
    have hrest := ih fun b hb => h b (List.mem_cons_of_mem a hb)
    rw [List.mapM_cons, h a List.mem_cons_self, hrest]
    rfl

theorem hexChar_eq {b : BitVec 8} {d : ℕ} (hb : b.toNat = d) (hd : d < 16) :
    hexChar b = Nat.digitChar d := by
  rw [hexChar, hb, if_pos hd]

theorem digitByte_injective {view : ViewMode} {p q : ℕ} (h : digitByte view p = digitByte view q)
    (hn : p % 2 = q % 2) : p = q := by
  cases view <;> simp only [digitByte] at h <;> omega

/-- Two addresses lie in one word. -/
theorem and_not_three_eq_iff (a b : BitVec 32) :
    a &&& ~~~3 = b &&& ~~~3 ↔ a.toNat / 4 = b.toNat / 4 := by
  have ha := Bits.toNat_and_not_low a 2
  have hb := Bits.toNat_and_not_low b 2
  rw [← BitVec.toNat_inj]
  change (a &&& ~~~3).toNat = a.toNat / 4 * 4 at ha
  change (b &&& ~~~3).toNat = b.toNat / 4 * 4 at hb
  omega

namespace Shows

variable {app : SimApp} {t : IsaApp}

theorem pc_eq (h : Shows app t) (h0 : t.timed.phase = 0) :
    app.currentPc.toNat = t.timed.machine.pc := by
  rw [h.machine.currentPc h0, ← h.machine.lockstep.isa h0]
  rfl

theorem addressInk_eq (h : Shows app t) (h0 : t.timed.phase = 0) {addr : BitVec 32} {a : ℕ}
    (ha : addr.toNat = a) : app.addressInk addr = t.byteInk a := by
  rw [SimApp.addressInk, IsaApp.byteInk]
  refine if_congr ?_ rfl rfl
  rw [and_not_three_eq_iff, ha, h.pc_eq h0]

/-- A byte of memory, by its address. -/
theorem getMemoryByte_eq (h : Shows app t) (h0 : t.timed.phase = 0) {addr : BitVec 32} {a : ℕ}
    (ha : addr.toNat = a) (hlt : a < memoryBytes) :
    app.perilus.getMemoryByte addr = some (byteAt t.timed.machine.mem a) := by
  rw [app.perilus.getMemoryByte_flat (ha ▸ hlt), h.mem_eq h0, ha]

/-- **A digit on the screen** is the reference's. -/
theorem digitGlyph_eq (h : Shows app t) (h0 : t.timed.phase = 0) {row col : ℕ}
    (hrow : row < SimApp.totalRows) (hcol : col < 64) :
    app.digitGlyph (BitVec.ofNat 32 (row * bytesPerRow)) (digitOffset app.view col, col % 2) =
      some (t.memoryGlyph (64 * row + col)) := by
  have hrows : SimApp.totalRows = 131072 := rfl
  have hbytes : memoryBytes = 4194304 := rfl
  have hoffset := digitOffset_lt app.view hcol
  have hplace : row * bytesPerRow + digitOffset app.view col =
      digitByte t.view (64 * row + col) := by
    rw [← digitByte_eq, ← h.panes.view, show (64 * row + col) / 64 = row by omega,
      show (64 * row + col) % 64 = col by omega]
  rw [bytesPerRow] at hoffset hplace
  set addr := BitVec.ofNat 32 (row * bytesPerRow) + BitVec.ofNat 32 (digitOffset app.view col)
    with haddr
  have hnat : addr.toNat = digitByte t.view (64 * row + col) := by
    rw [haddr, BitVec.toNat_add, BitVec.toNat_ofNat, BitVec.toNat_ofNat, bytesPerRow]
    omega
  have hbyte := h.getMemoryByte_eq h0 hnat (by omega)
  have hcursor : (app.focus = .memory ∧ addr = app.memAddr ∧ col % 2 = app.memNib) ↔
      t.focus = .memory ∧ 64 * row + col = t.digit := by
    rw [h.panes.focus, h.panes.memNib, ← BitVec.toNat_inj, hnat, h.panes.toNat_memAddr]
    refine and_congr_right fun _ => ?_
    constructor
    · rintro ⟨hdigit, hnib⟩
      exact digitByte_injective hdigit (by omega)
    · intro heq
      rw [heq]
      exact ⟨rfl, by omega⟩
  rw [SimApp.digitGlyph]
  dsimp only
  rw [← haddr, hbyte, Option.bind_eq_bind, Option.bind_some, IsaApp.memoryGlyph]
  congr 2
  · generalize byteAt t.timed.machine.mem (digitByte t.view (64 * row + col)) = byte
    have hlt := byte.isLt
    refine hexChar_eq ?_ (digit_lt (by decide))
    rw [Digits.digit, show (64 * row + col) % 2 = col % 2 by omega]
    split
    · next heven =>
      rw [heven, BitVec.toNat_ushiftRight, Nat.shiftRight_eq_div_pow]
      omega
    · next hodd =>
      rw [show col % 2 = 1 by omega, BitVec.toNat_and]
      exact (Nat.and_two_pow_sub_one_eq_mod byte.toNat 4).trans (by omega)
  · rw [h.addressInk_eq h0 hnat]
    exact if_congr hcursor rfl rfl

theorem printable_eq (b : BitVec 8) : printable b = IsaApp.asciiChar b.toNat := by
  rw [printable, IsaApp.asciiChar]
  refine if_congr ?_ rfl rfl
  rw [show ' '.toNat = 32 from rfl, show '~'.toNat = 126 from rfl, Nat.lt_succ_iff]

/-- The four characters of a word. -/
theorem asciiChars_word (m : Words memoryBits) {q : ℕ} (hq : q < 2 ^ memoryBits) :
    (toLeBytes (wordOfVec (m (BitVec.ofNat memoryBits q)))).map printable =
      (List.range 4).map fun i => printable (byteAt (Memory.flat m) (4 * q + i)) := by
  have hlane : ∀ i : Fin 4, byteAt (Memory.flat m) (4 * q + i) = m (BitVec.ofNat memoryBits q) i :=
    fun i => Memory.byteAt_flat m hq i.isLt
  rw [Simulator.toLeBytes_wordOfVec, List.map_ofFn, ← List.map_coe_finRange_eq_range,
    List.map_map, List.ofFn_eq_map]
  refine List.map_congr_left fun i _ => ?_
  rw [Function.comp_apply, Function.comp_apply, hlane]

/-- **The characters of a row**, whichever view takes them. -/
theorem asciiChars_eq (h : Shows app t) (h0 : t.timed.phase = 0) {row : ℕ}
    (hrow : row < SimApp.totalRows) :
    app.asciiChars row = some ((List.range 32).map fun i =>
      printable (byteAt t.timed.machine.mem (32 * row + i))) := by
  have hrows : SimApp.totalRows = 131072 := rfl
  have hbytes : memoryBytes = 4194304 := rfl
  have hwords : Simulator.memorySizeWords = 1048576 := rfl
  rw [SimApp.asciiChars]
  split
  · rw [mapM_eq_some_map (g := fun word =>
      wordOfVec (app.perilus.rtl.memory (BitVec.ofNat memoryBits (8 * row + word)))) ?_]
    · have hgroups : ∀ f : ℕ → Char, (List.range 32).map f =
          (List.range 8).flatMap fun word => (List.range 4).map fun i => f (4 * word + i) :=
        fun f => rfl
      rw [Option.bind_eq_bind, Option.bind_some, hgroups, h.mem_eq h0]
      refine congrArg some ?_
      rw [List.flatMap_map, List.map_flatMap]
      refine List.flatMap_congr fun word hword => ?_
      have hlt := List.mem_range.1 hword
      rw [wordsPerRow] at hlt
      rw [asciiChars_word _ (show 8 * row + word < 2 ^ 20 by omega)]
      refine List.map_congr_left fun i _ => ?_
      rw [show 4 * (8 * row + word) + i = 32 * row + (4 * word + i) by omega]
    · intro word hword
      have hlt := List.mem_range.1 hword
      rw [wordsPerRow] at hlt ⊢
      rw [Nat.mul_comm]
      exact app.perilus.getMemory_of_lt (by omega)
  · rw [bytesPerRow]
    refine mapM_eq_some_map fun i hi => ?_
    have hlt := List.mem_range.1 hi
    have hnat : (BitVec.ofNat 32 (row * 32) + BitVec.ofNat 32 i).toNat = 32 * row + i := by
      rw [BitVec.toNat_add, BitVec.toNat_ofNat, BitVec.toNat_ofNat]
      omega
    rw [h.getMemoryByte_eq h0 hnat (by omega)]
    rfl

/-- **A row of the memory view.** -/
theorem memoryRow_eq (h : Shows app t) (h0 : t.timed.phase = 0) {row : ℕ}
    (hrow : row < SimApp.totalRows) : app.memoryRow row = some (t.memoryRow row) := by
  have hrows : SimApp.totalRows = 131072 := rfl
  have hdigits : (rowDigits app.view).mapM (app.digitGlyph (BitVec.ofNat 32 (row * bytesPerRow))) =
      some ((List.range 64).map fun col => t.memoryGlyph (64 * row + col)) := by
    rw [rowDigits_eq, List.mapM_map]
    refine mapM_eq_some_map fun col hcol => ?_
    exact h.digitGlyph_eq h0 hrow (List.mem_range.1 hcol)
  obtain ⟨gaps, hgaps⟩ := app.exists_gaps
  rw [SimApp.memoryRow]
  dsimp only
  rw [hgaps, hdigits, Option.bind_eq_bind, Option.bind_some, Option.bind_eq_bind,
    Option.bind_some, h.asciiChars_eq h0 hrow, Option.bind_eq_bind, Option.bind_some]
  refine congrArg some ?_
  rw [IsaApp.memoryRow, bytesPerRow, Nat.mul_comm row 32, MemoryRow.mk.injEq]
  refine ⟨rfl, rfl, List.ext_getElem (by simp) fun i hi _ => ?_⟩
  have hlt : i < 32 := by simpa using hi
  have hnat : (BitVec.ofNat 32 (32 * row) + BitVec.ofNat 32 i).toNat = 32 * row + i := by
    rw [BitVec.toNat_add, BitVec.toNat_ofNat, BitVec.toNat_ofNat]
    omega
  have hcursor : ((app.focus = .memory ∧ app.memAddr.toNat / 32 = row) ∧
      i = app.memAddr.toNat % 32) ↔ t.focus = .memory ∧ 32 * row + i = t.byte := by
    rw [h.panes.focus, h.panes.toNat_memAddr, and_assoc]
    refine and_congr_right fun _ => ?_
    omega
  rw [List.getElem_mapIdx, List.getElem_map, List.getElem_map, List.getElem_range,
    h.addressInk_eq h0 hnat, IsaApp.asciiGlyph, printable_eq]
  congr 1
  exact if_congr hcursor rfl rfl

/-- The number in a cell. -/
theorem cellValue_eq (h : Shows app t) (h0 : t.timed.phase = 0) (i : Fin 32) :
    (if i = 0 then app.currentPc else app.perilus.getRegisters i).toNat = t.cellValue i := by
  rw [IsaApp.cellValue]
  split
  · exact h.pc_eq h0
  · rw [← h.machine.lockstep.isa h0]
    rfl

/-- **A digit of a cell** is the reference's. -/
theorem cellGlyph_eq (h : Shows app t) (i : Fin 32) {value : BitVec 32}
    (hvalue : value.toNat = t.cellValue i) {nib : ℕ} (hnib : nib < 8) :
    app.cellGlyph i value (if i = 0 then .pc else .text) nib = some (t.cellGlyph i nib) := by
  have hcell := h.panes.cell
  have hregNib := h.panes.regNib
  rw [app.cellGlyph_eq i value _ (Nat.le_of_lt_succ hnib), IsaApp.cellGlyph]
  congr 2
  · refine hexChar_eq ?_ (digit_lt (by decide))
    have hmask : (value >>> ((7 - nib) * 4) &&& 0xf).toNat =
        value.toNat / 2 ^ ((7 - nib) * 4) % 2 ^ 4 := by
      rw [BitVec.toNat_and, BitVec.toNat_ushiftRight, Nat.shiftRight_eq_div_pow]
      exact Nat.and_two_pow_sub_one_eq_mod _ 4
    rw [BitVec.toNat_setWidth, hmask, hvalue, Digits.digit, Nat.mul_comm (7 - nib) 4, Nat.pow_mul]
    exact Nat.mod_eq_of_lt (Nat.lt_trans (Nat.mod_lt _ (by decide)) (by decide))
  · refine if_congr ?_ rfl rfl
    rw [h.panes.focus]
    refine and_congr_right fun _ => ?_
    omega

/-- **A cell of the register grid**, whatever it is called. -/
theorem registerCell_eq (h : Shows app t) (h0 : t.timed.phase = 0) (names : Bool) (i : Fin 32) :
    ∃ label, app.registerCell names i = some ⟨label, t.cellDigits i⟩ := by
  have hvalue := h.cellValue_eq h0 i
  have hdigits : (List.range 8).mapM (app.cellGlyph i
      (if i = 0 then app.currentPc else app.perilus.getRegisters i)
      (if i = 0 then .pc else .text)) = some (t.cellDigits i) :=
    mapM_eq_some_map fun nib hnib => h.cellGlyph_eq i hvalue (List.mem_range.1 hnib)
  rw [SimApp.registerCell]
  by_cases hi : i = 0
  · simp only [hi, if_true] at hdigits ⊢
    rw [hdigits]
    exact ⟨_, rfl⟩
  · simp only [hi, if_false] at hdigits ⊢
    rw [hdigits]
    exact ⟨_, rfl⟩

theorem paintedCells_eq {w : Window} (h : Shows w.toSimApp t) (h0 : t.timed.phase = 0) :
    ∃ cells, w.paintedCells = some cells ∧
      cells.map RegisterCell.digits = (List.finRange 32).map t.cellDigits := by
  choose label hlabel using fun i => h.registerCell_eq h0 w.showAliases i
  refine ⟨_, mapM_eq_some_map fun i _ => hlabel i, ?_⟩
  rw [List.map_map]
  rfl

/-- **The display**, between two words. -/
theorem display_eq {w : Window} {s : Screen} (h : Shows w.toSimApp t) (h0 : t.timed.phase = 0)
    (hview : w.memViewport.2 ≤ SimApp.totalRows) (hs : w.screen = some s) :
    s.display = t.display w.memViewport := by
  have hrows : w.paintedRows =
      some ((List.range' w.memViewport.1 (w.memViewport.2 - w.memViewport.1)).map t.memoryRow) := by
    refine mapM_eq_some_map fun row hrow => h.memoryRow_eq h0 ?_
    have hlt := List.mem_range'_1.1 hrow
    omega
  have hstate : w.perilus.getControlUnitState = 0 :=
    w.perilus.getControlUnitState_eq_zero.2 (h.machine.lockstep.atFetch_iff.2 h0)
  have hselected : w.memAddr = BitVec.ofNat 32 t.byte := by
    rw [← h.panes.toNat_memAddr, BitVec.ofNat_toNat, BitVec.setWidth_eq]
  obtain ⟨cells, hcells, hdigits⟩ := h.paintedCells_eq h0
  rw [Window.screen, hcells, hrows, Option.bind_eq_bind, Option.bind_some, Option.bind_eq_bind,
    Option.bind_some, hstate, hselected, h.runState, h.panes.view, h.panes.addressInput] at hs
  obtain rfl := Option.some.inj hs
  rw [Screen.display, hdigits]
  rfl

end Shows

/-! ## Sessions -/

/-- The events the reference sees. -/
def Event.seen : Event → Option Command
  | .command c => some c
  | _ => none

section Events

variable {w : Window} {t : IsaApp}

/-- Another trace, another time and another status line. -/
theorem Shows.congr {app app' : SimApp} (h : Shows app t)
    (hrtl : app'.perilus.rtl = app.perilus.rtl) (hreset : app'.perilus.reset = app.perilus.reset)
    (hpc : app'.currentPc = app.currentPc) (hpanes : app'.panes = app.panes)
    (hstate : app'.runState = app.runState) (hcycles : app'.runCycles = app.runCycles) :
    Shows app' t := by
  refine ⟨⟨hreset.trans h.machine.reset, ?_, ?_⟩, h.panes.congr hpanes,
    hstate.trans h.runState, hcycles.trans h.runCycles⟩
  · rw [hrtl]
    exact h.machine.lockstep
  · rw [hrtl, hpc]
    exact h.machine.currentPc

theorem Shows.openTrace (h : Shows w.toSimApp t) (host : Host) (traceFile : String) :
    Shows (w.openTrace host traceFile).toSimApp t := by
  rw [Window.openTrace]
  by_cases hcan : Simulator.CanStart (some host.created) (fileBytes traceFile)
  · rw [Simulator.startTrace_of_canStart _ hcan]
    exact h.congr rfl rfl rfl rfl rfl rfl
  · obtain ⟨e, he⟩ := Simulator.startTrace_of_not_canStart w.perilus hcan
    rw [he]
    exact h.congr rfl rfl rfl rfl rfl rfl

/-- **What the reference does not see** changes nothing it has. -/
theorem Shows.unseen (h : Shows w.toSimApp t) {e : Event} (hseen : e.seen = none)
    (hnamed : ∀ host, e = .toggleTrace host → host.traceFile ≠ none) :
    ∃ w', w.exec e = some w' ∧ Shows w'.toSimApp t := by
  cases e with
  | command c => cases hseen
  | toggleTrace host =>
    obtain ⟨traceFile, hfile⟩ := Option.ne_none_iff_exists'.1 (hnamed host rfl)
    change ∃ w', w.toggleTrace host = some w' ∧ Shows w'.toSimApp t
    rw [Window.toggleTrace, hfile]
    split
    · exact ⟨_, rfl, h.congr rfl rfl rfl rfl rfl rfl⟩
    · exact ⟨_, rfl, h.openTrace host traceFile⟩
  | showRegisters =>
    obtain ⟨painted, hpainted⟩ := w.exists_paintedCells
    change ∃ w', w.showRegisters = some w' ∧ Shows w'.toSimApp t
    rw [Window.showRegisters, hpainted]
    exact ⟨w, rfl, h⟩
  | showMemory rows =>
    obtain ⟨last, row, hlook⟩ := w.lookAtPc_eq
    obtain ⟨painted, hpainted⟩ := Window.exists_paintedRows
      { w.lookAtPc with scrollToRow := none, memViewport := (rows.first, rows.last) }
      rows.le_totalRows
    change ∃ w', w.showMemory rows = some w' ∧ Shows w'.toSimApp t
    rw [Window.showMemory, hpainted]
    refine ⟨_, rfl, ?_⟩
    rw [hlook]
    exact h.congr rfl rfl rfl rfl rfl rfl
  | _ => exact ⟨_, rfl, h.congr rfl rfl rfl rfl rfl rfl⟩

theorem Shows.seen (h : Shows w.toSimApp t) {e : Event} {c : Command} {t' : IsaApp}
    (hseen : e.seen = some c) (hexec : t.exec c = some t') :
    ∃ w', w.exec e = some w' ∧ Shows w'.toSimApp t' := by
  cases e with
  | command c' =>
    obtain rfl := Option.some.inj hseen
    obtain ⟨app, happ, hshows⟩ := h.exec hexec
    refine ⟨{ w with toSimApp := app }, ?_, hshows⟩
    rw [Window.exec, happ, Option.map_some]
  | _ => cases hseen

end Events

/-- **What the user of a session sees is the reference.** Whatever is
pressed, clicked and typed, frame after frame: if the reference debugger
takes its commands, there is a screen, and between two words every digit
and character in view and every mark on them is the reference's, and a
saved file is its memory. Traces, names, follow and scrolling change
nothing of that. -/
theorem session_screen (file : Option (String × Except String (List (BitVec 8))))
    (frames : List Frame)
    (hnamed : ∀ host, .toggleTrace host ∈ Window.sessionEvents file frames → host.traceFile ≠ none)
    {t : IsaApp}
    (hrun : run IsaApp.exec ((Window.sessionEvents file frames).filterMap Event.seen) IsaApp.new =
      some t) :
    ∃ w s, Window.session file frames = some w ∧ w.screen = some s ∧
      (t.timed.phase = 0 → s.display = t.display w.memViewport ∧
        w.perilus.saveFile = List.ofFn t.timed.machine.mem) := by
  obtain ⟨w, hw, hshows⟩ := run_of_simulates_seen (S := Window) (s := Window.new)
    (R := fun w t => Shows w.toSimApp t) Event.seen
    (fun e => ∀ host, e = .toggleTrace host → host.traceFile ≠ none)
    (fun h hseen hspec => h.seen hseen hspec) (fun h hok hseen => h.unseen hseen hok)
    (fun e he host hhost => hnamed host (hhost ▸ he)) shows_new hrun
  have hsound := Window.Sound.new.run (Window.gui_sessionEvents file frames) hw
  obtain ⟨s, hs⟩ := w.exists_screen hsound.inBounds.memViewport.2
  refine ⟨w, s, (Window.session_eq_run file frames).trans hw, hs, ?_⟩
  intro h0
  refine ⟨hshows.display_eq h0 hsound.inBounds.memViewport.2 hs, ?_⟩
  rw [Simulator.saveFile, Simulator.memoryBytes_eq, hshows.mem_eq h0]

/-- `addi x1, x0, 5` loaded and executed: the cell of `x1`. -/
theorem session_screen_addi :
    ∃ w s, Window.session (some ("addi.bin", .ok [0x93, 0x00, 0x50, 0x00]))
        [{ keys := some { nextInstruction := true } }] = some w ∧ w.screen = some s ∧
      (s.display.cells.map fun digits => String.ofList (digits.map Glyph.ch))[1]? =
        some "00000005" := by
  obtain ⟨w, s, hw, hs, hdisplay⟩ := session_screen
    (some ("addi.bin", .ok [0x93, 0x00, 0x50, 0x00])) [{ keys := some { nextInstruction := true } }]
    (by simp [Window.sessionEvents, launchEvents, Frame.events, Actions.events, Controls.events,
      MemoryPane.events, Event.listed]) rfl
  refine ⟨w, s, hw, hs, ?_⟩
  rw [(hdisplay rfl).1]
  rfl

end Perilus

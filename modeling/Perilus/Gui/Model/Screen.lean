import Perilus.Gui.Model.App
/-!
# Debugger — what is painted

The characters `registers_ui` and `memory_row` paint, and how. Where they
stand is left to egui, but for the subtractions on the way.
-/

namespace Perilus

/-- How a character is painted: in the color of the text or the pc's, or
reversed under the cursor. -/
inductive Ink
  | text | pc | cursor
  deriving DecidableEq

structure Glyph where
  ch : Char
  ink : Ink
  deriving DecidableEq

/-- `hex_char`. -/
def hexChar (nibble : BitVec 8) : Char :=
  if nibble.toNat < 16 then Nat.digitChar nibble.toNat else '?'

/-- `printable`. -/
def printable (byte : BitVec 8) : Char :=
  if ' '.toNat ≤ byte.toNat ∧ byte.toNat ≤ '~'.toNat then Char.ofNat byte.toNat else '.'

/-- `register_alias`. -/
def registerAlias : ℕ → String
  | 0 => "zero"
  | 1 => "ra"
  | 2 => "sp"
  | 3 => "gp"
  | 4 => "tp"
  | 5 => "t0"
  | 6 => "t1"
  | 7 => "t2"
  | 8 => "s0/fp"
  | 9 => "s1"
  | 10 => "a0"
  | 11 => "a1"
  | 12 => "a2"
  | 13 => "a3"
  | 14 => "a4"
  | 15 => "a5"
  | 16 => "a6"
  | 17 => "a7"
  | 18 => "s2"
  | 19 => "s3"
  | 20 => "s4"
  | 21 => "s5"
  | 22 => "s6"
  | 23 => "s7"
  | 24 => "s8"
  | 25 => "s9"
  | 26 => "s10"
  | 27 => "s11"
  | 28 => "t3"
  | 29 => "t4"
  | 30 => "t5"
  | 31 => "t6"
  | _ => "??"

/-- `impl Display for RunState`. -/
def RunState.text : RunState → String
  | .idle => "Idle"
  | .freeRun => "Running"
  | .runToPc pc => "Run to 0x" ++ hex08 pc

/-- A row of the memory view. -/
structure MemoryRow where
  address : String
  digits : List Glyph
  ascii : List Glyph

/-- A cell of the register grid. -/
structure RegisterCell where
  label : String
  digits : List Glyph

namespace SimApp

variable (app : SimApp)

/-- The ink of a byte of memory that is not under the cursor. -/
def addressInk (addr : BitVec 32) : Ink :=
  if addr &&& ~~~3 = app.currentPc &&& ~~~3 then .pc else .text

/-- A hex digit of a row, by its offset and nibble. -/
def digitGlyph (rowAddr : BitVec 32) (place : ℕ × ℕ) : Option Glyph := do
  let addr := rowAddr + BitVec.ofNat 32 place.1
  let byte ← app.perilus.getMemoryByte addr
  let digit := if place.2 = 0 then byte >>> 4 else byte &&& 0xf
  let ink := if app.focus = .memory ∧ addr = app.memAddr ∧ place.2 = app.memNib then .cursor
    else app.addressInk addr
  return ⟨hexChar digit, ink⟩

/-- The characters of a row, which the two views take from the words and
from the bytes. -/
def asciiChars (row : ℕ) : Option (List Char) :=
  match app.view with
  | .word => do
    let words ← (List.range wordsPerRow).mapM fun word =>
      app.perilus.getMemory (row * wordsPerRow + word)
    return (words.flatMap toLeBytes).map printable
  | .byte => (List.range bytesPerRow).mapM fun i => do
    let byte ← app.perilus.getMemoryByte
      (BitVec.ofNat 32 (row * bytesPerRow) + BitVec.ofNat 32 i)
    return printable byte

/-- `memory_row`. -/
def memoryRow (row : ℕ) : Option MemoryRow := do
  let rowAddr := BitVec.ofNat 32 (row * bytesPerRow)
  let cursorInRow := app.focus = .memory ∧ app.memAddr.toNat / bytesPerRow = row
  let cursorIndex := app.memAddr.toNat % bytesPerRow
  -- the gaps between the groups
  let _ ← checkedSub (64 / app.group) 1
  let digits ← (rowDigits app.view).mapM (app.digitGlyph rowAddr)
  let chars ← app.asciiChars row
  let ascii := chars.mapIdx fun i ch =>
    ⟨ch, if cursorInRow ∧ i = cursorIndex then .cursor
      else app.addressInk (rowAddr + BitVec.ofNat 32 i)⟩
  return { address := hex08 rowAddr, digits, ascii }

/-- A digit of a cell of the register grid that holds a value. -/
def cellGlyph (cellIndex : Fin 32) (value : BitVec 32) (color : Ink) (nib : ℕ) : Option Glyph := do
  let digit := ((value >>> ((← checkedSub 7 nib) * 4)) &&& 0xf).setWidth 8
  return ⟨hexChar digit,
    if app.focus = .registers ∧ cellIndex.val = app.regIndex ∧ nib = app.regNib then .cursor
    else color⟩

/-- A cell as `registers_ui` paints it, with or without the ABI names. -/
def registerCell (showAliases : Bool) (cellIndex : Fin 32) : Option RegisterCell := do
  let (label, value, color) :=
    if cellIndex = 0 then ("pc", app.currentPc, Ink.pc)
    else
      (if showAliases then registerAlias cellIndex else "x" ++ toString cellIndex.val,
        app.perilus.getRegisters cellIndex, Ink.text)
  let digits ← (List.range 8).mapM (app.cellGlyph cellIndex value color)
  return { label, digits }

end SimApp

end Perilus

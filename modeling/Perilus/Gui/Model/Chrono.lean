import Perilus.Gui.Model.App
/-!
# Debugger — the time in the name of a trace file

`chrono_lite` of `app.rs`. Its arithmetic is in `u64`, and an operation
that would leave the range is `none`, the panic of a build with overflow
checks. A build without them goes on with the wrapped number and prints
some text, which is not modelled.
-/

namespace Perilus

/-- `u64` addition. -/
def checkedAdd (m n : ℕ) : Option ℕ := if m + n < 2 ^ 64 then some (m + n) else none

/-- `u64` multiplication. -/
def checkedMul (m n : ℕ) : Option ℕ := if m * n < 2 ^ 64 then some (m * n) else none

/-- The numbers `chrono_lite` prints. -/
@[ext] structure Chrono where
  year : ℕ
  m : ℕ
  d : ℕ
  hours : ℕ
  minutes : ℕ
  seconds : ℕ
  deriving DecidableEq

/-- The year of an era, from the day of the era. -/
def chronoYoe (doe : ℕ) : Option ℕ := do
  let n ← checkedSub doe (doe / 1461)
  let n ← checkedAdd n (doe / 36524)
  let n ← checkedSub n (doe / 146096)
  return n / 365

/-- `doe - (365 * yoe + yoe / 4 - yoe / 100)`. -/
def chronoDoy (doe yoe : ℕ) : Option ℕ := do
  let n ← checkedMul 365 yoe
  let n ← checkedAdd n (yoe / 4)
  let n ← checkedSub n (yoe / 100)
  checkedSub doe n

/-- `(5 * doy + 2) / 153`. -/
def chronoMp (doy : ℕ) : Option ℕ := do
  let n ← checkedMul 5 doy
  let n ← checkedAdd n 2
  return n / 153

/-- `doy - (153 * mp + 2) / 5 + 1`. -/
def chronoD (doy mp : ℕ) : Option ℕ := do
  let n ← checkedMul 153 mp
  let n ← checkedAdd n 2
  let n ← checkedSub doy (n / 5)
  checkedAdd n 1

/-- `if mp < 10 { mp + 3 } else { mp - 9 }`. -/
def chronoM (mp : ℕ) : Option ℕ := if mp < 10 then checkedAdd mp 3 else checkedSub mp 9

/-- `if m <= 2 { y + 1 } else { y }`. -/
def chronoYear (y m : ℕ) : Option ℕ := if m ≤ 2 then checkedAdd y 1 else some y

/-- The year, month and day of the day `doy` of a year `y` that begins in
March. -/
def chronoDate (y doy : ℕ) : Option (ℕ × ℕ × ℕ) := do
  let mp ← chronoMp doy
  let d ← chronoD doy mp
  let m ← chronoM mp
  let year ← chronoYear y m
  return (year, m, d)

/-- The year, month and day of the day `z`, numbered from the first of
March of the year 0. -/
def chronoCivil (z : ℕ) : Option (ℕ × ℕ × ℕ) := do
  let era := z / 146097
  let doe ← checkedSub z (← checkedMul era 146097)
  let yoe ← chronoYoe doe
  let y ← checkedAdd yoe (← checkedMul era 400)
  let doy ← chronoDoy doe yoe
  chronoDate y doy

/-- The body of `chrono_lite` up to its `format!`. -/
def chronoParts (secs : BitVec 64) : Option Chrono := do
  let days := secs.toNat / 86400
  let rem := secs.toNat % 86400
  let hours := rem / 3600
  let rem := rem % 3600
  let minutes := rem / 60
  let seconds := rem % 60
  let z ← checkedAdd days 719468
  let (year, m, d) ← chronoCivil z
  return { year, m, d, hours, minutes, seconds }

/-- The `format!` of `chrono_lite`. -/
def Chrono.text (c : Chrono) : String :=
  decPad 4 c.year ++ "-" ++ decPad 2 c.m ++ "-" ++ decPad 2 c.d ++ "T" ++ decPad 2 c.hours ++ ":" ++
    decPad 2 c.minutes ++ ":" ++ decPad 2 c.seconds ++ "Z"

/-- `chrono_lite`. -/
def chronoLite (secs : BitVec 64) : Option String := (chronoParts secs).map Chrono.text

end Perilus

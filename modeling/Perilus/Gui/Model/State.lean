import Mathlib.Data.Nat.Notation
import Mathlib.Data.List.Basic
/-!
# Debugger — the states of its panes

`state.rs`: the run state, the view and the focus, and the order of the
hex digits on a row of the memory view.
-/

namespace Perilus

inductive RunState
  | idle
  | freeRun
  | runToPc (target : BitVec 32)
  deriving DecidableEq, Repr

inductive ViewMode
  | word | byte
  deriving DecidableEq, Repr

/-- Which pane receives keyboard editing. -/
inductive Focus
  | registers | memory
  deriving DecidableEq, Repr

inductive Direction
  | left | right | up | down
  deriving DecidableEq, Repr

/-- `row_digits`: screen order of the 64 hex digits of a memory row, as
byte offset within the row and nibble, 0 the high one. Word view prints a
word big-endian, byte view its bytes in memory order. -/
def rowDigits : ViewMode → List (ℕ × ℕ)
  | .word =>
    (List.range 8).flatMap fun word =>
      (List.range 4).reverse.flatMap fun byte => [(word * 4 + byte, 0), (word * 4 + byte, 1)]
  | .byte => (List.range 32).flatMap fun byte => [(byte, 0), (byte, 1)]

end Perilus

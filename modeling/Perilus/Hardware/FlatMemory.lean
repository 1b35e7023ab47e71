import Perilus.Hardware.Helpers.Flat
/-!
# Perilus — the memory refines an array of bytes

One cycle of the module is one cycle of the array it lays out, so the
two agree over any history of writes, whatever widths and addresses
overlap in it.
-/

namespace Perilus

namespace Memory

variable {k : ℕ}

/-- The memory after some cycles, oldest first. -/
def run (memory : Words k) (cycles : List (In × Bool)) : Words k :=
  cycles.foldl (fun m c => clock m c.1 c.2) memory

/-- The array after the same cycles. -/
def runFlat (m : ByteMemory.Bytes (4 * 2 ^ k)) (cycles : List (In × Bool)) :
    ByteMemory.Bytes (4 * 2 ^ k) :=
  cycles.foldl (fun m c => clockFlat m c.1 c.2) m

/-- **One cycle.** -/
theorem flat_clock (memory : Words k) (io : In) (reset : Bool) :
    flat (clock memory io reset) = clockFlat (flat memory) io reset := by
  rw [clock, clockFlat]
  split
  · exact flat_stored memory io.address io.dataMask io.writeData
  · rfl

/-- **Any number of them.** -/
theorem flat_run (memory : Words k) (cycles : List (In × Bool)) :
    flat (run memory cycles) = runFlat (flat memory) cycles := by
  induction cycles generalizing memory with
  | nil => rfl
  | cons c cycles ih =>
    calc flat (run memory (c :: cycles))
        = flat (run (clock memory c.1 c.2) cycles) := rfl
      _ = runFlat (flat (clock memory c.1 c.2)) cycles := ih _
      _ = runFlat (clockFlat (flat memory) c.1 c.2) cycles := by rw [flat_clock]

end Memory

/-- **The memory refines a flat little-endian byte memory.** After any
cycles from any contents, a read of any address at any width and either
extension returns what the array of bytes holds there. -/
theorem memory_refines_flat {k : ℕ} (memory : Words k) (cycles : List (Memory.In × Bool))
    (address : BitVec 32) (dataMask : DataMask) (signExtData : Bool) :
    Memory.readData (Memory.run memory cycles) address dataMask signExtData =
      Memory.readFlat (Memory.runFlat (Memory.flat memory) cycles) address dataMask
        signExtData := by
  rw [Memory.readData_eq, Memory.flat_run]

/-- A byte stored with its offset in its word, then read back as a
half of another parity. -/
example :
    Memory.readData
      (Memory.run (k := 1) (fun _ => VecInit 0x11 0x22 0x33 0x44)
        [(⟨7, 0x8899, true, .byte, false⟩, false)])
      6 .half true = 0xffff9933 := by
  decide

end Perilus

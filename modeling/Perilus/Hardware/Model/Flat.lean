import Perilus.Common.ByteMemory
import Perilus.Hardware.Model.Memory
/-!
# Perilus — the memory a program sees

What `Memory` is for: an array of `4 * 2 ^ k` bytes, stored into and
loaded from at three widths. `flat` is how the words of the module lay
that array out, lane 0 of a word first.
-/

namespace Perilus

open ByteMemory

/-- The bytes an access covers. -/
def DataMask.width : DataMask → ℕ
  | byte => 1
  | half => 2
  | word => 4

@[instance] theorem neZero_bytes (k : ℕ) : NeZero (4 * 2 ^ k) := ⟨by positivity⟩

namespace Memory

variable {k : ℕ}

/-- The bytes of a memory of `2 ^ k` words. -/
def flat (memory : Words k) : Bytes (4 * 2 ^ k) := fun i =>
  memory (BitVec.ofNat k (i / 4)) (Fin.ofNat 4 i)

/-- One clock cycle of the array: a store at the access's place, or
nothing. -/
def clockFlat (m : Bytes (4 * 2 ^ k)) (io : In) (reset : Bool) : Bytes (4 * 2 ^ k) :=
  if io.writeEnable && !reset then
    store m (place (4 * 2 ^ k) io.dataMask.width io.address.toNat) io.dataMask.width
      io.writeData.toNat
  else m

/-- A read of the array: the number its bytes hold, at the width read,
sign- or zero-extended. At full width there is nothing to extend. -/
def readFlat (m : Bytes (4 * 2 ^ k)) (address : BitVec 32) (dataMask : DataMask)
    (signExtData : Bool) : BitVec 32 :=
  let v := BitVec.ofNat (8 * dataMask.width)
    (load m (place (4 * 2 ^ k) dataMask.width address.toNat) dataMask.width)
  if signExtData then v.signExtend 32 else v.setWidth 32

end Memory

end Perilus

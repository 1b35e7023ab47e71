import Mathlib.Algebra.GroupWithZero.Nat
import Perilus.Hardware.Model.Units
/-!
# Perilus — the memory

`memory.scala`, for a memory of `2 ^ k` words. A word is the
`Vec(4, UInt(8.W))` of the source; the write side builds a lane mask and
the lane data, the read side picks a lane or a pair and extends it.
Chisel truncates the index of a `Mem` to the bits its size needs.
-/

namespace Perilus

/-- `object DataMask`. -/
inductive DataMask
  | byte | half | word
  deriving DecidableEq, Repr

@[instance] theorem neZero_lanes : NeZero 4 := ⟨Nat.succ_ne_zero 3⟩

/-- `Vec(BytesPerWord, α)`. -/
abbrev Vec (α : Type) := Fin 4 → α

/-- `VecInit`. -/
def VecInit {α : Type} (x₀ x₁ x₂ x₃ : α) : Vec α := ![x₀, x₁, x₂, x₃]

/-- `Mem(numWords, Vec(BytesPerWord, UInt(8.W)))`. -/
abbrev Words (k : ℕ) := BitVec k → Vec (BitVec 8)

namespace Memory

/-- The module's inputs other than `reset`. -/
structure In where
  address : BitVec 32
  writeData : BitVec 32
  writeEnable : Bool
  dataMask : DataMask
  signExtData : Bool

/-- `address >> AddressShift`, as an index of the `Mem`. -/
def index (k : ℕ) (address : BitVec 32) : BitVec k := (address >>> 2).setWidth k

/-- `byteOffset`. -/
def byteOffset (address : BitVec 32) : BitVec 2 := (address &&& 3).setWidth 2

/-- The wire `maskValue`. -/
def maskValue (dataMask : DataMask) (byteOffset : BitVec 2) : Vec Bool :=
  match dataMask with
  | .byte =>
    if byteOffset = 0 then VecInit true false false false
    else if byteOffset = 1 then VecInit false true false false
    else if byteOffset = 2 then VecInit false false true false
    else if byteOffset = 3 then VecInit false false false true
    else VecInit false false false false
  | .half =>
    if byteOffset = 0 ∨ byteOffset = 1 then VecInit true true false false
    else if byteOffset = 2 ∨ byteOffset = 3 then VecInit false false true true
    else VecInit false false false false
  | .word => VecInit true true true true

/-- The wire `writeData`. -/
def writeLanes (dataMask : DataMask) (byteOffset : BitVec 2) (writeData : BitVec 32) :
    Vec (BitVec 8) :=
  match dataMask with
  | .byte =>
    if byteOffset = 0 then VecInit (writeData.extractLsb 7 0) 0 0 0
    else if byteOffset = 1 then VecInit 0 (writeData.extractLsb 7 0) 0 0
    else if byteOffset = 2 then VecInit 0 0 (writeData.extractLsb 7 0) 0
    else if byteOffset = 3 then VecInit 0 0 0 (writeData.extractLsb 7 0)
    else VecInit 0 0 0 0
  | .half =>
    if byteOffset = 0 ∨ byteOffset = 1 then
      VecInit (writeData.extractLsb 7 0) (writeData.extractLsb 15 8) 0 0
    else if byteOffset = 2 ∨ byteOffset = 3 then
      VecInit 0 0 (writeData.extractLsb 7 0) (writeData.extractLsb 15 8)
    else VecInit 0 0 0 0
  | .word =>
    VecInit (writeData.extractLsb 7 0) (writeData.extractLsb 15 8)
      (writeData.extractLsb 23 16) (writeData.extractLsb 31 24)

variable {k : ℕ}

/-- `memory.write(idx, data, mask)`: the lanes under the mask change. -/
def write (memory : Words k) (idx : BitVec k) (data : Vec (BitVec 8)) (mask : Vec Bool) :
    Words k :=
  Function.update memory idx fun i => if mask i then data i else memory idx i

/-- The memory at the clock edge. -/
def clock (memory : Words k) (io : In) (reset : Bool) : Words k :=
  if io.writeEnable && !reset then
    write memory (index k io.address)
      (writeLanes io.dataMask (byteOffset io.address) io.writeData)
      (maskValue io.dataMask (byteOffset io.address))
  else memory

/-- The wire `returnByte`. -/
def returnByte (readBytes : Vec (BitVec 8)) (byteOffset : BitVec 2) : BitVec 8 :=
  if byteOffset = 3 then readBytes 3
  else if byteOffset = 2 then readBytes 2
  else if byteOffset = 1 then readBytes 1
  else readBytes 0

/-- The wire `returnHalf`, picked by `halfOffset`, bit 1 of the address. -/
def returnHalf (readBytes : Vec (BitVec 8)) (halfOffset : Bool) : BitVec 16 :=
  if halfOffset then readBytes 3 ++ readBytes 2 else readBytes 1 ++ readBytes 0

/-- The output `readData`, combinational. -/
def readData (memory : Words k) (address : BitVec 32) (dataMask : DataMask)
    (signExtData : Bool) : BitVec 32 :=
  let readBytes := memory (index k address)
  match dataMask with
  | .byte =>
    let b := returnByte readBytes (byteOffset address)
    if signExtData then BitVec.fill 24 b[7] ++ b else b.setWidth 32
  | .half =>
    let h := returnHalf readBytes address[1]
    if signExtData then BitVec.fill 16 h[15] ++ h.extractLsb 15 8 ++ h.extractLsb 7 0
    else (h.extractLsb 15 8 ++ h.extractLsb 7 0).setWidth 32
  | .word => readBytes 3 ++ readBytes 2 ++ readBytes 1 ++ readBytes 0

end Memory

end Perilus

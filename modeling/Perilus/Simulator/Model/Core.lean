import Perilus.Hardware.Model.Datapath
/-!
# Simulator — the model behind the two front ends

`wrapper.cpp` and `perilus.rs`: the Verilated design with its inputs, the
simulation time and the trace, and what the front ends do to them. A Rust
panic is `none`, and so is a write the wrapper would make outside the
memory array. The simulator holds a memory word as the 32 bits of its
four lanes, lane `i` in bits `8i + 7` down to `8i`.
-/

namespace Perilus

/-- A memory word as the simulator holds it. -/
def wordOfVec (v : Vec (BitVec 8)) : BitVec 32 := v 3 ++ v 2 ++ v 1 ++ v 0

/-- The lanes of a word the simulator holds. -/
def vecOfWord (w : BitVec 32) : Vec (BitVec 8) :=
  VecInit (w.extractLsb 7 0) (w.extractLsb 15 8) (w.extractLsb 23 16) (w.extractLsb 31 24)

/-- `u32::to_le_bytes`. -/
def toLeBytes (w : BitVec 32) : List (BitVec 8) :=
  [w.extractLsb 7 0, w.extractLsb 15 8, w.extractLsb 23 16, w.extractLsb 31 24]

/-- The value each FSM state is given. -/
def ControlUnitState.asUInt : ControlUnitState → ℕ
  | fetch => 0
  | decode => 1
  | memAdr => 2
  | memRead => 3
  | memWb => 4
  | memWrite => 5
  | executeR => 6
  | aluWb => 7
  | executeI => 8
  | jal => 9
  | jalrLink => 10
  | jalrJump => 11
  | branch => 12
  | lui => 13
  | auipc => 14

/-- The process-wide state of `wrapper.cpp`. -/
structure Simulator where
  /-- The registers of the Verilated design. -/
  rtl : State
  /-- Its inputs. -/
  clock : Bool
  reset : Bool
  /-- The clock it saw at the last `eval`. -/
  lastClock : Bool
  /-- `ctx->time()`. -/
  time : ℕ
  /-- The times dumped into the open trace, oldest first. -/
  vcd : Option (List ℕ)

namespace Simulator

/-! ## The wrapper -/

section Wrapper

variable (p : Simulator)

/-- `perilus_init`: a new model, every bit zero. -/
def init : Simulator where
  rtl := State.zeroed
  clock := false
  reset := false
  lastClock := false
  time := 0
  vcd := none

/-- `perilus_eval`: the design is clocked when its clock has risen, and an
open trace gets the time. -/
def eval : Simulator :=
  { p with
    rtl := if p.clock && !p.lastClock then p.rtl.clock p.reset else p.rtl
    lastClock := p.clock
    vcd := p.vcd.map (· ++ [p.time]) }

/-- `perilus_increment_time`. -/
def incrementTime : Simulator := { p with time := p.time + 1 }

/-- `perilus_reset_time`. -/
def resetTime : Simulator := if p.vcd.isNone then { p with time := 0 } else p

/-- `perilus_set_clock`. -/
def setClock (newClock : Bool) : Simulator := { p with clock := newClock }

/-- `perilus_set_reset`. -/
def setReset (newReset : Bool) : Simulator := { p with reset := newReset }

/-- `start_vcd`: a new trace, from time zero. -/
def startVcd : Simulator := { p with time := 0, vcd := some [] }

/-- `stop_vcd`. -/
def stopVcd : Simulator := { p with vcd := none }

end Wrapper

/-! ## `impl Perilus` -/

@[instance] theorem neZero_registers : NeZero 32 := ⟨Nat.succ_ne_zero 31⟩

/-- `MEMORY_SIZE_WORDS`. -/
def memorySizeWords : ℕ := 1048576

/-- `MEMORY_SIZE_BYTES`. -/
def memorySizeBytes : ℕ := memorySizeWords * 4

variable (p : Simulator)

def pulseClock : Simulator :=
  (((((p.setClock false).eval).incrementTime).setClock true).eval).incrementTime

/-- `reset`. -/
def resetPulse : Simulator :=
  (((p.resetTime).setReset true).pulseClock).setReset false

def getPc : BitVec 32 := p.rtl.pc

def setPc (newPc : BitVec 32) : Simulator := { p with rtl := { p.rtl with pc := newPc } }

/-- The state register, numbered in the order of the enumeration. -/
def getControlUnitState : ℕ := p.rtl.state.asUInt

/-- The slice `get_registers` returns. -/
def getRegisters (i : Fin 32) : BitVec 32 := p.rtl.registerFile (BitVec.ofNat 5 i)

def setRegister (register : Fin 32) (value : BitVec 32) : Simulator :=
  { p with
    rtl :=
      { p.rtl with
        registerFile :=
          Function.update p.rtl.registerFile (BitVec.ofNat 5 register) value } }

/-- An entry of the slice `get_memory` returns. -/
def getMemory (i : ℕ) : Option (BitVec 32) :=
  if i < memorySizeWords then some (wordOfVec (p.rtl.memory (BitVec.ofNat memoryBits i))) else none

def setMemory (address value : BitVec 32) : Option Simulator :=
  if address.toNat < memorySizeWords then
    some { p with
      rtl :=
        { p.rtl with
          memory :=
            Function.update p.rtl.memory (BitVec.ofNat memoryBits address.toNat)
              (vecOfWord value) } }
  else none

def getMemoryByte (addressBytes : BitVec 32) : Option (BitVec 8) := do
  let word ← p.getMemory (addressBytes / 4).toNat
  return (word >>> (addressBytes % 4 * 8)).setWidth 8

def setMemoryByte (addressBytes : BitVec 32) (value : BitVec 8) : Option Simulator := do
  let addressWords := addressBytes / 4
  let shift := addressBytes % 4 * 8
  let current ← p.getMemory addressWords.toNat
  let mask := ~~~(0xff#32 <<< shift)
  p.setMemory addressWords (current &&& mask ||| value.setWidth 32 <<< shift)

/-- The slice `get_memory` returns. -/
def memoryWords : List (BitVec 32) :=
  List.ofFn fun i : Fin memorySizeWords => wordOfVec (p.rtl.memory (BitVec.ofNat memoryBits i))

def memoryBytes : List (BitVec 8) := p.memoryWords.flatMap toLeBytes

/-- `save_file`: what is written to the file. -/
def saveFile : List (BitVec 8) := p.memoryBytes

/-- The loop of `load_bytes`, from byte `addressBytes` on. -/
def storeBytes (p : Simulator) (addressBytes : ℕ) : List (BitVec 8) → Option Simulator
  | [] => some p
  | value :: bytes => do
    let p ← p.setMemoryByte (BitVec.ofNat 32 addressBytes) value
    storeBytes p (addressBytes + 1) bytes

/-- `load_bytes`, with the text of its error. -/
def loadBytes (bytes : List (BitVec 8)) : Option (Except String Unit × Simulator) :=
  if bytes.length > memorySizeBytes then
    some (.error "Provided file is too large to fit in simulated memory", p)
  else (p.storeBytes 0 bytes).map fun p => (.ok (), p)

/-- `load_file`, given what reading the file returned. -/
def loadFile (contents : Except String (List (BitVec 8))) :
    Option (Except String Unit × Simulator) :=
  match contents with
  | .error e => some (.error e, p)
  | .ok bytes => p.loadBytes bytes

/-- What a front end does to the simulator. -/
inductive Op
  | pulseClock
  | reset
  | setMemory (address value : BitVec 32)
  | setMemoryByte (addressBytes : BitVec 32) (value : BitVec 8)
  | setRegister (register : Fin 32) (value : BitVec 32)
  | loadFile (contents : Except String (List (BitVec 8)))

def exec : Op → Option Simulator
  | .pulseClock => some p.pulseClock
  | .reset => some p.resetPulse
  | .setMemory address value => p.setMemory address value
  | .setMemoryByte addressBytes value => p.setMemoryByte addressBytes value
  | .setRegister register value => some (p.setRegister register value)
  | .loadFile contents => (p.loadFile contents).map Prod.snd

end Simulator

end Perilus

import Perilus.Hardware.Frame
import Perilus.Simulator.Helpers.Load
/-!
# Simulator — the debugger and the program see one memory

The byte accessors of `perilus.rs` and the loads and stores of the
processor find lane and word in two ways. Both are accesses of one array
of bytes, so any interleaving of debugger writes with instructions keeps
the two views equal.
-/

namespace Perilus

open ByteMemory

/-- What touches memory at an instruction boundary: the debugger writes a
byte or a word, or the processor executes the instruction it is at. -/
inductive Access
  | setMemoryByte (a : BitVec 32) (v : BitVec 8)
  | setMemory (i v : BitVec 32)
  | instruction

namespace Access

/-- The simulator after an access. A word with an unsupported opcode
reaches no further boundary. -/
def run (p : Simulator) : Access → Option Simulator
  | setMemoryByte a v => p.setMemoryByte a v
  | setMemory i v => p.setMemory i v
  | instruction =>
    (Opcode.ofUInt? p.rtl.arch.op).map fun o => Simulator.pulseClock^[o.latency] p

/-- The array of bytes after the same access. -/
def flat (p : Simulator) (m : Bytes (4 * 2 ^ memoryBits)) : Access → Bytes (4 * 2 ^ memoryBits)
  | setMemoryByte a v => store m a.toNat 1 v.toNat
  | setMemory i v => store m (4 * i.toNat) 4 v.toNat
  | instruction =>
    let a := p.rtl.arch
    if a.op = Opcode.store.asUInt then
      store m (place (4 * 2 ^ memoryBits) (accessMask a.funct3).width a.address.toNat)
        (accessMask a.funct3).width a.rd2.toNat
    else m

/-- The simulator and the array after some accesses, first to last. -/
def runAll (p : Simulator) (m : Bytes (4 * 2 ^ memoryBits)) :
    List Access → Option (Simulator × Bytes (4 * 2 ^ memoryBits))
  | [] => some (p, m)
  | e :: l => do
    let p' ← e.run p
    runAll p' (e.flat p m) l

end Access

/-- **The two views of memory at an instruction boundary**, and the array
both are views of. -/
structure SameMemory (p : Simulator) (m : Bytes (4 * 2 ^ memoryBits)) : Prop where
  /-- The debugger reads the array. -/
  debugger : ∀ a : BitVec 32, a.toNat < Simulator.memorySizeBytes →
    p.getMemoryByte a = some (byteAt m a.toNat)
  /-- A load reads it, at its width and extension. -/
  program : p.rtl.arch.op = Opcode.load.asUInt → p.rtl.arch.rd ≠ 0 →
    (Simulator.pulseClock^[Opcode.load.latency] p).rtl.registerFile p.rtl.arch.rd =
      Memory.readFlat m p.rtl.arch.address (accessMask p.rtl.arch.funct3)
        (ControlUnit.signExtData Opcode.load.asUInt p.rtl.arch.funct3)
  /-- LBU leaves what the debugger reads. -/
  lbu : p.rtl.arch.op = Opcode.load.asUInt → p.rtl.arch.funct3 = 4 → p.rtl.arch.rd ≠ 0 →
    p.rtl.arch.address.toNat < Simulator.memorySizeBytes →
    ∃ v, p.getMemoryByte p.rtl.arch.address = some v ∧
      (Simulator.pulseClock^[Opcode.load.latency] p).rtl.registerFile p.rtl.arch.rd =
        v.setWidth 32
  /-- SB leaves the memory the debugger's byte write leaves. -/
  sb : p.rtl.arch.op = Opcode.store.asUInt → p.rtl.arch.funct3 = 0 →
    p.rtl.arch.address.toNat < Simulator.memorySizeBytes →
    ∃ p', p.setMemoryByte p.rtl.arch.address (p.rtl.arch.rd2.setWidth 8) = some p' ∧
      (Simulator.pulseClock^[Opcode.store.latency] p).rtl.memory = p'.rtl.memory

namespace Simulator

variable {p : Simulator}

/-- The pulses of an instruction, and what it leaves. -/
theorem arch_instruction (hs : AtFetch p.rtl) (hr : p.reset = false) {o : Opcode}
    (ho : p.rtl.arch.op = o.asUInt) :
    (pulseClock^[o.latency] p).rtl.arch = p.rtl.arch.exec ∧
      AtFetch (pulseClock^[o.latency] p).rtl ∧ (pulseClock^[o.latency] p).reset = false := by
  obtain ⟨hrtl, hreset⟩ := iterate_pulseClock p hr o.latency
  rw [hrtl]
  exact ⟨arch_latency hs ho, atFetch_latency hs ho, hreset⟩

/-- What a load leaves in its destination. -/
theorem load_leaves (hs : AtFetch p.rtl) (hr : p.reset = false)
    (ho : p.rtl.arch.op = Opcode.load.asUInt) (hrd : p.rtl.arch.rd ≠ 0) :
    (pulseClock^[Opcode.load.latency] p).rtl.registerFile p.rtl.arch.rd =
      Memory.readFlat (Memory.flat p.rtl.memory) p.rtl.arch.address
        (accessMask p.rtl.arch.funct3)
        (ControlUnit.signExtData Opcode.load.asUInt p.rtl.arch.funct3) := by
  have harch := congrArg Arch.registerFile (arch_instruction hs hr ho).1
  rw [Arch.exec_load ho] at harch
  calc (pulseClock^[Opcode.load.latency] p).rtl.registerFile p.rtl.arch.rd
      = RegisterFile.written p.rtl.registerFile p.rtl.arch.rd p.rtl.arch.loaded p.rtl.arch.rd :=
        congrFun harch _
    _ = p.rtl.arch.loaded := RegisterFile.written_self hrd
    _ = _ := Memory.readData_eq _ _ _ _

/-- A byte read, zero-extended, is the byte. -/
theorem readFlat_byte (m : Bytes (4 * 2 ^ memoryBits)) {a : BitVec 32}
    (ha : a.toNat < memorySizeBytes) :
    Memory.readFlat m a .byte false = (byteAt m a.toNat).setWidth 32 := by
  simp only [Memory.readFlat, DataMask.width, place, Nat.div_one, Nat.mul_one,
    Nat.mod_eq_of_lt (show a.toNat < 4 * 2 ^ memoryBits from ha)]
  change BitVec.setWidth 32 (BitVec.ofNat 8 (byteAt m (a.toNat + 0)).toNat) = _
  rw [Nat.add_zero, BitVec.ofNat_toNat, BitVec.setWidth_eq]

/-- **At a boundary the two views are one.** -/
theorem sameMemory (hs : AtFetch p.rtl) (hr : p.reset = false) :
    SameMemory p (Memory.flat p.rtl.memory) where
  debugger a ha := getMemoryByte_flat _ ha
  program ho hrd := load_leaves hs hr ho hrd
  lbu ho h3 hrd ha := by
    refine ⟨_, getMemoryByte_flat _ ha, ?_⟩
    rw [load_leaves hs hr ho hrd, h3]
    exact readFlat_byte _ ha
  sb ho h3 ha := by
    refine ⟨_, setMemoryByte_of_lt p ha _, ?_⟩
    have harch := congrArg Arch.memory (arch_instruction hs hr ho).1
    rw [Arch.exec_store ho, h3] at harch
    refine harch.trans ?_
    change Memory.stored _ _ .byte _ = Memory.stored _ _ .byte _
    rw [Memory.stored_byte, Memory.stored_byte]
    rw [BitVec.setWidth_setWidth_of_le _ (show 8 ≤ 32 by decide), BitVec.setWidth_eq]
    rfl

end Simulator

/-- **One access keeps the boundary, and is an access of the array.** -/
theorem Access.run_flat {p p' : Simulator} (hs : AtFetch p.rtl) (hr : p.reset = false)
    (e : Access) (h : e.run p = some p') :
    AtFetch p'.rtl ∧ p'.reset = false ∧
      Memory.flat p'.rtl.memory = e.flat p (Memory.flat p.rtl.memory) := by
  cases e with
  | setMemoryByte a v =>
    have ha := Simulator.lt_of_setMemoryByte h
    obtain rfl := Option.some.inj ((Simulator.setMemoryByte_of_lt p ha v).symm.trans h)
    refine ⟨hs, hr, ?_⟩
    rw [Simulator.withMemory_memory, Memory.flat_stored_byte _ ha]
    rfl
  | setMemory i v =>
    have hi := Simulator.lt_of_setMemory h
    obtain rfl := Option.some.inj ((Simulator.setMemory_of_lt p hi v).symm.trans h)
    have haddr : (i * 4).toNat % (4 * 2 ^ memoryBits) / 4 * 4 = 4 * i.toNat := by
      rw [Simulator.memorySizeWords] at hi
      rw [BitVec.toNat_mul, show BitVec.toNat (4 : BitVec 32) = 4 from rfl,
        show 4 * 2 ^ memoryBits = 4194304 from rfl]
      omega
    refine ⟨hs, hr, ?_⟩
    rw [Simulator.withMemory_memory, Memory.flat_stored, DataMask.width, place, haddr]
    rfl
  | instruction =>
    obtain ⟨o, ho, rfl⟩ := Option.map_eq_some_iff.1 h
    have ho' := Opcode.ofUInt?_eq_some.1 ho
    obtain ⟨harch, hat, hreset⟩ := Simulator.arch_instruction hs hr ho'
    refine ⟨hat, hreset, (congrArg (fun a => Memory.flat a.memory) harch).trans ?_⟩
    dsimp only [Access.flat]
    -- nothing but a store writes memory
    by_cases hst : p.rtl.arch.op = Opcode.store.asUInt
    · rw [if_pos hst, Arch.exec_store hst]
      exact Memory.flat_stored _ _ _ _
    · rw [if_neg hst, (Framed.exec ho').memory fun heq => hst (heq ▸ ho')]
      rfl

/-- **The debugger view and the program view never differ.** From any
boundary, after any interleaving of debugger byte and word writes with
instructions, both views are views of the array that took the same
writes. -/
theorem debugger_sees_program {p p' : Simulator} {m : Bytes (4 * 2 ^ memoryBits)}
    (hs : AtFetch p.rtl) (hr : p.reset = false) (l : List Access)
    (h : Access.runAll p (Memory.flat p.rtl.memory) l = some (p', m)) :
    AtFetch p'.rtl ∧ p'.reset = false ∧ SameMemory p' m := by
  induction l generalizing p with
  | nil =>
    cases h
    exact ⟨hs, hr, Simulator.sameMemory hs hr⟩
  | cons e l ih =>
    obtain ⟨q, hq, hrest⟩ := Option.bind_eq_some_iff.1 h
    obtain ⟨hs', hr', hflat⟩ := e.run_flat hs hr hq
    exact ih hs' hr' (by rw [hflat]; exact hrest)

/-- `lbu x1, 5(x0)` in every word; the debugger changes that byte, and the
processor loads it. -/
theorem debugger_sees_program_lbu :
    let p := Simulator.init.withMemory fun _ => VecInit 0x83 0x40 0x50 0x00
    ∃ p' m,
      Access.runAll p (Memory.flat p.rtl.memory) [.setMemoryByte 5 0xaa, .instruction] =
          some (p', m) ∧
        SameMemory p' m :=
  ⟨_, _, rfl,
    (debugger_sees_program
      (p := Simulator.init.withMemory fun _ => VecInit 0x83 0x40 0x50 0x00) rfl rfl
      [.setMemoryByte 5 0xaa, .instruction] rfl).2.2⟩

end Perilus

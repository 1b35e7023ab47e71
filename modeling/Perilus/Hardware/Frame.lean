import Perilus.Hardware.Helpers.Flat
import Perilus.Hardware.Helpers.Progress
import Perilus.Hardware.Helpers.Immediate
/-!
# Perilus — what an instruction leaves alone

Frame conditions of every word with a supported opcode, reserved
encodings included, at every cycle from its fetch to the next: which
register-file entries, which bytes of memory, and when the pc just moves
to the next word.
-/

namespace Perilus

open Clocked

/-- The effective address of a store word: `x[rs1]` plus the S-immediate. -/
def storeAddress (registerFile : Registers) (w : BitVec 32) : BitVec 32 :=
  RegisterFile.rd registerFile (rs1Of w) + (sBits w).signExtend 32

/-! ## The two write ports -/

namespace Memory

variable {k : ℕ} {memory : Words k} {address : BitVec 32} {dataMask : DataMask} {v : BitVec 32}

theorem stored_of_ne {idx : BitVec k} (h : idx ≠ index k address) :
    stored memory address dataMask v idx = memory idx :=
  Function.update_of_ne h _ _

/-- A lane outside the mask keeps its byte, whatever the word. -/
theorem stored_of_mask {idx : BitVec k} {i : Fin 4}
    (h : maskValue dataMask (byteOffset address) i = false) :
    stored memory address dataMask v idx i = memory idx i := by
  by_cases hidx : idx = index k address
  · subst hidx
    simp [stored, write, h]
  · rw [stored_of_ne hidx]

end Memory

/-! ## The frame of an instruction -/

/-- **What an instruction of opcode `o` fetched at `a` leaves alone** in a
state in which a program sees `a'`. -/
structure Framed (o : Opcode) (a a' : Arch) : Prop where
  others : ∀ r, r ≠ rdOf a.word → a'.registerFile r = a.registerFile r
  zero : a'.registerFile 0 = a.registerFile 0
  noDestination : o = .branch ∨ o = .store ∨ o = .fence ∨ o = .env →
    a'.registerFile = a.registerFile
  memory : o ≠ .store → a'.memory = a.memory
  word : ∀ idx, idx.toNat ≠ (storeAddress a.registerFile a.word).toNat / 4 % 2 ^ memoryBits →
    a'.memory idx = a.memory idx
  byte : funct3Of a.word = 0 ∨ funct3Of a.word = 4 →
    ∀ idx (i : Fin 4), i.val ≠ (storeAddress a.registerFile a.word).toNat % 4 →
      a'.memory idx i = a.memory idx i
  half : funct3Of a.word = 1 ∨ funct3Of a.word = 5 →
    ∀ idx (i : Fin 4), i.val / 2 ≠ (storeAddress a.registerFile a.word).toNat % 4 / 2 →
      a'.memory idx i = a.memory idx i

namespace Framed

variable {o : Opcode} {a a' : Arch}

theorem of_same (hrf : a'.registerFile = a.registerFile) (hmem : a'.memory = a.memory) :
    Framed o a a' where
  others r _ := by rw [hrf]
  zero := by rw [hrf]
  noDestination _ := hrf
  memory _ := hmem
  word idx _ := by rw [hmem]
  byte _ idx i _ := by rw [hmem]
  half _ idx i _ := by rw [hmem]

/-- A write of the destination register, by an opcode that has one. -/
theorem of_written {v : BitVec 32}
    (hrf : a'.registerFile = RegisterFile.written a.registerFile a.rd v)
    (hmem : a'.memory = a.memory)
    (ho : ¬ (o = .branch ∨ o = .store ∨ o = .fence ∨ o = .env)) : Framed o a a' where
  others r hr := by rw [hrf]; exact RegisterFile.written_of_ne hr
  zero := by rw [hrf]; exact RegisterFile.written_zero
  noDestination h := absurd h ho
  memory _ := hmem
  word idx _ := by rw [hmem]
  byte _ idx i _ := by rw [hmem]
  half _ idx i _ := by rw [hmem]

/-- A store, at the width its funct3 selects. -/
theorem of_stored (hrf : a'.registerFile = a.registerFile)
    (hmem : a'.memory = Memory.stored a.memory (storeAddress a.registerFile a.word)
      (accessMask a.funct3) a.rd2) : Framed .store a a' where
  others r _ := by rw [hrf]
  zero := by rw [hrf]
  noDestination _ := hrf
  memory h := absurd rfl h
  word idx hidx := by
    rw [hmem]
    refine Memory.stored_of_ne fun h => hidx ?_
    rw [h, Memory.toNat_index]
  byte hf idx i hi := by
    rw [hmem]
    refine Memory.stored_of_mask ?_
    rw [show accessMask a.funct3 = .byte from if_pos hf, Memory.maskValue_eq,
      Memory.toNat_byteOffset, DataMask.width, Nat.div_one, Nat.div_one]
    exact decide_eq_false hi
  half hf idx i hi := by
    rw [hmem]
    refine Memory.stored_of_mask ?_
    have hne : ¬ (a.funct3 = 0 ∨ a.funct3 = 4) := by
      rcases hf with h | h <;> rw [Arch.funct3, h] <;> decide
    rw [show accessMask a.funct3 = .half from (if_neg hne).trans (if_pos hf),
      Memory.maskValue_eq, Memory.toNat_byteOffset]
    exact decide_eq_false hi

/-- Half way through an instruction. -/
theorem during {st : ControlUnitState} (ho : a.op = o.asUInt) (hs : Serves st a.op) :
    Framed o a (a.during st) := by
  cases st with
  | jalrJump =>
    have hjalr : o = .jalr := Opcode.asUInt_injective (ho.symm.trans hs)
    exact .of_written rfl rfl (by rw [hjalr]; decide)
  | aluWb =>
    rw [Arch.during]
    split <;> exact .of_same rfl rfl
  | _ => exact .of_same rfl rfl

/-- The address of a store is the one its word names. -/
theorem address_store (ho : a.op = Opcode.store.asUInt) :
    a.address = storeAddress a.registerFile a.word := by
  rw [Arch.address, Arch.imm, immOf_store ho, storeAddress, Arch.rd1]

/-- At its end. -/
theorem exec (ho : a.op = o.asUInt) : Framed o a a.exec := by
  cases o with
  | load => rw [Arch.exec_load ho]; exact .of_written rfl rfl (by decide)
  | store =>
    rw [Arch.exec_store ho, address_store ho]
    exact .of_stored rfl rfl
  | rType => rw [Arch.exec_rType ho]; exact .of_written rfl rfl (by decide)
  | immediate => rw [Arch.exec_immediate ho]; exact .of_written rfl rfl (by decide)
  | jal => rw [Arch.exec_jal ho]; exact .of_written rfl rfl (by decide)
  | jalr => rw [Arch.exec_jalr ho]; exact .of_written rfl rfl (by decide)
  | branch => rw [Arch.exec_branch ho]; exact .of_same rfl rfl
  | lui => rw [Arch.exec_lui ho]; exact .of_written rfl rfl (by decide)
  | auipc => rw [Arch.exec_auipc ho]; exact .of_written rfl rfl (by decide)
  | env => rw [Arch.exec_env (.inl ho)]; exact .of_same rfl rfl
  | fence => rw [Arch.exec_env (.inr ho)]; exact .of_same rfl rfl

end Framed

/-- A branch with a reserved funct3 is not taken. -/
theorem not_taken_of_reserved {a : Arch} (h : funct3Of a.word = 2 ∨ funct3Of a.word = 3) :
    a.taken = false := by
  rw [Arch.taken, Arch.funct3]
  generalize Alu.zero (comparisonOf a.word) a.rd1 a.rd2 = z
  generalize Alu.lessThan (comparisonOf a.word) a.rd1 a.rd2 = l
  rcases h with h | h <;> rw [h] <;> revert z l <;> decide

/-- The instructions that fall through. -/
theorem exec_pc {a : Arch} {o : Opcode} (ho : a.op = o.asUInt)
    (h : (o ≠ .jal ∧ o ≠ .jalr ∧ o ≠ .branch) ∨
      (o = .branch ∧ (funct3Of a.word = 2 ∨ funct3Of a.word = 3))) :
    a.exec.pc = a.nextPc := by
  rcases h with ⟨h1, h2, h3⟩ | ⟨rfl, hf⟩
  · cases o with
    | jal => exact absurd rfl h1
    | jalr => exact absurd rfl h2
    | branch => exact absurd rfl h3
    | load => rw [Arch.exec_load ho]; rfl
    | store => rw [Arch.exec_store ho]; rfl
    | rType => rw [Arch.exec_rType ho]; rfl
    | immediate => rw [Arch.exec_immediate ho]; rfl
    | lui => rw [Arch.exec_lui ho]; rfl
    | auipc => rw [Arch.exec_auipc ho]; rfl
    | env => rw [Arch.exec_env (.inl ho)]; rfl
    | fence => rw [Arch.exec_env (.inr ho)]; rfl
  · rw [Arch.exec_branch ho, not_taken_of_reserved hf]
    rfl

/-- **The frame of every instruction word.** From a fetch of any word with
a supported opcode to the next fetch, at every cycle between, what the
instruction does not own is as it was; and the pc at the next fetch is
the next word's, but for a jump and for a branch that has a condition. -/
theorem instruction_frame {s : State} {o : Opcode} (hs : AtFetch s) (ho : s.arch.op = o.asUInt) :
    NextAt (State.clock false) AtFetch s o.latency ∧
      (∀ i ≤ o.latency, Framed o s.arch ((State.clock false)^[i] s).arch) ∧
      ((o ≠ .jal ∧ o ≠ .jalr ∧ o ≠ .branch) ∨
          (o = .branch ∧ (funct3Of s.arch.word = 2 ∨ funct3Of s.arch.word = 3)) →
        ((State.clock false)^[o.latency] s).pc = (s.pc + 4) &&& ~~~1) := by
  refine ⟨nextAt_latency hs ho, ?_, ?_⟩
  · intro i hi
    rcases Nat.lt_or_ge i o.latency with hlt | hge
    · obtain ⟨-, hfl⟩ := inFlight_run hs ho i hlt
      rw [hfl.visible]
      exact .during ho hfl.serves
    · obtain rfl : i = o.latency := by omega
      rw [arch_latency hs ho]
      exact .exec ho
  · intro h
    have harch := congrArg Arch.pc (arch_latency hs ho)
    rw [exec_pc ho h] at harch
    exact harch

/-- `sb x0, 5(x0)` in every word of memory. -/
theorem instruction_frame_sb :
    ((State.clock false)^[4]
        { State.zeroed with memory := fun _ => VecInit 0xa3 0x02 0x00 0x00 }).pc = 4 :=
  (instruction_frame (o := .store)
    (s := { State.zeroed with memory := fun _ => VecInit 0xa3 0x02 0x00 0x00 }) rfl rfl).2.2
    (.inl ⟨by decide, by decide, by decide⟩)

end Perilus

import Perilus.Hardware.Helpers.InFlight
/-!
# Perilus — the pc stays even

Bit 0 of the pc, of `oldPc` and of the links. No cycle sets it: the pc is
written through a mask, a fetch saves an even pc, and a link is that plus
four. The last needs that `aluWb` of a `jal` comes after its `jal`, which
is what `Serves` keeps.
-/

namespace Perilus

/-- Bit 0 is zero. -/
def EvenWord (x : BitVec 32) : Prop := x[0] = false

/-! ## Bit 0 -/

namespace EvenWord

variable {x : BitVec 32}

theorem zero : EvenWord 0 := by simp [EvenWord]

theorem and_not_one (x : BitVec 32) : EvenWord (x &&& ~~~1) := by simp [EvenWord]

/-- The mask does nothing to an even word. -/
theorem and_not_one_eq (h : EvenWord x) : x &&& ~~~1 = x := by
  have hbit : x.getLsbD 0 = false := h
  refine BitVec.eq_of_getLsbD_eq fun i hi => ?_
  rcases i with - | i
  · rw [BitVec.getLsbD_and, hbit, Bool.false_and]
  · have hone : (1 : BitVec 32).getLsbD (i + 1) = false := by
      rw [BitVec.ofNat_eq_ofNat, BitVec.getLsbD_one]
      simp
    rw [BitVec.getLsbD_and, BitVec.getLsbD_not, hone, decide_eq_true hi, Bool.not_false,
      Bool.and_true, Bool.and_true]

theorem and_not_three (x : BitVec 32) : EvenWord (x &&& ~~~3) := by simp [EvenWord]

theorem add_four (h : EvenWord x) : EvenWord (x + 4) := by
  have hbit : x[0] = false := h
  rw [EvenWord, ← BitVec.getLsbD_eq_getElem, BitVec.getLsbD_add (by decide)]
  simp [hbit]

/-- The last hexadecimal digit holds bit 0. -/
theorem setLastDigit {nibble : BitVec 4} :
    EvenWord ((x &&& ~~~(0xf#32 <<< 0)) ||| ((nibble.setWidth 8).setWidth 32 <<< 0)) ↔
      nibble.getLsbD 0 = false := by
  simp [EvenWord]

/-- The other digits do not. -/
theorem setDigit (h : EvenWord x) {nibble : BitVec 8} {shift : ℕ} (hshift : 0 < shift) :
    EvenWord ((x &&& ~~~(0xf#32 <<< shift)) ||| (nibble.setWidth 32 <<< shift)) := by
  have hbit : x[0] = false := h
  simp [EvenWord, hbit, hshift]

theorem clearDigit (h : EvenWord x) (shift : ℕ) : EvenWord (x &&& ~~~(0xf#32 <<< shift)) := by
  have hbit : x[0] = false := h
  simp [EvenWord, hbit]

end EvenWord

/-! ## The design -/

namespace State

variable {s : State}

/-- A link is being written: the register write of a `jal`, or of a `jalr`
with funct3 zero. -/
def WritesLink (s : State) : Prop :=
  s.wires.regWrite ∧
    (opOf s.instr = Opcode.jal.asUInt ∨
      opOf s.instr = Opcode.jalr.asUInt ∧ funct3Of s.instr = 0)

/-- **The pc is even**, and with it `oldPc` and every link. -/
structure EvenPc (s : State) : Prop where
  pc : EvenWord s.pc
  oldPc : EvenWord s.oldPc
  link : s.WritesLink → EvenWord s.result

/-- What a cycle preserves of it. -/
structure EvenInv (s : State) : Prop where
  pc : EvenWord s.pc
  oldPc : EvenWord s.oldPc
  serves : Serves s.state (opOf s.instr)
  linkBuf : s.state = .aluWb → opOf s.instr = Opcode.jal.asUInt → EvenWord s.aluOutBuf

theorem evenInv_zeroed : EvenInv zeroed := ⟨.zero, .zero, trivial, nofun⟩

/-- The next state serves the opcode the last one served. -/
theorem serves_next {st : ControlUnitState} {op : BitVec 7} (h : Serves st op) :
    Serves (ControlUnit.fsm st op).next op := by
  cases st with
  | decode =>
    change Serves (ControlUnit.decodeNext op) op
    rcases decodeNext_cases op with ⟨hn, -⟩ | ⟨hn, -⟩ | ⟨hserves, -⟩
    · rw [hn]; trivial
    · rw [hn]; trivial
    · exact hserves
  | memAdr =>
    change Serves (ControlUnit.memAdrNext op) op
    rcases h with rfl | rfl <;> rfl
  | executeR => exact .inl h
  | executeI => exact .inr (.inl h)
  | jal => exact .inr (.inr h)
  | memRead | jalrLink => exact h
  | _ => trivial

theorem instr_clock (h : s.state ≠ .fetch) : (s.clock false).instr = s.instr := by
  change (if s.wires.irWrite then s.readData else s.instr) = _
  rw [if_neg]
  cases hs : s.state <;> simp_all [wires, ControlUnit.fsm, ControlUnit.fsmDefault]

theorem serves_clock (h : Serves s.state (opOf s.instr)) :
    Serves (s.clock false).state (opOf (s.clock false).instr) := by
  by_cases hs : s.state = .fetch
  · rw [State.clock_fetch hs]
    trivial
  · rw [instr_clock hs, state_clock]
    exact serves_next h

/-- Before `aluWb` of a `jal` comes its `jal`. -/
theorem state_of_aluWb (h : Serves s.state (opOf s.instr)) (hs : (s.clock false).state = .aluWb)
    (ho : opOf (s.clock false).instr = Opcode.jal.asUInt) : s.state = .jal := by
  rw [state_clock] at hs
  cases hst : s.state with
  | jal => rfl
  | executeR | executeI =>
    -- these lead to `aluWb` too, but for opcodes of their own
    rw [instr_clock (by rw [hst]; decide)] at ho
    rw [hst, Serves, ho] at h
    exact absurd h (by decide)
  | decode =>
    rw [hst] at hs
    change ControlUnit.decodeNext _ = _ at hs
    rcases decodeNext_cases (opOf s.instr) with ⟨hn, -⟩ | ⟨hn, -⟩ | ⟨-, hn⟩
    · rw [hn] at hs; cases hs
    · rw [hn] at hs; cases hs
    · rcases hn with hn | hn | hn | hn | hn | hn | hn | hn <;> (rw [hn] at hs; cases hs)
  | memAdr =>
    rw [hst] at h hs
    change ControlUnit.memAdrNext _ = _ at hs
    rcases h with ho | ho <;> (rw [ho] at hs; cases hs)
  | _ => rw [hst] at hs; cases hs

/-- A reset leaves an even pc, whatever it found. -/
theorem evenInv_clock_true (s : State) : EvenInv (s.clock true) := by
  rw [clock_true]
  exact ⟨.zero, .zero, trivial, nofun⟩

/-- **A cycle keeps the pc even.** -/
theorem EvenInv.clock (h : EvenInv s) (reset : Bool) : EvenInv (s.clock reset) := by
  cases reset with
  | true => exact evenInv_clock_true s
  | false =>
    refine ⟨?_, ?_, serves_clock h.serves, ?_⟩
    · change EvenWord (if s.pcWrite then s.result &&& ~~~1 else s.pc)
      split
      · exact .and_not_one _
      · exact h.pc
    · change EvenWord (if s.wires.irWrite then s.pc else s.oldPc)
      split
      · exact h.pc
      · exact h.oldPc
    · intro hs ho
      change EvenWord s.aluResult
      rw [aluResult_jal (state_of_aluWb h.serves hs ho)]
      exact h.oldPc.add_four

/-- **And the links are even with it.** -/
theorem EvenInv.evenPc (h : EvenInv s) : EvenPc s := by
  refine ⟨h.pc, h.oldPc, ?_⟩
  rintro ⟨hw, ho⟩
  have hserves := h.serves
  rw [wires] at hw
  -- of the states that write a register two serve a jump
  cases hst : s.state with
  | aluWb =>
    rw [hst] at hserves
    have hres : s.result = s.aluOutBuf := by
      simp [result, wires, hst, ControlUnit.fsm, ControlUnit.fsmDefault]
    rw [hres]
    rcases ho with ho | ⟨ho, -⟩
    · exact h.linkBuf hst ho
    · rw [Serves, ho] at hserves
      exact absurd hserves (by decide)
  | jalrLink =>
    rw [hst] at hserves
    have hadd : arithmeticOf s.instr = .add := by
      rcases ho with ho | ⟨ho, h3⟩
      · rw [Serves, ho] at hserves
        exact absurd hserves (by decide)
      · rw [arithmeticOf, ho, h3]
        rfl
    have hres : s.result = s.oldPc + 4 := by
      have halu : s.result = Alu.aluResult (arithmeticOf s.instr) s.oldPc 4 := by
        simp [result, wires, hst, ControlUnit.fsm, ControlUnit.fsmDefault, aluResult, aluControl,
          srcA, srcB, arithmeticOf]
      rw [halu, hadd]
      rfl
    rw [hres]
    exact h.oldPc.add_four
  | memWb | lui | auipc =>
    rw [hst, Serves] at hserves
    rw [hserves] at ho
    exact absurd ho (by simp)
  | _ => rw [hst] at hw; cases hw

end State

end Perilus

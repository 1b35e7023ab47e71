import Perilus.Common.Clocked
import Perilus.Hardware.Helpers.EvenPc
/-!
# Perilus — the next fetch, from the middle of an instruction

How many cycles away it is (`cyclesLeft`), where it will be (`fetchPc`),
and what it takes from the pc: nothing, but that an instruction with no
jump ahead of it leaves the pc as it is (`ButPc`). A state here need not
be one the instruction itself would have led to, so a debugger may have
written the pc, the registers or the memory in the meantime.
-/

namespace Perilus

open Clocked

/-- The cycles from an FSM state to the next fetch. -/
def ControlUnitState.cyclesLeft (st : ControlUnitState) (op : BitVec 7) : ℕ :=
  match st with
  | .fetch => 0
  | .decode => (Opcode.ofUInt? op).elim 1 fun o => o.latency - 1
  | .memAdr => if op = Opcode.load.asUInt then 3 else 2
  | .memRead | .executeR | .executeI | .jal | .jalrLink => 2
  | _ => 1

/-- The opcode of the instruction in flight, if there is one, is
supported. -/
def State.Supported (s : State) : Prop :=
  s.state ≠ .fetch → (Opcode.ofUInt? (opOf s.instr)).isSome

namespace State

variable {s t : State}

/-- Whether a branch on these operands is taken. -/
def takes (s : State) (x y : BitVec 32) : Bool :=
  ControlUnit.branchTaken (funct3Of s.instr) (Alu.zero (comparisonOf s.instr) x y)
    (Alu.lessThan (comparisonOf s.instr) x y)

/-- Where a jump and link register goes from these operands. -/
def jumps (s : State) (x : BitVec 32) : BitVec 32 :=
  Alu.aluResult (arithmeticOf s.instr) x (immOf s.instr) &&& ~~~1

/-- **The pc the instruction in flight is still to write**, after its own
fetch: the target of a `jal` before its `jal` state has passed, of a
`jalr` before its `jalrJump` has, and of a branch that will be taken. -/
def pcAhead (s : State) : Option (BitVec 32) :=
  let rd1 := RegisterFile.rd s.registerFile (rs1Of s.instr)
  let rd2 := RegisterFile.rd s.registerFile (rs2Of s.instr)
  let target := (s.oldPc + immOf s.instr) &&& ~~~1
  match s.state with
  | .decode =>
    if opOf s.instr = Opcode.jal.asUInt then some target
    else if opOf s.instr = Opcode.jalr.asUInt then some (s.jumps rd1)
    else if opOf s.instr = Opcode.branch.asUInt ∧ s.takes rd1 rd2 then some target
    else none
  | .jal => some (s.aluOutBuf &&& ~~~1)
  | .jalrLink => some (s.jumps rd1)
  | .jalrJump => some (s.jumps s.rd1Buf)
  | .branch => if s.takes s.rd1Buf s.rd2Buf then some (s.aluOutBuf &&& ~~~1) else none
  | _ => none

/-- **The pc of the next fetch.** -/
def fetchPc (s : State) : BitVec 32 := s.pcAhead.getD s.pc

theorem fetchPc_of_fetch (h : AtFetch s) : s.fetchPc = s.pc := by
  rw [fetchPc, pcAhead, show s.state = .fetch from h]
  rfl

theorem fetchPc_decode (hst : s.state = .decode) : (s.clock false).fetchPc = s.fetchPc := by
  rw [clock_decode hst]
  rcases ho : Opcode.ofUInt? (opOf s.instr) with - | o
  · have hne := Opcode.ofUInt?_eq_none ho
    rw [decodeNext_of_none ho]
    simp only [fetchPc, pcAhead, hne, false_and, if_false, hst, latch]
  · have ho' := Opcode.ofUInt?_eq_some.1 ho
    -- `decode` already adds the target up
    have halu := aluResult_decode hst
    cases o <;>
      simp [fetchPc, pcAhead, ControlUnit.decodeNext, ho', hst, latch, halu, takes, jumps]

/-- **A cycle outside `fetch` does not move it.** -/
theorem fetchPc_clock (h : Serves s.state (opOf s.instr)) (hne : s.state ≠ .fetch) :
    (s.clock false).fetchPc = s.fetchPc := by
  cases hst : s.state with
  | fetch => exact absurd hst hne
  | decode => exact fetchPc_decode hst
  | memAdr =>
    rw [hst] at h
    rw [clock_memAdr hst]
    rcases h with ho | ho <;>
      simp [fetchPc, pcAhead, ControlUnit.memAdrNext, ho, hst, latch]
  | memRead => rw [clock_memRead hst]; simp [fetchPc, pcAhead, hst, latch]
  | memWb => rw [clock_memWb hst]; simp [fetchPc, pcAhead, hst, latch]
  | memWrite => rw [clock_memWrite hst]; simp [fetchPc, pcAhead, hst, latch]
  | executeR => rw [clock_executeR hst]; simp [fetchPc, pcAhead, hst, latch]
  | executeI => rw [clock_executeI hst]; simp [fetchPc, pcAhead, hst, latch]
  | aluWb => rw [clock_aluWb hst]; simp [fetchPc, pcAhead, hst, latch]
  | jal => rw [clock_jal hst]; simp [fetchPc, pcAhead, hst]
  | jalrLink => rw [clock_jalrLink hst]; simp [fetchPc, pcAhead, hst, latch, jumps]
  | jalrJump => rw [clock_jalrJump hst]; simp [fetchPc, pcAhead, hst, jumps]
  | branch =>
    -- the cycle that decides the branch moves the pc ahead into the pc
    rw [clock_branch hst]
    by_cases hb : s.takes s.rd1Buf s.rd2Buf
    · simp only [fetchPc, pcAhead, hst, if_pos hb]
      exact if_pos hb
    · simp only [fetchPc, pcAhead, hst, if_neg hb]
      exact if_neg hb
  | lui => rw [clock_lui hst]; simp [fetchPc, pcAhead, hst, latch]
  | auipc => rw [clock_auipc hst]; simp [fetchPc, pcAhead, hst, latch]

/-! ## How far away it is -/

theorem cyclesLeft_ne_zero {st : ControlUnitState} (op : BitVec 7) (h : st ≠ .fetch) :
    st.cyclesLeft op ≠ 0 := by
  cases st with
  | fetch => exact absurd rfl h
  | decode =>
    rw [ControlUnitState.cyclesLeft]
    rcases Opcode.ofUInt? op with - | o
    · decide
    · cases o <;> decide
  | memAdr =>
    rw [ControlUnitState.cyclesLeft]
    split <;> decide
  | _ => exact Nat.succ_ne_zero _

/-- A cycle takes one off. -/
theorem cyclesLeft_next {st : ControlUnitState} {op : BitVec 7} (h : Serves st op)
    (ho : (Opcode.ofUInt? op).isSome) (hne : st ≠ .fetch) :
    st.cyclesLeft op = (ControlUnit.fsm st op).next.cyclesLeft op + 1 := by
  obtain ⟨o, ho⟩ := Option.isSome_iff_exists.1 ho
  obtain rfl := Opcode.ofUInt?_eq_some.1 ho
  cases st with
  | fetch => exact absurd rfl hne
  | decode => cases o <;> rfl
  | memAdr => rcases h with h | h <;> (rw [h]; rfl)
  | _ => rfl

/-- **From anywhere in a supported instruction the next fetch is
`cyclesLeft` cycles away, at `fetchPc`.** -/
theorem firstAt_cyclesLeft (h : Serves s.state (opOf s.instr)) (hs : s.Supported) :
    FirstAt (State.clock false) AtFetch s (s.state.cyclesLeft (opOf s.instr)) ∧
      ((State.clock false)^[s.state.cyclesLeft (opOf s.instr)] s).pc = s.fetchPc := by
  generalize hk : s.state.cyclesLeft (opOf s.instr) = k
  induction k generalizing s with
  | zero =>
    have hat : AtFetch s := by
      by_contra hne
      exact cyclesLeft_ne_zero _ hne hk
    exact ⟨.zero hat, (fetchPc_of_fetch hat).symm⟩
  | succ k ih =>
    have hne : s.state ≠ .fetch := by
      intro hst
      rw [hst] at hk
      cases hk
    have hnext := cyclesLeft_next h (hs hne) hne
    have hleft : (s.clock false).state.cyclesLeft (opOf (s.clock false).instr) = k := by
      rw [state_clock, instr_clock hne]
      omega
    have hs' : (s.clock false).Supported := by
      intro _
      rw [instr_clock hne]
      exact hs hne
    obtain ⟨hfirst, hpc⟩ := ih (serves_clock h) hs' hleft
    exact ⟨hfirst.succ hne, hpc.trans (fetchPc_clock h hne)⟩

/-! ## What the pc does to it -/

/-- **The two are in one instruction and differ in the pc**, and in what
only a fetch would read of them. -/
structure ButPc (s t : State) : Prop where
  state : t.state = s.state
  oldPc : t.oldPc = s.oldPc
  instr : t.instr = s.instr
  rd1Buf : t.rd1Buf = s.rd1Buf
  rd2Buf : t.rd2Buf = s.rd2Buf
  aluOutBuf : s.state ≠ .fetch → s.state ≠ .memWb → t.aluOutBuf = s.aluOutBuf
  readDataBuf : s.state = .memWb → t.readDataBuf = s.readDataBuf
  registerFile : t.registerFile = s.registerFile
  memory : t.memory = s.memory

/-- The pc written behind the back of the design. -/
theorem ButPc.of_write (s : State) (pc : BitVec 32) : ButPc s { s with pc := pc } :=
  ⟨rfl, rfl, rfl, rfl, rfl, fun _ _ => rfl, fun _ => rfl, rfl, rfl⟩

theorem ButPc.wires (h : ButPc s t) : t.wires = s.wires := by
  rw [State.wires, State.wires, h.state, h.instr]

/-- The ALU reads the pc at a fetch, and where its result goes nowhere. -/
theorem ButPc.aluResult (h : ButPc s t) (hsrc : s.wires.aluSrcA ≠ .pc) :
    t.aluResult = s.aluResult := by
  have hA : t.srcA = s.srcA := by
    rw [srcA, srcA, h.wires, h.oldPc, h.rd1Buf]
    split
    · next hpc => exact absurd hpc hsrc
    · rfl
    · rfl
  have hB : t.srcB = s.srcB := by rw [srcB, srcB, h.wires, h.rd2Buf, h.instr]
  rw [State.aluResult, State.aluResult, aluControl, aluControl, hA, hB, h.wires, h.instr]

/-- What the register file is written with is the same. -/
theorem ButPc.result (h : ButPc s t) (hw : s.wires.regWrite) :
    t.result = s.result := by
  rw [State.result, State.result, h.wires]
  cases hst : s.state with
  | memWb =>
    simp [State.wires, hst, ControlUnit.fsm, ControlUnit.fsmDefault, h.readDataBuf hst]
  | aluWb =>
    have hbuf := h.aluOutBuf (by rw [hst]; decide) (by rw [hst]; decide)
    simp [State.wires, hst, ControlUnit.fsm, ControlUnit.fsmDefault, hbuf]
  | jalrLink | auipc =>
    have halu := h.aluResult (by rw [State.wires, hst]; exact nofun)
    simp [State.wires, hst, ControlUnit.fsm, halu]
  | lui => simp [State.wires, hst, ControlUnit.fsm, h.instr]
  | _ =>
    rw [State.wires, hst] at hw
    cases hw

theorem oldPc_clock_of_ne (h : s.state ≠ .fetch) : (s.clock false).oldPc = s.oldPc := by
  change (if s.wires.irWrite then s.pc else s.oldPc) = _
  rw [if_neg]
  cases hs : s.state <;> simp_all [wires, ControlUnit.fsm, ControlUnit.fsmDefault]

theorem memory_clock_of_ne (h : s.state ≠ .memWrite) : (s.clock false).memory = s.memory := by
  change (if s.wires.memWrite && !false then _ else s.memory) = _
  rw [if_neg]
  cases hs : s.state <;> simp_all [wires, ControlUnit.fsm, ControlUnit.fsmDefault]

/-- Only `memRead` leads to `memWb`. -/
theorem state_of_memWb (h : (s.clock false).state = .memWb) : s.state = .memRead := by
  rw [state_clock] at h
  cases hst : s.state with
  | memRead => rfl
  | decode =>
    rw [hst] at h
    change ControlUnit.decodeNext _ = _ at h
    unfold ControlUnit.decodeNext at h
    split_ifs at h
  | memAdr =>
    rw [hst] at h
    change ControlUnit.memAdrNext _ = _ at h
    unfold ControlUnit.memAdrNext at h
    split_ifs at h
  | _ => rw [hst] at h; cases h

/-- The result is loaded where it will be read, and there it is the same. -/
theorem ButPc.aluResult_of_next (h : ButPc s t) (hne : s.state ≠ .fetch)
    (hfetch : (s.clock false).state ≠ .fetch) (hmemWb : (s.clock false).state ≠ .memWb) :
    t.aluResult = s.aluResult := by
  refine h.aluResult ?_
  rw [state_clock] at hfetch hmemWb
  rw [State.wires]
  cases hst : s.state with
  | fetch => exact absurd hst hne
  | memRead => exact absurd (by rw [hst]; rfl) hmemWb
  | memWb | memWrite | aluWb | lui => exact absurd (by rw [hst]; rfl) hfetch
  | _ => exact nofun

/-- **A cycle keeps it so**, and at the next fetch the two have written the
same. -/
theorem ButPc.clock (h : ButPc s t) (hne : s.state ≠ .fetch) :
    ButPc (s.clock false) (t.clock false) where
  state := by rw [state_clock, state_clock, h.state, h.instr]
  oldPc := by
    have hne' : t.state ≠ .fetch := h.state ▸ hne
    rw [oldPc_clock_of_ne hne, oldPc_clock_of_ne hne', h.oldPc]
  instr := by
    have hne' : t.state ≠ .fetch := h.state ▸ hne
    rw [instr_clock hne, instr_clock hne', h.instr]
  rd1Buf := by
    change RegisterFile.rd t.registerFile (rs1Of t.instr) = RegisterFile.rd s.registerFile _
    rw [h.registerFile, h.instr]
  rd2Buf := by
    change RegisterFile.rd t.registerFile (rs2Of t.instr) = RegisterFile.rd s.registerFile _
    rw [h.registerFile, h.instr]
  aluOutBuf := h.aluResult_of_next hne
  readDataBuf hmemWb := by
    have hst := state_of_memWb hmemWb
    have hbuf := h.aluOutBuf hne (by rw [hst]; decide)
    change t.readData = s.readData
    rw [readData_memRead hst, readData_memRead (h.state.trans hst), h.memory, hbuf, h.instr]
  registerFile := by
    change RegisterFile.clock t.registerFile (rdOf t.instr) t.result t.wires.regWrite false =
      RegisterFile.clock s.registerFile (rdOf s.instr) s.result s.wires.regWrite false
    rw [h.registerFile, h.instr, h.wires]
    by_cases hw : s.wires.regWrite
    · rw [h.result hw]
    · rw [Bool.eq_false_iff.2 hw, RegisterFile.clock_idle, RegisterFile.clock_idle]
  memory := by
    by_cases hst : s.state = .memWrite
    · have hbuf := h.aluOutBuf hne (by rw [hst]; decide)
      rw [clock_memWrite hst, clock_memWrite (h.state.trans hst), h.memory, h.instr, h.rd2Buf, hbuf]
    · rw [memory_clock_of_ne hst, memory_clock_of_ne (h.state ▸ hst), h.memory]

end State

end Perilus

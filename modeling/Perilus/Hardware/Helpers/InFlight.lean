import Perilus.Hardware.Helpers.Cycle
/-!
# Perilus — one instruction, from fetch to fetch

`InFlight a s` says that `s` is a cycle of the instruction fetched at
`a`: which opcode each FSM state serves, and which buffers hold what. It
is preserved by a cycle that stays inside the instruction
(`InFlight.clock`), and the cycle that ends it leaves `Arch.exec`
(`InFlight.arch_clock`).
-/

namespace Perilus

namespace Opcode

theorem ofUInt?_eq_some {x : BitVec 7} {o : Opcode} : ofUInt? x = some o ↔ x = o.asUInt := by
  constructor
  · intro h
    have := List.find?_some h
    simp only [decide_eq_true_eq] at this
    exact this.symm
  · rintro rfl
    cases o <;> rfl

theorem ofUInt?_asUInt (o : Opcode) : ofUInt? o.asUInt = some o := ofUInt?_eq_some.2 rfl

theorem asUInt_injective {o o' : Opcode} (h : o.asUInt = o'.asUInt) : o = o' := by
  have h' := ofUInt?_eq_some.2 h
  rw [ofUInt?_asUInt] at h'
  exact Option.some.inj h'

theorem ofUInt?_eq_none {x : BitVec 7} (h : ofUInt? x = none) (o : Opcode) : x ≠ o.asUInt := by
  rintro rfl
  rw [ofUInt?_asUInt] at h
  cases h

end Opcode

/-! ## `exec`, opcode by opcode -/

namespace Arch

variable {a : Arch}

theorem exec_of_op {o : Opcode} (ho : a.op = o.asUInt) : Opcode.ofUInt? a.op = some o :=
  Opcode.ofUInt?_eq_some.2 ho

theorem exec_load (ho : a.op = Opcode.load.asUInt) : a.exec = a.write a.loaded := by
  rw [exec, exec_of_op ho]

theorem exec_store (ho : a.op = Opcode.store.asUInt) :
    a.exec =
      { a.advance with
        memory := Memory.stored a.memory a.address (accessMask a.funct3) a.rd2 } := by
  rw [exec, exec_of_op ho]
  rfl

theorem exec_rType (ho : a.op = Opcode.rType.asUInt) : a.exec = a.write a.aluValue := by
  rw [exec, exec_of_op ho]

theorem exec_immediate (ho : a.op = Opcode.immediate.asUInt) : a.exec = a.write a.aluValue := by
  rw [exec, exec_of_op ho]

theorem exec_jal (ho : a.op = Opcode.jal.asUInt) :
    a.exec = { a.write a.aluValue with pc := a.target } := by
  rw [exec, exec_of_op ho]

theorem exec_jalr (ho : a.op = Opcode.jalr.asUInt) :
    a.exec = { a.write a.jalrLink with pc := a.jalrTarget } := by
  rw [exec, exec_of_op ho]

theorem exec_branch (ho : a.op = Opcode.branch.asUInt) :
    a.exec = { a with pc := if a.taken then a.target else a.nextPc } := by
  rw [exec, exec_of_op ho]

theorem exec_lui (ho : a.op = Opcode.lui.asUInt) : a.exec = a.write a.imm := by
  rw [exec, exec_of_op ho]

theorem exec_auipc (ho : a.op = Opcode.auipc.asUInt) : a.exec = a.write (a.pc + a.imm) := by
  rw [exec, exec_of_op ho]

theorem exec_env (ho : a.op = Opcode.env.asUInt ∨ a.op = Opcode.fence.asUInt) :
    a.exec = a.advance := by
  rcases ho with ho | ho <;> rw [exec, exec_of_op ho]

/-- The value an arithmetic instruction writes, register operand. -/
theorem aluValue_rType (ho : a.op = Opcode.rType.asUInt) :
    a.aluValue = Alu.aluResult (arithmeticOf a.word) a.rd1 a.rd2 := by
  rw [aluValue, if_neg (by rw [ho]; decide), if_pos ho]

/-- The value an arithmetic instruction writes, immediate operand. -/
theorem aluValue_immediate (ho : a.op = Opcode.immediate.asUInt) :
    a.aluValue = Alu.aluResult (arithmeticOf a.word) a.rd1 a.imm := by
  rw [aluValue, if_neg (by rw [ho]; decide), if_neg (by rw [ho]; decide)]

theorem aluValue_jal (ho : a.op = Opcode.jal.asUInt) : a.aluValue = a.pc + 4 := by
  rw [aluValue, if_pos ho]

/-- In `aluWb` of an arithmetic instruction only the pc has moved. -/
theorem during_aluWb (ho : a.op = Opcode.rType.asUInt ∨ a.op = Opcode.immediate.asUInt) :
    a.during .aluWb = a.advance := by
  rcases ho with ho | ho <;> rw [during, if_neg (by rw [ho]; decide)]

/-- After its fetch an instruction finds the next word's pc, but for a
`jal` that has jumped. -/
theorem during_pc {st : ControlUnitState} (hst : st ≠ .fetch)
    (ho : st = .aluWb → a.op ≠ Opcode.jal.asUInt) : (a.during st).pc = a.nextPc := by
  cases st with
  | fetch => exact absurd rfl hst
  | aluWb =>
    rw [during, if_neg (ho rfl)]
    rfl
  | _ => rfl

end Arch

/-! ## The invariant -/

/-- The three buffers `decode` loads, as the state after it reads them. -/
structure Decoded (a : Arch) (s : State) : Prop where
  rd1Buf : s.rd1Buf = a.rd1
  rd2Buf : s.rd2Buf = a.rd2
  aluOutBuf : s.aluOutBuf = a.pc + a.imm

/-- What the buffers hold in each FSM state that reads them. -/
def Buffered (a : Arch) (s : State) (st : ControlUnitState) : Prop :=
  match st with
  | .fetch | .decode => True
  | .memAdr | .executeR | .executeI | .jal | .jalrLink | .branch | .lui | .auipc => Decoded a s
  | .memRead => s.aluOutBuf = a.address
  | .memWrite => s.aluOutBuf = a.address ∧ s.rd2Buf = a.rd2
  | .memWb => s.readDataBuf = a.loaded
  | .aluWb => s.aluOutBuf = a.aluValue
  | .jalrJump => s.rd1Buf = a.rd1

/-- **`s` is a cycle of the instruction fetched at `a`.** -/
structure InFlight (a : Arch) (s : State) : Prop where
  visible : s.arch = a.during s.state
  serves : Serves s.state a.op
  instr : s.state ≠ .fetch → s.instr = a.word
  oldPc : s.state ≠ .fetch → s.oldPc = a.pc
  buffered : Buffered a s s.state

/-- A machine at a fetch is at the first cycle of the instruction its own
visible state names. -/
theorem InFlight.of_fetch {s : State} (h : s.state = .fetch) : InFlight s.arch s where
  visible := by rw [h]; rfl
  serves := by rw [h]; trivial
  instr hne := absurd h hne
  oldPc hne := absurd h hne
  buffered := by rw [h]; trivial

/-- And of no other. -/
theorem InFlight.arch_eq {a : Arch} {s : State} (h : InFlight a s) (hs : s.state = .fetch) :
    s.arch = a := by
  rw [h.visible, hs]; rfl

/-! ## One cycle of it -/

/-- An unsupported opcode stays in `decode`. -/
theorem decodeNext_of_none {op : BitVec 7} (h : Opcode.ofUInt? op = none) :
    ControlUnit.decodeNext op = .decode := by
  have hne := Opcode.ofUInt?_eq_none h
  simp only [ControlUnit.decodeNext, hne, or_self, if_false]

/-- Where `decode` goes, and for which opcodes. -/
theorem decodeNext_cases (op : BitVec 7) :
    (ControlUnit.decodeNext op = .decode ∧ Opcode.ofUInt? op = none) ∨
      (ControlUnit.decodeNext op = .fetch ∧
        (op = Opcode.env.asUInt ∨ op = Opcode.fence.asUInt)) ∨
      (Serves (ControlUnit.decodeNext op) op ∧
        (ControlUnit.decodeNext op = .memAdr ∨ ControlUnit.decodeNext op = .executeR ∨
          ControlUnit.decodeNext op = .executeI ∨ ControlUnit.decodeNext op = .jal ∨
          ControlUnit.decodeNext op = .jalrLink ∨ ControlUnit.decodeNext op = .branch ∨
          ControlUnit.decodeNext op = .lui ∨ ControlUnit.decodeNext op = .auipc)) := by
  rcases ho : Opcode.ofUInt? op with - | o
  · exact .inl ⟨decodeNext_of_none ho, rfl⟩
  · obtain rfl := Opcode.ofUInt?_eq_some.1 ho
    cases o <;> simp [ControlUnit.decodeNext, Serves]

namespace InFlight

variable {a : Arch} {s : State}

/-- In the states where only the pc has moved, the rest is as fetched. -/
theorem advanced (h : InFlight a s) (hd : a.during s.state = a.advance) :
    s.pc = a.nextPc ∧ s.registerFile = a.registerFile ∧ s.memory = a.memory := by
  have hv := h.visible
  rw [hd] at hv
  exact ⟨congrArg Arch.pc hv, congrArg Arch.registerFile hv, congrArg Arch.memory hv⟩

theorem serves_at {st : ControlUnitState} (h : InFlight a s) (hst : s.state = st) :
    Serves st a.op := hst ▸ h.serves

theorem buffered_at {st : ControlUnitState} (h : InFlight a s) (hst : s.state = st) :
    Buffered a s st := hst ▸ h.buffered

/-- The opcode wire carries the opcode of the instruction in flight. -/
theorem opOf_instr (h : InFlight a s) (hs : s.state ≠ .fetch) : opOf s.instr = a.op := by
  rw [h.instr hs]; rfl

/-- The buffers a cycle outside `fetch` loads from the register file. -/
theorem latch_rd (h : InFlight a s) (hs : s.state ≠ .fetch)
    (hr : s.registerFile = a.registerFile) :
    s.latch.rd1Buf = a.rd1 ∧ s.latch.rd2Buf = a.rd2 := by
  have hi := h.instr hs
  constructor
  · simp only [State.latch, hr, hi, Arch.rd1]
  · simp only [State.latch, hr, hi, Arch.rd2]

/-- Moving on inside the instruction with nothing but the buffers loaded. -/
theorem latch_next {st : ControlUnitState} (h : InFlight a s) (hs : s.state ≠ .fetch)
    (hd : a.during s.state = a.advance) (hd' : a.during st = a.advance) (hserves : Serves st a.op)
    (hbuf : Buffered a { s.latch with state := st } st) :
    InFlight a { s.latch with state := st } where
  visible := by
    obtain ⟨hpc, hrf, hmem⟩ := h.advanced hd
    rw [show ({ s.latch with state := st } : State).state = st from rfl, hd']
    exact Arch.ext hpc hrf hmem
  serves := hserves
  instr _ := h.instr hs
  oldPc _ := h.oldPc hs
  buffered := hbuf

theorem clock_fetch (h : InFlight a s) (hst : s.state = .fetch) : InFlight a (s.clock false) := by
  obtain rfl := h.arch_eq hst
  rw [State.clock_fetch hst]
  exact ⟨rfl, trivial, fun _ => rfl, fun _ => rfl, trivial⟩

theorem clock_decode (h : InFlight a s) (hst : s.state = .decode)
    (hne : (s.clock false).state ≠ .fetch) : InFlight a (s.clock false) := by
  have hs : s.state ≠ .fetch := by rw [hst]; decide
  have hd : a.during s.state = a.advance := by rw [hst]; rfl
  obtain ⟨h1, h2⟩ := h.latch_rd hs (h.advanced hd).2.1
  -- whichever state comes next, it finds the operands and the target
  have hdec : ∀ st, Decoded a { s.latch with state := st } := by
    intro st
    refine ⟨h1, h2, ?_⟩
    change s.aluResult = _
    rw [State.aluResult_decode hst, h.oldPc hs, h.instr hs, Arch.imm]
  rw [State.clock_decode hst, h.opOf_instr hs] at hne ⊢
  rcases decodeNext_cases a.op with ⟨hn, -⟩ | ⟨hn, -⟩ | ⟨hserves, hn⟩
  · rw [hn]
    exact h.latch_next hs hd rfl trivial trivial
  · exact absurd hn hne
  · rcases hn with hn | hn | hn | hn | hn | hn | hn | hn
    all_goals
      rw [hn] at hserves ⊢
      exact h.latch_next hs hd rfl hserves (hdec _)

theorem clock_memAdr (h : InFlight a s) (hst : s.state = .memAdr) : InFlight a (s.clock false) := by
  have hs : s.state ≠ .fetch := by rw [hst]; decide
  have hd : a.during s.state = a.advance := by rw [hst]; rfl
  have hbuf : Decoded a s := h.buffered_at hst
  have hadr : s.latch.aluOutBuf = a.address := by
    change s.aluResult = _
    rw [State.aluResult_memAdr hst, hbuf.rd1Buf, h.instr hs]
    rfl
  rw [State.clock_memAdr hst, h.opOf_instr hs]
  rcases h.serves_at hst with ho | ho
  · rw [show ControlUnit.memAdrNext a.op = .memRead by rw [ho]; rfl]
    exact h.latch_next hs hd rfl ho hadr
  · rw [show ControlUnit.memAdrNext a.op = .memWrite by rw [ho]; rfl]
    exact h.latch_next hs hd rfl ho ⟨hadr, (h.latch_rd hs (h.advanced hd).2.1).2⟩

theorem clock_memRead (h : InFlight a s) (hst : s.state = .memRead) :
    InFlight a (s.clock false) := by
  have hs : s.state ≠ .fetch := by rw [hst]; decide
  have hd : a.during s.state = a.advance := by rw [hst]; rfl
  have ho : a.op = Opcode.load.asUInt := h.serves_at hst
  have hbuf : s.aluOutBuf = a.address := h.buffered_at hst
  have hread : s.latch.readDataBuf = a.loaded := by
    change s.readData = _
    rw [State.readData_memRead hst, h.opOf_instr hs, h.instr hs, hbuf, (h.advanced hd).2.2,
      accessMask_of (.inl rfl) (.inl ho), ho]
    rfl
  rw [State.clock_memRead hst]
  exact h.latch_next hs hd rfl ho hread

theorem clock_executeR (h : InFlight a s) (hst : s.state = .executeR) :
    InFlight a (s.clock false) := by
  have hs : s.state ≠ .fetch := by rw [hst]; decide
  have hd : a.during s.state = a.advance := by rw [hst]; rfl
  have ho : a.op = Opcode.rType.asUInt := h.serves_at hst
  have hbuf : Decoded a s := h.buffered_at hst
  have halu : s.latch.aluOutBuf = a.aluValue := by
    change s.aluResult = _
    rw [State.aluResult_executeR hst, h.instr hs, hbuf.rd1Buf, hbuf.rd2Buf,
      Arch.aluValue_rType ho]
  rw [State.clock_executeR hst]
  exact h.latch_next hs hd (Arch.during_aluWb (.inl ho)) (.inl ho) halu

theorem clock_executeI (h : InFlight a s) (hst : s.state = .executeI) :
    InFlight a (s.clock false) := by
  have hs : s.state ≠ .fetch := by rw [hst]; decide
  have hd : a.during s.state = a.advance := by rw [hst]; rfl
  have ho : a.op = Opcode.immediate.asUInt := h.serves_at hst
  have hbuf : Decoded a s := h.buffered_at hst
  have halu : s.latch.aluOutBuf = a.aluValue := by
    change s.aluResult = _
    rw [State.aluResult_executeI hst, h.instr hs, hbuf.rd1Buf, Arch.aluValue_immediate ho,
      Arch.imm]
  rw [State.clock_executeI hst]
  exact h.latch_next hs hd (Arch.during_aluWb (.inr ho)) (.inr (.inl ho)) halu

theorem clock_jal (h : InFlight a s) (hst : s.state = .jal) : InFlight a (s.clock false) := by
  have hs : s.state ≠ .fetch := by rw [hst]; decide
  obtain ⟨-, hrf, hmem⟩ := h.advanced (by rw [hst]; rfl)
  have ho : a.op = Opcode.jal.asUInt := h.serves_at hst
  have hbuf : Decoded a s := h.buffered_at hst
  rw [State.clock_jal hst]
  refine ⟨?_, .inr (.inr ho), fun _ => h.instr hs, fun _ => h.oldPc hs, ?_⟩
  · rw [Arch.during, if_pos ho]
    exact Arch.ext (by rw [State.arch_pc, hbuf.aluOutBuf]; rfl) hrf hmem
  · change s.aluResult = _
    rw [State.aluResult_jal hst, h.oldPc hs, Arch.aluValue_jal ho]

theorem clock_jalrLink (h : InFlight a s) (hst : s.state = .jalrLink) :
    InFlight a (s.clock false) := by
  have hs : s.state ≠ .fetch := by rw [hst]; decide
  obtain ⟨hpc, hrf, hmem⟩ := h.advanced (by rw [hst]; rfl)
  have ho : a.op = Opcode.jalr.asUInt := h.serves_at hst
  rw [State.clock_jalrLink hst]
  refine ⟨Arch.ext hpc ?_ hmem, ho, fun _ => h.instr hs, fun _ => h.oldPc hs, ?_⟩
  · rw [State.arch_registerFile, hrf, h.instr hs, h.oldPc hs]
    rfl
  · -- the link is written at this clock edge, so the buffer still gets the old `rs1`
    exact (h.latch_rd hs hrf).1

/-- **A cycle that stays inside the instruction keeps the invariant.** -/
theorem clock (h : InFlight a s) (hne : (s.clock false).state ≠ .fetch) :
    InFlight a (s.clock false) := by
  cases hst : s.state with
  | fetch => exact h.clock_fetch hst
  | decode => exact h.clock_decode hst hne
  | memAdr => exact h.clock_memAdr hst
  | memRead => exact h.clock_memRead hst
  | executeR => exact h.clock_executeR hst
  | executeI => exact h.clock_executeI hst
  | jal => exact h.clock_jal hst
  | jalrLink => exact h.clock_jalrLink hst
  | memWb => exact absurd (by rw [State.clock_memWb hst]) hne
  | memWrite => exact absurd (by rw [State.clock_memWrite hst]) hne
  | aluWb => exact absurd (by rw [State.clock_aluWb hst]) hne
  | jalrJump => exact absurd (by rw [State.clock_jalrJump hst]) hne
  | branch => exact absurd (by rw [State.clock_branch hst]) hne
  | lui => exact absurd (by rw [State.clock_lui hst]) hne
  | auipc => exact absurd (by rw [State.clock_auipc hst]) hne

/-! ## The last cycle -/

/-- An instruction that ends by writing its destination register. -/
theorem arch_written {v : BitVec 32} {st : ControlUnitState} (h : InFlight a s)
    (hs : s.state ≠ .fetch) (hd : a.during s.state = a.advance) :
    ({ s.latch with
        state := st
        registerFile := RegisterFile.written s.registerFile (rdOf s.instr) v } : State).arch =
      a.write v := by
  obtain ⟨hpc, hrf, hmem⟩ := h.advanced hd
  refine Arch.ext hpc ?_ hmem
  rw [State.arch_registerFile, hrf, h.instr hs]
  rfl

theorem arch_memWb (h : InFlight a s) (hst : s.state = .memWb) :
    (s.clock false).arch = a.exec := by
  have ho : a.op = Opcode.load.asUInt := h.serves_at hst
  have hbuf : s.readDataBuf = a.loaded := h.buffered_at hst
  rw [State.clock_memWb hst, h.arch_written (by rw [hst]; decide) (by rw [hst]; rfl), hbuf,
    Arch.exec_load ho]

theorem arch_memWrite (h : InFlight a s) (hst : s.state = .memWrite) :
    (s.clock false).arch = a.exec := by
  have hs : s.state ≠ .fetch := by rw [hst]; decide
  have ho : a.op = Opcode.store.asUInt := h.serves_at hst
  obtain ⟨hadr, hdata⟩ : s.aluOutBuf = a.address ∧ s.rd2Buf = a.rd2 := h.buffered_at hst
  obtain ⟨hpc, hrf, hmem⟩ := h.advanced (by rw [hst]; rfl)
  rw [State.clock_memWrite hst, Arch.exec_store ho]
  refine Arch.ext hpc hrf ?_
  rw [State.arch_memory, hmem, hadr, hdata, h.opOf_instr hs, h.instr hs,
    accessMask_of (.inr (.inr rfl)) (.inr ho)]
  rfl

theorem arch_aluWb (h : InFlight a s) (hst : s.state = .aluWb) :
    (s.clock false).arch = a.exec := by
  have hs : s.state ≠ .fetch := by rw [hst]; decide
  have hbuf : s.aluOutBuf = a.aluValue := h.buffered_at hst
  rw [State.clock_aluWb hst]
  rcases h.serves_at hst with ho | ho | ho
  · rw [h.arch_written hs (by rw [hst]; exact Arch.during_aluWb (.inl ho)), hbuf,
      Arch.exec_rType ho]
  · rw [h.arch_written hs (by rw [hst]; exact Arch.during_aluWb (.inr ho)), hbuf,
      Arch.exec_immediate ho]
  · -- a jump has moved the pc already
    have hv : s.arch = { a with pc := a.target } := by
      rw [h.visible, hst, Arch.during, if_pos ho]
    have hpc : s.pc = a.target := congrArg Arch.pc hv
    have hrf : s.registerFile = a.registerFile := congrArg Arch.registerFile hv
    have hmem : s.memory = a.memory := congrArg Arch.memory hv
    rw [Arch.exec_jal ho]
    refine Arch.ext hpc ?_ hmem
    rw [State.arch_registerFile, hrf, h.instr hs, hbuf]
    rfl

theorem arch_jalrJump (h : InFlight a s) (hst : s.state = .jalrJump) :
    (s.clock false).arch = a.exec := by
  have hs : s.state ≠ .fetch := by rw [hst]; decide
  have ho : a.op = Opcode.jalr.asUInt := h.serves_at hst
  have hbuf : s.rd1Buf = a.rd1 := h.buffered_at hst
  have hv : s.arch = a.write a.jalrLink := by rw [h.visible, hst]; rfl
  have hrf : s.registerFile = (a.write a.jalrLink).registerFile := congrArg Arch.registerFile hv
  have hmem : s.memory = a.memory := congrArg Arch.memory hv
  rw [State.clock_jalrJump hst, Arch.exec_jalr ho]
  refine Arch.ext ?_ hrf hmem
  rw [State.arch_pc, hbuf, h.instr hs]
  rfl

theorem arch_branch (h : InFlight a s) (hst : s.state = .branch) :
    (s.clock false).arch = a.exec := by
  have hs : s.state ≠ .fetch := by rw [hst]; decide
  have ho : a.op = Opcode.branch.asUInt := h.serves_at hst
  have hbuf : Decoded a s := h.buffered_at hst
  obtain ⟨hpc, hrf, hmem⟩ := h.advanced (by rw [hst]; rfl)
  rw [State.clock_branch hst, Arch.exec_branch ho]
  refine Arch.ext ?_ hrf hmem
  rw [State.arch_pc, hbuf.rd1Buf, hbuf.rd2Buf, hbuf.aluOutBuf, hpc, h.instr hs]
  rfl

theorem arch_lui (h : InFlight a s) (hst : s.state = .lui) : (s.clock false).arch = a.exec := by
  have hs : s.state ≠ .fetch := by rw [hst]; decide
  have ho : a.op = Opcode.lui.asUInt := h.serves_at hst
  rw [State.clock_lui hst, h.arch_written hs (by rw [hst]; rfl), h.instr hs,
    Arch.exec_lui ho, Arch.imm]

theorem arch_auipc (h : InFlight a s) (hst : s.state = .auipc) :
    (s.clock false).arch = a.exec := by
  have hs : s.state ≠ .fetch := by rw [hst]; decide
  have ho : a.op = Opcode.auipc.asUInt := h.serves_at hst
  rw [State.clock_auipc hst, h.arch_written hs (by rw [hst]; rfl), h.instr hs, h.oldPc hs,
    Arch.exec_auipc ho, Arch.imm]

/-- An instruction `decode` has nothing to do for. -/
theorem arch_decode (h : InFlight a s) (hst : s.state = .decode)
    (hf : (s.clock false).state = .fetch) : (s.clock false).arch = a.exec := by
  have hs : s.state ≠ .fetch := by rw [hst]; decide
  obtain ⟨hpc, hrf, hmem⟩ := h.advanced (by rw [hst]; rfl)
  rw [State.clock_decode hst, h.opOf_instr hs] at hf
  have ho : a.op = Opcode.env.asUInt ∨ a.op = Opcode.fence.asUInt := by
    rcases decodeNext_cases a.op with ⟨hn, -⟩ | ⟨-, ho⟩ | ⟨-, hn⟩
    · rw [hn] at hf; cases hf
    · exact ho
    · rcases hn with hn | hn | hn | hn | hn | hn | hn | hn <;> (rw [hn] at hf; cases hf)
  rw [State.clock_decode hst, Arch.exec_env ho]
  exact Arch.ext hpc hrf hmem

/-- **The cycle that ends an instruction leaves `exec`.** -/
theorem arch_clock (h : InFlight a s) (hs : s.state ≠ .fetch)
    (hf : (s.clock false).state = .fetch) : (s.clock false).arch = a.exec := by
  cases hst : s.state with
  | fetch => exact absurd hst hs
  | decode => exact h.arch_decode hst hf
  | memWb => exact h.arch_memWb hst
  | memWrite => exact h.arch_memWrite hst
  | aluWb => exact h.arch_aluWb hst
  | jalrJump => exact h.arch_jalrJump hst
  | branch => exact h.arch_branch hst
  | lui => exact h.arch_lui hst
  | auipc => exact h.arch_auipc hst
  | memAdr =>
    rw [State.clock_memAdr hst, h.opOf_instr hs] at hf
    rcases h.serves_at hst with ho | ho <;> (rw [ho] at hf; cases hf)
  | memRead => rw [State.clock_memRead hst] at hf; cases hf
  | executeR => rw [State.clock_executeR hst] at hf; cases hf
  | executeI => rw [State.clock_executeI hst] at hf; cases hf
  | jal => rw [State.clock_jal hst] at hf; cases hf
  | jalrLink => rw [State.clock_jalrLink hst] at hf; cases hf

end InFlight

end Perilus

import Perilus.Hardware.Assemble
import Perilus.Hardware.Dialect
import Perilus.Hardware.Fibonacci
/-!
# Perilus — assembled programs on the design

A memory that holds a program's words keeps holding them as long as the
program does not store over itself, and each of them decodes to the
instruction it was assembled from. So the design does what the list of
instructions says, in the cycles of their opcodes.
-/

namespace Perilus

open ByteMemory Rv32i Clocked

namespace Program

section Step

variable {N : ℕ} [NeZero N] {p : Program N} {s t : Rv32i.State N} {i : Instr}

/-- Only a store changes memory. -/
theorem execute_mem (s : Rv32i.State N) (i : Instr) :
    (s.execute i).mem = s.mem ∨ ∃ width rs1 rs2 imm, i = .store width rs1 rs2 imm ∧
      (s.execute i).mem =
        store s.mem (place N width (wrap (s.reg rs1 + imm))) width (s.reg rs2) := by
  cases i with
  | store width rs1 rs2 imm => exact .inr ⟨width, rs1, rs2, imm, rfl, rfl⟩
  | branch | fence | ecall | ebreak => exact .inl rfl
  | _ => exact .inl (Rv32i.State.set_mem ..)

/-- **A program that does not store over itself stays in memory.** -/
theorem In.execute (h : p.In s.mem) (hc : ¬ p.Clobbers s i) : p.In (s.execute i).mem := by
  rcases execute_mem s i with hmem | ⟨width, rs1, rs2, imm, rfl, hmem⟩
  · rwa [hmem]
  · rw [hmem]
    intro k hk
    have hfits := p.fits
    have hbelow : 4 * p.instrs.length ≤ place N width (wrap (s.reg rs1 + imm)) := Nat.not_lt.1 hc
    rw [load_store_of_le _ (by omega) (by omega)]
    exact h k hk

/-- **A fetch of the program** is one of the word it was assembled to. -/
theorem In.fetch_eq (h : p.In s.mem) (hi : p.fetch s.pc = some i) :
    s.fetch = (assemble i).toNat ∧ i ∈ p.instrs := by
  rw [fetch, Option.ite_none_right_eq_some] at hi
  obtain ⟨halign, hget⟩ := hi
  obtain ⟨hlt, rfl⟩ := List.getElem?_eq_some_iff.1 hget
  have hfits := p.fits
  -- below the end of the program a pc does not wrap around
  have hplace : place N 4 s.pc = 4 * (s.pc / 4) := by
    rw [place, Nat.mod_eq_of_lt (by omega), Nat.mul_comm]
  rw [Rv32i.State.fetch, hplace]
  exact ⟨h _ hlt, List.getElem_mem hlt⟩

/-- A word takes the cycles of its instruction. -/
theorem cycles_assemble (i : Instr) : Dialect.cycles (assemble i).toNat = (opcodeOf i).latency := by
  rw [Dialect.cycles, field_of_opOf (opOf_assemble i)]
  cases opcodeOf i <;> rfl

/-- **An assembled word at the pc** is its instruction, in its cycles. -/
theorem step_of_fetch (hi : Encodable i) (h : s.fetch = (assemble i).toNat) :
    s.step = some (s.execute i) ∧ Dialect.cycles s.fetch = (opcodeOf i).latency := by
  constructor
  · rw [Rv32i.State.step, h, decode_assemble hi]
    rfl
  · rw [h, cycles_assemble]

/-- **One step of the program** is one of the reference, in its cycles. -/
theorem In.step (h : p.In s.mem) (hstep : p.step s = some t) :
    ∃ i, p.fetch s.pc = some i ∧ s.step = some t ∧
      Dialect.cycles s.fetch = (opcodeOf i).latency ∧ p.In t.mem := by
  obtain ⟨i, hi, hrest⟩ := Option.bind_eq_some_iff.1 hstep
  obtain ⟨hfetch, hmem⟩ := h.fetch_eq hi
  obtain ⟨hspec, hcycles⟩ := step_of_fetch (p.encodable i hmem) hfetch
  -- a step that would store over the program is none
  split at hrest <;> cases hrest
  next hc => exact ⟨i, hi, hspec, hcycles, h.execute hc⟩

end Step

/-! ## On the design -/

section Design

variable {p : Program memoryBytes} {s : State} {t : Rv32i.State memoryBytes}

/-- The words in the design's memory. -/
theorem in_iff_loaded (memory : Words memoryBits) :
    p.In (Memory.flat memory) ↔ Loaded (p.instrs.map assemble) memory := by
  -- what a fetch reads is the word loaded from the array of bytes
  have hword : ∀ k < p.instrs.length,
      (fetched memory (BitVec.ofNat 32 (4 * k))).toNat = load (Memory.flat memory) (4 * k) 4 := by
    intro k hk
    have hfits : 4 * p.instrs.length ≤ 4194304 := p.fits
    have hplace : place memoryBytes 4 (BitVec.ofNat 32 (4 * k)).toNat = 4 * k := by
      rw [BitVec.toNat_ofNat, Nat.mod_eq_of_lt (by omega), place,
        Nat.mod_eq_of_lt (show 4 * k < memoryBytes from p.fits.trans_lt' (by omega))]
      omega
    rw [fetched, Memory.readData_eq, toNat_readFlat, if_neg Bool.false_ne_true]
    exact congrArg (load (Memory.flat memory) · 4) hplace
  rw [In, Loaded, List.length_map]
  refine forall_congr' fun k => forall_congr' fun hk => ?_
  have hget : (p.instrs.map assemble).getD k 0 = assemble p.instrs[k] := by
    rw [List.getD_eq_getElem?_getD, List.getElem?_map, List.getElem?_eq_getElem hk]
    rfl
  rw [hget, ← hword k hk, BitVec.toNat_inj]

/-- From one fetch to the next the design takes one step of the program. -/
theorem boundary (hs : (AtFetch s ∧ s.pc.toNat % 2 = 0) ∧ p.In s.arch.isa.mem)
    (h : p.step s.arch.isa = some t) :
    let k := (p.fetch s.arch.isa.pc).elim 0 fun i => (opcodeOf i).latency
    NextAt (State.clock false) AtFetch s k ∧
      ((AtFetch ((State.clock false)^[k] s) ∧ ((State.clock false)^[k] s).pc.toNat % 2 = 0) ∧
        p.In ((State.clock false)^[k] s).arch.isa.mem) ∧
          ((State.clock false)^[k] s).arch.isa = t := by
  obtain ⟨i, hi, hstep, hcycles, hin⟩ := hs.2.step h
  obtain ⟨hnext, hfetch, hisa⟩ := dialect_boundary hs.1 (Dialect.step_of_rv32i hstep)
  intro k
  have hk : k = Dialect.cycles s.arch.isa.fetch := by
    rw [hcycles]
    exact congrArg (Option.elim · 0 _) hi
  rw [hk]
  exact ⟨hnext, ⟨hfetch, hisa ▸ hin⟩, hisa⟩

end Design

end Program

/-- **The design runs assembled programs.** From a fetch at an even pc,
with a program's words in memory from address 0 on: as long as the
program's list of instructions says what comes next, the design is there
after the cycles of their opcodes, and in the same state. -/
theorem program_runs {p : Program memoryBytes} {s : State} (hs : AtFetch s)
    (hpc : s.pc.toNat % 2 = 0) (hin : Loaded (p.instrs.map assemble) s.memory) {n : ℕ}
    {t : Rv32i.State memoryBytes} (h : runSpec p.step n s.arch.isa = some t) :
    NthReturn (State.clock false) AtFetch s n (p.time n s.arch.isa) ∧
      ((State.clock false)^[p.time n s.arch.isa] s).arch.isa = t := by
  obtain ⟨hnth, -, hisa⟩ := nthReturn_of_timed
    (fun t : Rv32i.State memoryBytes => (p.fetch t.pc).elim 0 fun i => (opcodeOf i).latency)
    (fun s : State => s.arch.isa)
    (fun s => (AtFetch s ∧ s.pc.toNat % 2 = 0) ∧ p.In s.arch.isa.mem)
    (fun _ _ => Program.boundary) n s t ⟨⟨hs, hpc⟩, (Program.in_iff_loaded s.memory).2 hin⟩ h
  exact ⟨hnth, hisa⟩

/-- The instructions of the Fibonacci test. -/
def fibonacciInstrs : List Instr := fibonacci.filterMap fun w => decode w.toNat

/-- They are those of its comments. -/
example : fibonacciInstrs =
    [.alu .add 5 10 0, .aluImm .add 5 5 (-2), .aluImm .add 6 0 1, .alu .add 7 0 0,
      .branch .eq 5 0 24, .alu .add 10 6 7, .alu .add 7 6 0, .alu .add 6 10 0,
      .aluImm .add 5 5 (-1), .branch .eq 0 0 (-20), .alu .add 5 0 0] := by decide

theorem encodable_fibonacciInstrs : ∀ i ∈ fibonacciInstrs, Encodable i := by decide

def fibonacciProgram : Program memoryBytes where
  instrs := fibonacciInstrs
  encodable := encodable_fibonacciInstrs
  fits := Nat.le_of_ble_eq_true rfl

/-- The Fibonacci test up to its loop: five instructions, nineteen cycles. -/
theorem program_runs_fibonacci :
    let s := { State.zeroed with
      registerFile := fun _ => 3
      memory := fun idx => Memory.writeLanes .word 0 (fibonacci.getD idx.toNat 0) }
    NthReturn (State.clock false) AtFetch s 5 19 ∧
      ((State.clock false)^[19] s).arch.isa =
        (fibonacciInstrs.take 5).foldl Rv32i.State.execute s.arch.isa :=
  program_runs (p := fibonacciProgram)
    (s := { State.zeroed with
      registerFile := fun _ => 3
      memory := fun idx => Memory.writeLanes .word 0 (fibonacci.getD idx.toNat 0) })
    rfl rfl (by decide) rfl

end Perilus

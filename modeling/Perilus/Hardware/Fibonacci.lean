import Mathlib.Data.Nat.Fib.Basic
import Perilus.Hardware.Helpers.Integers
import Perilus.Hardware.Helpers.Progress
/-!
# Perilus — the Fibonacci test program

The program of the `20th Fibonacci number` test, for any argument. Each
instruction is a segment of clock cycles between two fetches, in none of
which the pc is the one the test waits for; the loop invariant is that
`t1` and `t2` hold two Fibonacci numbers in a row.
-/

namespace Perilus

open Clocked

/-- The words of the test. -/
def fibonacci : List (BitVec 32) :=
  [0x000502b3, -- add t0, a0, zero
   0xffe28293, -- addi t0, t0, -2
   0x00100313, -- addi t1, zero, 1
   0x000003b3, -- add t2, zero, zero
   0x00028c63, -- beq t0, zero, 24
   0x00730533, -- add a0, t1, t2
   0x000303b3, -- add t2, t1, zero
   0x00050333, -- add t1, a0, zero
   0xfff28293, -- addi t0, t0, -1
   0xfe0006e3, -- beq zero, zero, -20
   0x000002b3] -- add t0, zero, zero

/-- The memory holds a program from address 0 on. -/
def Loaded (program : List (BitVec 32)) (memory : Words memoryBits) : Prop :=
  ∀ i < program.length, fetched memory (BitVec.ofNat 32 (4 * i)) = program.getD i 0

instance decidableLoaded (program : List (BitVec 32)) (memory : Words memoryBits) :
    Decidable (Loaded program memory) := Nat.decidableBallLT _ _

/-! ## Instructions as segments -/

/-- A fetch at which a program sees `A`. -/
def Boundary (A : Arch → Prop) (s : State) : Prop := AtFetch s ∧ A s.arch

/-- The pc is not `x`. -/
def KeepsOff (x : BitVec 32) (s : State) : Prop := s.pc ≠ x

/-- **An instruction whose address and successor are not `x`** is a
segment that keeps off `x`. -/
theorem leads_exec {x : BitVec 32} {o : Opcode} {A B : Arch → Prop} (hjal : o ≠ .jal)
    (h : ∀ a, A a → a.op = o.asUInt ∧ a.pc ≠ x ∧ a.nextPc ≠ x ∧ B a.exec) :
    Leads (State.clock false) (KeepsOff x) (Boundary A) o.latency (Boundary B) := by
  rintro s ⟨hs, hA⟩
  obtain ⟨ho, hpc, hnext, hB⟩ := h s.arch hA
  refine ⟨?_, atFetch_latency hs ho, by rwa [arch_latency hs ho]⟩
  -- the pc is the instruction's own in its fetch, and the next word's after it
  intro i hi
  rcases Nat.eq_zero_or_pos i with rfl | hpos
  · exact hpc
  · obtain ⟨hst, hfl⟩ := inFlight_run hs ho i hi
    have hvis : ((State.clock false)^[i] s).pc = (s.arch.during (o.phase i)).pc := by
      rw [← hst]
      exact congrArg Arch.pc hfl.visible
    have hop : s.arch.op ≠ Opcode.jal.asUInt := by
      rw [ho]
      exact fun heq => hjal (Opcode.asUInt_injective heq)
    rw [KeepsOff, hvis, Arch.during_pc (o.phase_ne_fetch i hi hpos) fun _ => hop]
    exact hnext

/-! ## Its three kinds of instruction -/

theorem RegisterFile.rd_written (registerFile : Registers) (a3 : BitVec 5) (v : BitVec 32) :
    rd (written registerFile a3 v) = written (rd registerFile) a3 v := by
  funext r
  by_cases hr : r = 0
  · rw [hr, written_zero, rd, rd, if_pos rfl, if_pos rfl]
  · rw [rd, if_neg hr, written, written]
    split
    · rw [rd, if_neg hr]
    · by_cases ha : r = a3
      · rw [ha, Function.update_self, Function.update_self]
      · rw [Function.update_of_ne ha, Function.update_of_ne ha, rd, if_neg hr]

/-- A program at `pc` whose registers read as `v`. -/
structure At (memory : Words memoryBits) (pc : BitVec 32) (v : Registers) (a : Arch) : Prop where
  pc : a.pc = pc
  memory : a.memory = memory
  reads : RegisterFile.rd a.registerFile = v

section Rules

variable {memory : Words memoryBits} {x pc w : BitVec 32} {v : Registers} {a : Arch}

theorem At.word (h : At memory pc v a) (hw : fetched memory pc = w) : a.word = w := by
  rw [Arch.word, h.memory, h.pc, hw]

/-- Writing a register and falling through. -/
theorem At.write (h : At memory pc v a) (hw : fetched memory pc = w) (value : BitVec 32) :
    At memory ((pc + 4) &&& ~~~1) (RegisterFile.written v (rdOf w) value) (a.write value) where
  pc := by rw [Arch.write, Arch.nextPc, h.pc]
  memory := h.memory
  reads := by rw [Arch.write, RegisterFile.rd_written, h.reads, Arch.rd, h.word hw]

variable (hw : fetched memory pc = w) (hpc : pc ≠ x) (hnext : (pc + 4) &&& ~~~1 ≠ x)
include hw hpc hnext

theorem leads_add (ho : opOf w = Opcode.rType.asUInt) (hf : arithmeticOf w = .add) :
    Leads (State.clock false) (KeepsOff x) (Boundary (At memory pc v)) 4
      (Boundary (At memory ((pc + 4) &&& ~~~1)
        (RegisterFile.written v (rdOf w) (v (rs1Of w) + v (rs2Of w))))) := by
  refine leads_exec (o := .rType) (by decide) fun a h => ?_
  have hop : a.op = Opcode.rType.asUInt := by rw [Arch.op, h.word hw, ho]
  have hval : a.aluValue = v (rs1Of w) + v (rs2Of w) := by
    rw [Arch.aluValue_rType hop, Arch.rd1, Arch.rd2, h.reads, h.word hw, hf]
    rfl
  refine ⟨hop, h.pc ▸ hpc, by rwa [Arch.nextPc, h.pc], ?_⟩
  rw [Arch.exec_rType hop, hval]
  exact h.write hw _

theorem leads_addi (ho : opOf w = Opcode.immediate.asUInt) (hf : arithmeticOf w = .add) :
    Leads (State.clock false) (KeepsOff x) (Boundary (At memory pc v)) 4
      (Boundary (At memory ((pc + 4) &&& ~~~1)
        (RegisterFile.written v (rdOf w) (v (rs1Of w) + immOf w)))) := by
  refine leads_exec (o := .immediate) (by decide) fun a h => ?_
  have hop : a.op = Opcode.immediate.asUInt := by rw [Arch.op, h.word hw, ho]
  have hval : a.aluValue = v (rs1Of w) + immOf w := by
    rw [Arch.aluValue_immediate hop, Arch.rd1, Arch.imm, h.reads, h.word hw, hf]
    rfl
  refine ⟨hop, h.pc ▸ hpc, by rwa [Arch.nextPc, h.pc], ?_⟩
  rw [Arch.exec_immediate hop, hval]
  exact h.write hw _

theorem leads_beq (ho : opOf w = Opcode.branch.asUInt) (hf : funct3Of w = 0) :
    Leads (State.clock false) (KeepsOff x) (Boundary (At memory pc v)) 3
      (Boundary (At memory
        (if v (rs1Of w) = v (rs2Of w) then (pc + immOf w) &&& ~~~1 else (pc + 4) &&& ~~~1)
        v)) := by
  refine leads_exec (o := .branch) (by decide) fun a h => ?_
  have hop : a.op = Opcode.branch.asUInt := by rw [Arch.op, h.word hw, ho]
  have htaken : a.taken = decide (v (rs1Of w) = v (rs2Of w)) := by
    rw [Arch.taken, Arch.funct3, Arch.rd1, Arch.rd2, h.reads, h.word hw, hf]
    have hsub : comparisonOf w = .sub := by rw [comparisonOf, ho, hf]; rfl
    rw [hsub, zero_sub]
    simp [ControlUnit.branchTaken, BitVec.toNat_inj]
  refine ⟨hop, h.pc ▸ hpc, by rwa [Arch.nextPc, h.pc], ?_⟩
  rw [Arch.exec_branch hop, htaken]
  refine ⟨?_, h.memory, h.reads⟩
  simp only [decide_eq_true_eq, Arch.target, Arch.nextPc, Arch.imm, h.pc, h.word hw]

end Rules

/-! ## The program -/

/-- The program is about to start. -/
structure Start (memory : Words memoryBits) (n : ℕ) (a : Arch) : Prop where
  pc : a.pc = 0
  memory : a.memory = memory
  a0 : RegisterFile.rd a.registerFile 10 = BitVec.ofNat 32 n

/-- **The loop invariant**, after `k` of its rounds. -/
structure Round (memory : Words memoryBits) (n k : ℕ) (a : Arch) : Prop where
  pc : a.pc = 16
  memory : a.memory = memory
  t0 : RegisterFile.rd a.registerFile 5 = BitVec.ofNat 32 (n - 2 - k)
  t1 : RegisterFile.rd a.registerFile 6 = BitVec.ofNat 32 (Nat.fib (k + 1))
  t2 : RegisterFile.rd a.registerFile 7 = BitVec.ofNat 32 (Nat.fib k)
  a0 : 0 < k → RegisterFile.rd a.registerFile 10 = BitVec.ofNat 32 (Nat.fib (k + 1))

/-- The loop is over. -/
structure Finish (memory : Words memoryBits) (n : ℕ) (a : Arch) : Prop where
  pc : a.pc = 40
  memory : a.memory = memory
  a0 : RegisterFile.rd a.registerFile 10 = BitVec.ofNat 32 (Nat.fib (n - 1))

/-- Counting down, in the arithmetic of the machine. -/
theorem ofNat_add_neg (m j : ℕ) :
    BitVec.ofNat 32 (m + j) + -BitVec.ofNat 32 j = BitVec.ofNat 32 m := by
  rw [BitVec.ofNat_add, BitVec.add_assoc, BitVec.add_right_neg, BitVec.add_zero]

section Program

variable {memory : Words memoryBits} (hprog : Loaded fibonacci memory) {n k : ℕ}
include hprog

/-- Before the loop, four instructions. -/
theorem leads_init (hn : 3 ≤ n) :
    Leads (State.clock false) (KeepsOff 44) (Boundary (Start memory n)) 16
      (Boundary (Round memory n 0)) := by
  rintro s ⟨hs, hstart⟩
  let v := RegisterFile.rd s.arch.registerFile
  have h0 := leads_add (x := 44) (v := v) (hprog 0 (by decide)) (by decide) (by decide) rfl rfl
  have h1 := h0.trans (leads_addi (hprog 1 (by decide)) (by decide) (by decide) rfl rfl)
  have h2 := h1.trans (leads_addi (hprog 2 (by decide)) (by decide) (by decide) rfl rfl)
  have h3 := h2.trans (leads_add (hprog 3 (by decide)) (by decide) (by decide) rfl rfl)
  obtain ⟨halong, hat, hend⟩ := h3 s ⟨hs, hstart.pc, hstart.memory, rfl⟩
  have hv : v 10 = BitVec.ofNat 32 n := hstart.a0
  refine ⟨halong, hat, hend.pc, hend.memory, ?_, ?_, ?_, nofun⟩
  · calc
      _ = v 10 + v 0 + -2 := by rw [hend.reads]; rfl
      _ = BitVec.ofNat 32 n + -2 := by rw [hv]; exact congrArg (· + -2) (BitVec.add_zero _)
      _ = BitVec.ofNat 32 (n - 2 - 0) := by
        rw [Nat.sub_zero, ← ofNat_add_neg (n - 2) 2, Nat.sub_add_cancel (by omega)]
        rfl
  · rw [hend.reads]
    rfl
  · rw [hend.reads]
    rfl

/-- The branch at 16 leaves the loop exactly if the counter is zero. -/
theorem leads_test {v : Registers} {pc : BitVec 32} (hpc : pc = if v 5 = v 0 then 40 else 20) :
    Leads (State.clock false) (KeepsOff 44) (Boundary (At memory 16 v)) 3
      (Boundary (At memory pc v)) := by
  rw [hpc]
  exact leads_beq (hprog 4 (by decide)) (by decide) (by decide) rfl rfl

/-- **A round**, while the counter is not zero. -/
theorem leads_round (hk : k < n - 2) (hlt : n < 2 ^ 32) :
    Leads (State.clock false) (KeepsOff 44) (Boundary (Round memory n k)) 22
      (Boundary (Round memory n (k + 1))) := by
  rintro s ⟨hs, hround⟩
  let v := RegisterFile.rd s.arch.registerFile
  have ht0 : v 5 = BitVec.ofNat 32 (n - 2 - (k + 1) + 1) := by
    rw [show n - 2 - (k + 1) + 1 = n - 2 - k by omega]
    exact hround.t0
  have ht1 : v 6 = BitVec.ofNat 32 (Nat.fib (k + 1)) := hround.t1
  have ht2 : v 7 = BitVec.ofNat 32 (Nat.fib k) := hround.t2
  -- the counter is at most `n`, so it is zero in the machine only if it is
  have hcounter : v 5 ≠ v 0 := by
    intro h
    rw [ht0] at h
    have hval := congrArg BitVec.toNat h
    rw [BitVec.toNat_ofNat, show (v 0).toNat = 0 from rfl] at hval
    omega
  have h4 := leads_test hprog (v := v) (if_neg hcounter).symm
  have h5 := h4.trans (leads_add (hprog 5 (by decide)) (by decide) (by decide) rfl rfl)
  have h6 := h5.trans (leads_add (hprog 6 (by decide)) (by decide) (by decide) rfl rfl)
  have h7 := h6.trans (leads_add (hprog 7 (by decide)) (by decide) (by decide) rfl rfl)
  have h8 := h7.trans (leads_addi (hprog 8 (by decide)) (by decide) (by decide) rfl rfl)
  have h9 := h8.trans (leads_beq (hprog 9 (by decide)) (by decide) (by decide) rfl rfl)
  obtain ⟨halong, hat, hend⟩ := h9 s ⟨hs, hround.pc, hround.memory, rfl⟩
  have hfib : v 6 + v 7 = BitVec.ofNat 32 (Nat.fib (k + 2)) := by
    rw [ht1, ht2, ← BitVec.ofNat_add, Nat.fib_add_two, Nat.add_comm]
  refine ⟨halong, hat, hend.pc, hend.memory, ?_, ?_, ?_, fun _ => ?_⟩
  · calc
      _ = v 5 + -1 := by rw [hend.reads]; rfl
      _ = BitVec.ofNat 32 (n - 2 - (k + 1)) := by
        rw [ht0]
        exact ofNat_add_neg _ 1
  · calc
      _ = v 6 + v 7 + v 0 := by rw [hend.reads]; rfl
      _ = BitVec.ofNat 32 (Nat.fib (k + 1 + 1)) := by
        rw [hfib]
        exact BitVec.add_zero _
  · calc
      _ = v 6 + v 0 := by rw [hend.reads]; rfl
      _ = BitVec.ofNat 32 (Nat.fib (k + 1)) := by
        rw [ht1]
        exact BitVec.add_zero _
  · calc
      _ = v 6 + v 7 := by rw [hend.reads]; rfl
      _ = BitVec.ofNat 32 (Nat.fib (k + 1 + 1)) := hfib

/-- After the last round the loop ends. -/
theorem leads_finish (hn : 3 ≤ n) :
    Leads (State.clock false) (KeepsOff 44) (Boundary (Round memory n (n - 2))) 3
      (Boundary (Finish memory n)) := by
  rintro s ⟨hs, hround⟩
  let v := RegisterFile.rd s.arch.registerFile
  have hcounter : v 5 = v 0 := by
    rw [show v 5 = _ from hround.t0, Nat.sub_self]
    rfl
  have h4 := leads_test hprog (v := v) (if_pos hcounter).symm
  obtain ⟨halong, hat, hend⟩ := h4 s ⟨hs, hround.pc, hround.memory, rfl⟩
  refine ⟨halong, hat, hend.pc, hend.memory, ?_⟩
  rw [hend.reads, show v 10 = _ from hround.a0 (by omega), show n - 2 + 1 = n - 1 by omega]

omit hprog in
/-- The fetch of the last instruction leaves 44. -/
theorem leads_stop :
    Leads (State.clock false) (KeepsOff 44) (Boundary (Finish memory n)) 1
      (fun s => s.pc = 44 ∧ s.memory = memory ∧
        s.registerFile 10 = BitVec.ofNat 32 (Nat.fib (n - 1))) := by
  rintro s ⟨hs, hfinish⟩
  have hpc : s.pc = 40 := hfinish.pc
  refine ⟨?_, ?_⟩
  · intro i hi
    obtain rfl : i = 0 := by omega
    rw [Function.iterate_zero, id, KeepsOff, hpc]
    decide
  · rw [Function.iterate_one, State.clock_fetch hs, hpc]
    exact ⟨rfl, hfinish.memory, hfinish.a0⟩

/-- The whole program. -/
theorem leads_fibonacci (hn : 3 ≤ n) (hlt : n < 2 ^ 32) :
    Leads (State.clock false) (KeepsOff 44) (Boundary (Start memory n)) (22 * n - 24)
      (fun s => s.pc = 44 ∧ s.memory = memory ∧
        s.registerFile 10 = BitVec.ofNat 32 (Nat.fib (n - 1))) := by
  have hloop := Leads.loop (k := n - 2) (I := fun k => Boundary (Round memory n k))
    fun k hk => leads_round hprog hk hlt
  have h := (((leads_init hprog hn).trans hloop).trans (leads_finish hprog hn)).trans leads_stop
  rwa [show 16 + 22 * (n - 2) + 3 + 1 = 22 * n - 24 by omega] at h

end Program

/-- **The Fibonacci test program is right for every argument.** From a
fetch at address 0, where a reset leaves the design, with the program
there and `n` in `x10`, the first cycle at which the pc is 44 is number
`22 n - 24`, and `x10` then holds the Fibonacci number before the `n`-th. -/
theorem fibonacci_right {s : State} (hs : AtFetch s) (hpc : s.pc = 0)
    (hprog : Loaded fibonacci s.memory) {n : ℕ} (hn : 3 ≤ n) (hlt : n < 2 ^ 32)
    (hx : s.registerFile 10 = BitVec.ofNat 32 n) :
    FirstAt (State.clock false) (fun s => s.pc = 44) s (22 * n - 24) ∧
      (((State.clock false)^[22 * n - 24] s).registerFile 10).toNat = Nat.fib (n - 1) % 2 ^ 32 ∧
      ((State.clock false)^[22 * n - 24] s).memory = s.memory := by
  obtain ⟨halong, hend, hmem, hval⟩ := leads_fibonacci hprog hn hlt s ⟨hs, hpc, rfl, hx⟩
  refine ⟨⟨hend, halong⟩, ?_, hmem⟩
  rw [hval, BitVec.toNat_ofNat]

/-- The third Fibonacci number, over zeroed memory. -/
theorem fibonacci_right_three :
    let s := { State.zeroed with
      registerFile := fun _ => 3
      memory := fun idx => Memory.writeLanes .word 0 (fibonacci.getD idx.toNat 0) }
    (((State.clock false)^[42] s).registerFile 10).toNat = 1 :=
  (fibonacci_right
    (s := { State.zeroed with
      registerFile := fun _ => 3
      memory := fun idx => Memory.writeLanes .word 0 (fibonacci.getD idx.toNat 0) })
    rfl rfl (by decide) (n := 3) (by decide) (by decide) rfl).2.1

end Perilus

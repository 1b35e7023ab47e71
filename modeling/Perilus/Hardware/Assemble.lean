import Perilus.Hardware.Helpers.Integers
import Perilus.Hardware.Immediates
import Perilus.Hardware.Model.Program
/-!
# Perilus — the assemblers and the decoder

A word is in a format exactly when its fields are the operands, and an
operand fits a field exactly when the field reads back as it. So the
tests' formats and the reference's decoder are inverse, instruction by
instruction.
-/

namespace Perilus

open Rv32i

/-! ## A word of a format -/

section Formats

variable {w : BitVec 32} {rs2 rs1 rd : BitVec 5} {funct3 : BitVec 3} {op : BitVec 7}

theorem iFormat_eq_iff {imm : BitVec 12} : iFormat rs1 rd funct3 op imm = w ↔
    opOf w = op ∧ funct3Of w = funct3 ∧ rdOf w = rd ∧ rs1Of w = rs1 ∧ iBits w = imm := by
  constructor
  · rintro rfl
    refine ⟨opOf_iFormat imm, ?_, ?_, ?_, iBits_iFormat imm⟩ <;>
      refine BitVec.eq_of_getLsbD_eq fun i hi => ?_ <;>
      simp only [iFormat, funct3Of, rdOf, rs1Of, BitVec.getLsbD_append,
        BitVec.getLsbD_extractLsb] <;>
      grind
  · rintro ⟨rfl, rfl, rfl, rfl, rfl⟩
    exact iFormat_self w

theorem sFormat_eq_iff {imm : BitVec 12} : sFormat rs2 rs1 funct3 op imm = w ↔
    opOf w = op ∧ funct3Of w = funct3 ∧ rs1Of w = rs1 ∧ rs2Of w = rs2 ∧ sBits w = imm := by
  constructor
  · rintro rfl
    refine ⟨opOf_sFormat imm, ?_, ?_, ?_, sBits_sFormat imm⟩ <;>
      refine BitVec.eq_of_getLsbD_eq fun i hi => ?_ <;>
      simp only [sFormat, funct3Of, rs1Of, rs2Of, BitVec.getLsbD_append,
        BitVec.getLsbD_extractLsb] <;>
      grind
  · rintro ⟨rfl, rfl, rfl, rfl, rfl⟩
    exact sFormat_self w

theorem bFormat_eq_iff {imm : BitVec 13} (h : imm.getLsbD 0 = false) :
    bFormat rs2 rs1 funct3 op imm = w ↔
      opOf w = op ∧ funct3Of w = funct3 ∧ rs1Of w = rs1 ∧ rs2Of w = rs2 ∧ bBits w = imm := by
  constructor
  · rintro rfl
    refine ⟨opOf_bFormat imm, ?_, ?_, ?_, bBits_bFormat h⟩ <;>
      refine BitVec.eq_of_getLsbD_eq fun i hi => ?_ <;>
      simp only [bFormat, funct3Of, rs1Of, rs2Of, BitVec.getLsbD_append,
        BitVec.getLsbD_extractLsb] <;>
      grind
  · rintro ⟨rfl, rfl, rfl, rfl, rfl⟩
    exact bFormat_self w

theorem jFormat_eq_iff {imm : BitVec 21} (h : imm.getLsbD 0 = false) :
    jFormat rd op imm = w ↔ opOf w = op ∧ rdOf w = rd ∧ jBits w = imm := by
  constructor
  · rintro rfl
    refine ⟨opOf_jFormat imm, ?_, jBits_jFormat h⟩
    refine BitVec.eq_of_getLsbD_eq fun i hi => ?_
    simp only [jFormat, rdOf, BitVec.getLsbD_append, BitVec.getLsbD_extractLsb]
    grind
  · rintro ⟨rfl, rfl, rfl⟩
    exact jFormat_self w

theorem uFormat_eq_iff {imm : BitVec 20} : uFormat rd op imm = w ↔
    opOf w = op ∧ rdOf w = rd ∧ w.extractLsb 31 12 = imm := by
  constructor
  · rintro rfl
    refine ⟨opOf_uFormat imm, ?_, ?_⟩ <;>
      refine BitVec.eq_of_getLsbD_eq fun i hi => ?_ <;>
      simp only [uFormat, rdOf, BitVec.getLsbD_append, BitVec.getLsbD_extractLsb] <;>
      grind
  · rintro ⟨rfl, rfl, rfl⟩
    exact uFormat_self w

end Formats

/-! ## Operands -/

section Operands

variable (w : BitVec 32)

/-- A register field and the register it names. -/
theorem ofNat_reg_inj {r r' : Reg} :
    BitVec.ofNat 5 (r : ℕ) = (BitVec.ofNat 32 (r' : ℕ)).setWidth 5 ↔ r = r' := by
  rw [← BitVec.toNat_inj, BitVec.toNat_setWidth, BitVec.toNat_ofNat, BitVec.toNat_ofNat,
    Fin.ext_iff]
  omega

theorem rdOf_eq_iff {r : Reg} : rdOf w = (BitVec.ofNat 32 r).setWidth 5 ↔ rd w.toNat = r := by
  rw [← ofNat_rd, ofNat_reg_inj]

theorem rs1Of_eq_iff {r : Reg} : rs1Of w = (BitVec.ofNat 32 r).setWidth 5 ↔ rs1 w.toNat = r := by
  rw [← ofNat_rs1, ofNat_reg_inj]

theorem rs2Of_eq_iff {r : Reg} : rs2Of w = (BitVec.ofNat 32 r).setWidth 5 ↔ rs2 w.toNat = r := by
  rw [← ofNat_rs2, ofNat_reg_inj]

theorem funct3Of_eq_iff {x : BitVec 32} (hx : x.toNat < 8) :
    funct3Of w = x.setWidth 3 ↔ funct3 w.toNat = x.toNat := by
  rw [← BitVec.toNat_inj, ← funct3_toNat, BitVec.toNat_setWidth, Nat.mod_eq_of_lt hx]

/-- **A signed field reads as an immediate** exactly where the immediate
fits it and is cut to it. -/
theorem toInt_eq_iff {n : ℕ} (hn : n ≤ 32) (x : BitVec n) (imm : ℤ) :
    x.toInt = imm ↔ FitsBits n imm ∧ x = (BitVec.ofInt 32 imm).setWidth n := by
  constructor
  · rintro rfl
    refine ⟨⟨BitVec.le_two_mul_toInt, BitVec.two_mul_toInt_lt⟩, ?_⟩
    exact (setWidth_signExtend_self x hn).symm
  · rintro ⟨⟨hlo, hhi⟩, rfl⟩
    have hdvd : 2 ^ n ∣ 2 ^ 32 := Nat.pow_dvd_pow 2 hn
    -- the value is the balanced remainder of the immediate by `2 ^ 32`, then by `2 ^ n`
    rw [BitVec.toInt_setWidth, ← Int.bmod_bmod_of_dvd hdvd, ← BitVec.toInt_eq_toNat_bmod,
      BitVec.toInt_ofInt, Int.bmod_bmod_of_dvd hdvd]
    refine Int.bmod_eq_of_le_mul_two ?_ ?_ <;> push_cast <;> omega

/-- An even immediate has bit 0 clear. -/
theorem getLsbD_zero_ofInt {n : ℕ} {imm : ℤ} (h : imm % 2 = 0) :
    ((BitVec.ofInt 32 imm).setWidth n).getLsbD 0 = false := by
  refine getLsbD_zero_of_even ?_
  rw [BitVec.toInt_ofInt, Int.bmod]
  split <;> omega

/-! ## Tables -/

theorem conditionOf_eq_iff {n : ℕ} {c : Condition} :
    conditionOf n = some c ↔ n = (funct3OfCondition c).toNat := by
  constructor
  · intro h
    unfold conditionOf at h
    split at h <;> cases h <;> rfl
  · rintro rfl
    cases c <;> rfl

theorem loadOf_eq_iff {n width : ℕ} {extend : Bool} :
    loadOf n = some (width, extend) ↔
      (width, extend) ∈ [(1, true), (2, true), (4, false), (1, false), (2, false)] ∧
        n = (funct3OfLoad width extend).toNat := by
  constructor
  · intro h
    unfold loadOf at h
    split at h <;> cases h <;> exact ⟨by decide, rfl⟩
  · rintro ⟨hmem, rfl⟩
    simp only [List.mem_cons, List.not_mem_nil, or_false, Prod.mk.injEq] at hmem
    rcases hmem with ⟨rfl, rfl⟩ | ⟨rfl, rfl⟩ | ⟨rfl, rfl⟩ | ⟨rfl, rfl⟩ | ⟨rfl, rfl⟩ <;> rfl

theorem storeOf_eq_iff {n width : ℕ} :
    storeOf n = some width ↔ width ∈ [1, 2, 4] ∧ n = (funct3OfStore width).toNat := by
  constructor
  · intro h
    unfold storeOf at h
    split at h <;> cases h <;> exact ⟨by decide, rfl⟩
  · rintro ⟨hmem, rfl⟩
    simp only [List.mem_cons, List.not_mem_nil, or_false] at hmem
    rcases hmem with rfl | rfl | rfl <;> rfl

/-- The funct7 of a function. -/
def funct7OfAlu (f : Rv32i.Alu) : ℕ := if f = .sub ∨ f = .sra then 32 else 0

theorem aluOf_eq_iff {n m : ℕ} {f : Rv32i.Alu} :
    aluOf n m = some f ↔ n = (funct3OfAlu f).toNat ∧ m = funct7OfAlu f := by
  constructor
  · intro h
    unfold aluOf at h
    split at h <;> cases h <;> exact ⟨rfl, rfl⟩
  · rintro ⟨rfl, rfl⟩
    cases f <;> rfl

/-- The funct7 and the amount of a shift of an immediate are its twelve
bits. -/
theorem iBits_eq_iff {x : BitVec 12} :
    iBits w = x ↔ funct7 w.toNat = x.toNat / 32 ∧ field w.toNat 20 5 = x.toNat % 32 := by
  have hbits : (iBits w).toNat = funct7 w.toNat * 32 + field w.toNat 20 5 := by
    rw [iBits, Bits.toNat_extractLsb, funct7, field, field]
    omega
  have hlt : field w.toNat 20 5 < 32 := Nat.mod_lt _ (by decide)
  rw [← BitVec.toNat_inj, hbits]
  omega

/-- The immediate of a shift, with its flag. -/
theorem toNat_shift {imm : ℤ} (h : 0 ≤ imm ∧ imm < 32) (flag : Bool) :
    ((if flag then BitVec.ofInt 32 imm ||| 1 <<< 10 else BitVec.ofInt 32 imm).setWidth 12).toNat =
      (if flag then 1024 else 0) + imm.toNat := by
  obtain ⟨k, rfl⟩ := Int.eq_ofNat_of_zero_le h.1
  have hk : k < 32 := by omega
  rw [BitVec.ofInt_natCast, Int.toNat_natCast]
  clear h
  revert flag
  interval_cases k <;> decide

/-- The functions whose immediate is an amount. -/
def IsShift (f : Rv32i.Alu) : Prop := f = .sll ∨ f = .srl ∨ f = .sra

instance decidableIsShift (f : Rv32i.Alu) : Decidable (IsShift f) :=
  inferInstanceAs (Decidable (_ ∨ _))

/-- The table of the immediate functions, line by line. -/
theorem aluImmOf_eq_iff {f : Rv32i.Alu} {imm : ℤ} : aluImmOf w.toNat = some (f, imm) ↔
    f ≠ .sub ∧ funct3 w.toNat = (funct3OfAlu f).toNat ∧
      if IsShift f then funct7 w.toNat = funct7OfAlu f ∧ (field w.toNat 20 5 : ℤ) = imm
      else immI w.toNat = imm := by
  unfold aluImmOf
  constructor
  · intro h
    split at h
    case h_2 h3 =>
      split at h <;> cases h
      next h7 => exact ⟨by decide, h3, h7, rfl⟩
    case h_6 h3 =>
      split at h
      · next h7 =>
        cases h
        exact ⟨by decide, h3, h7, rfl⟩
      · split at h <;> cases h
        next h7 => exact ⟨by decide, h3, h7, rfl⟩
    case h_9 => cases h
    all_goals
      next h3 =>
        cases h
        exact ⟨by decide, h3, rfl⟩
  · rintro ⟨hsub, h3, h⟩
    rw [h3]
    cases f with
    | sub => exact absurd rfl hsub
    | sll | srl | sra =>
      obtain ⟨h7, rfl⟩ := h
      rw [h7]
      rfl
    | _ =>
      cases h
      rfl

/-- A shift of an immediate, as its twelve bits have it. -/
theorem shift_iff {f : Rv32i.Alu} {imm : ℤ} (hf : IsShift f) :
    (funct7 w.toNat = funct7OfAlu f ∧ (field w.toNat 20 5 : ℤ) = imm) ↔
      (0 ≤ imm ∧ imm < 32) ∧ iBits w = (if decide (f = .sra) then BitVec.ofInt 32 imm ||| 1 <<< 10
        else BitVec.ofInt 32 imm).setWidth 12 := by
  have hlt : field w.toNat 20 5 < 32 := Nat.mod_lt _ (by decide)
  have h7 : funct7OfAlu f = if decide (f = .sra) then 32 else 0 := by
    rcases hf with rfl | rfl | rfl <;> rfl
  have hbound : (field w.toNat 20 5 : ℤ) = imm → 0 ≤ imm ∧ imm < 32 := by omega
  have hbits : 0 ≤ imm ∧ imm < 32 →
      (iBits w = (if decide (f = .sra) then BitVec.ofInt 32 imm ||| 1 <<< 10
        else BitVec.ofInt 32 imm).setWidth 12 ↔
          funct7 w.toNat = funct7OfAlu f ∧ (field w.toNat 20 5 : ℤ) = imm) := by
    intro h
    rw [iBits_eq_iff, toNat_shift h, h7]
    split <;> omega
  constructor
  · intro h
    exact ⟨hbound h.2, (hbits (hbound h.2)).2 h⟩
  · rintro ⟨h, heq⟩
    exact (hbits h).1 heq

/-- **An immediate instruction**, as its fields have it. -/
theorem aluImm_iff {f : Rv32i.Alu} {imm : ℤ} (r r' : Reg) : aluImmOf w.toNat = some (f, imm) ↔
    Encodable (.aluImm f r r' imm) ∧ funct3 w.toNat = (funct3OfAlu f).toNat ∧
      iBits w = (if decide (f = .sra) then BitVec.ofInt 32 imm ||| 1 <<< 10
        else BitVec.ofInt 32 imm).setWidth 12 := by
  rw [aluImmOf_eq_iff]
  by_cases hf : IsShift f
  · rw [if_pos hf, shift_iff w hf]
    have hsub : f ≠ .sub := by rcases hf with rfl | rfl | rfl <;> decide
    have henc : Encodable (.aluImm f r r' imm) ↔ 0 ≤ imm ∧ imm < 32 := by
      rcases hf with rfl | rfl | rfl <;> rfl
    rw [henc]
    tauto
  · rw [if_neg hf, iBits_toInt, toInt_eq_iff (by decide)]
    have hsra : f ≠ .sra := fun h => hf (.inr (.inr h))
    have henc : Encodable (.aluImm f r r' imm) ↔ f ≠ .sub ∧ FitsBits 12 imm := by
      cases f <;> simp_all [Encodable, IsShift]
    rw [henc, decide_eq_false hsra, if_neg Bool.false_ne_true]
    tauto

end Operands

/-! ## The words of the instructions -/

section Words

variable (funct3 rd rs1 rs2 imm : BitVec 32) (flag : Bool)

theorem assembleIType_flag_eq (op : BitVec 32) : assembleIType funct3 flag rd rs1 imm op =
    iFormat (rs1.setWidth 5) (rd.setWidth 5) (funct3.setWidth 3) (op.setWidth 7)
      ((if flag then imm ||| 1 <<< 10 else imm).setWidth 12) := by
  cases flag with
  | false => exact assembleIType_eq funct3 rd rs1 imm op
  | true => exact (assembleIType_funct7_5 funct3 rd rs1 imm op).trans (assembleIType_eq ..)

/-- A register word is an immediate word whose immediate is its funct7 and
its second operand. -/
theorem testRType_eq : testRType funct3 flag rd rs1 rs2 =
    iFormat (rs1.setWidth 5) (rd.setWidth 5) (funct3.setWidth 3) Opcode.rType.asUInt
      ((if flag then 32#7 else 0#7) ++ rs2.setWidth 5) := by
  have hop : (51 : BitVec 32) = Opcode.rType.asUInt.setWidth 32 := rfl
  have h7 : (if flag then (1 : BitVec 32) <<< 5 else 0) <<< 25 =
      (if flag then 32#7 else 0#7) ++ 0#25 := by
    cases flag <;> rfl
  refine BitVec.eq_of_getLsbD_eq fun i hi => ?_
  simp only [testRType, hop, h7]
  simp only [iFormat, BitVec.getLsbD_append, BitVec.getLsbD_or, BitVec.getLsbD_and,
    BitVec.getLsbD_shiftLeft, BitVec.ofNat_eq_ofNat, getLsbD_masks, BitVec.getLsbD_setWidth]
  grind

end Words

/-! ## Opcode by opcode -/

section Decode

variable {w : BitVec 32}

/-- What the decoder looks at first. -/
theorem field_of_opOf {o : Opcode} (ho : opOf w = o.asUInt) :
    field w.toNat 0 7 = o.asUInt.toNat := by
  rw [field_opOf, ho]

theorem funct3OfAlu_lt (f : Rv32i.Alu) : (funct3OfAlu f).toNat < 8 := by cases f <;> decide

theorem funct3OfCondition_lt (c : Condition) : (funct3OfCondition c).toNat < 8 := by
  cases c <;> decide

theorem funct3OfLoad_lt (width : ℕ) (extend : Bool) : (funct3OfLoad width extend).toNat < 8 := by
  unfold funct3OfLoad
  split <;> decide

theorem funct3OfStore_lt (width : ℕ) : (funct3OfStore width).toNat < 8 := by
  unfold funct3OfStore
  split <;> decide

variable {r r₁ r₂ : Reg} {imm : ℤ}

/-- A twelve-bit immediate, as the decoder and as an assembler has it. -/
theorem immI_eq_iff : immI w.toNat = imm ↔
    FitsBits 12 imm ∧ iBits w = (BitVec.ofInt 32 imm).setWidth 12 := by
  rw [iBits_toInt, toInt_eq_iff (by decide)]

/-- A word of the tests' I format, by the fields the decoder reads. -/
theorem assembleIType_eq_iff {op f3 : BitVec 32} (hop : opOf w = op.setWidth 7)
    (h3 : f3.toNat < 8) (flag : Bool) :
    assembleIType f3 flag (BitVec.ofNat 32 r) (BitVec.ofNat 32 r₁) (BitVec.ofInt 32 imm) op = w ↔
      funct3 w.toNat = f3.toNat ∧ rd w.toNat = r ∧ rs1 w.toNat = r₁ ∧
        iBits w = (if flag then BitVec.ofInt 32 imm ||| 1 <<< 10
          else BitVec.ofInt 32 imm).setWidth 12 := by
  rw [assembleIType_flag_eq, iFormat_eq_iff, rdOf_eq_iff, rs1Of_eq_iff, funct3Of_eq_iff _ h3]
  exact and_iff_right hop

theorem decode_jalr_iff (ho : opOf w = Opcode.jalr.asUInt) :
    decode w.toNat = some (.jalr r r₁ imm) ↔
      Encodable (.jalr r r₁ imm) ∧ assemble (.jalr r r₁ imm) = w := by
  have hdec : decode w.toNat = if funct3 w.toNat = 0 then
      some (.jalr (rd w.toNat) (rs1 w.toNat) (immI w.toNat)) else none := by
    rw [decode, field_of_opOf ho]
    rfl
  rw [hdec, assemble, assembleIType_eq_iff ho (by decide), Encodable]
  simp only [Option.ite_none_right_eq_some, Option.some.injEq, Instr.jalr.injEq, immI_eq_iff]
  constructor
  · rintro ⟨h3, hrd, hrs1, hfits, hbits⟩
    exact ⟨hfits, h3, hrd, hrs1, hbits⟩
  · rintro ⟨hfits, h3, hrd, hrs1, hbits⟩
    exact ⟨h3, hrd, hrs1, hfits, hbits⟩

theorem decode_load_iff {width : ℕ} {extend : Bool} (ho : opOf w = Opcode.load.asUInt) :
    decode w.toNat = some (.load width extend r r₁ imm) ↔
      Encodable (.load width extend r r₁ imm) ∧ assemble (.load width extend r r₁ imm) = w := by
  have hdec : decode w.toNat = (loadOf (funct3 w.toNat)).map fun p =>
      .load p.1 p.2 (rd w.toNat) (rs1 w.toNat) (immI w.toNat) := by
    rw [decode, field_of_opOf ho]
    rfl
  rw [hdec, assemble, assembleIType_eq_iff ho (funct3OfLoad_lt ..), Encodable]
  simp only [Option.map_eq_some_iff, Prod.exists, Instr.load.injEq, loadOf_eq_iff, immI_eq_iff]
  constructor
  · rintro ⟨_, _, ⟨hmem, h3⟩, rfl, rfl, hrd, hrs1, hfits, hbits⟩
    exact ⟨⟨hmem, hfits⟩, h3, hrd, hrs1, hbits⟩
  · rintro ⟨⟨hmem, hfits⟩, h3, hrd, hrs1, hbits⟩
    exact ⟨_, _, ⟨hmem, h3⟩, rfl, rfl, hrd, hrs1, hfits, hbits⟩

theorem decode_aluImm_iff {f : Rv32i.Alu} (ho : opOf w = Opcode.immediate.asUInt) :
    decode w.toNat = some (.aluImm f r r₁ imm) ↔
      Encodable (.aluImm f r r₁ imm) ∧ assemble (.aluImm f r r₁ imm) = w := by
  have hdec : decode w.toNat = (aluImmOf w.toNat).map fun p =>
      .aluImm p.1 (rd w.toNat) (rs1 w.toNat) p.2 := by
    rw [decode, field_of_opOf ho]
    rfl
  rw [hdec, assemble, assembleIType_eq_iff ho (funct3OfAlu_lt f)]
  simp only [Option.map_eq_some_iff, Prod.exists, Instr.aluImm.injEq]
  constructor
  · rintro ⟨_, _, hf, rfl, hrd, hrs1, rfl⟩
    obtain ⟨henc, h3, hbits⟩ := (aluImm_iff w r r₁).1 hf
    exact ⟨henc, h3, hrd, hrs1, hbits⟩
  · rintro ⟨henc, h3, hrd, hrs1, hbits⟩
    exact ⟨_, _, (aluImm_iff w r r₁).2 ⟨henc, h3, hbits⟩, rfl, hrd, hrs1, rfl⟩

/-- The twelve bits of a register word: its funct7 and its second operand. -/
theorem iBits_append_iff {x : BitVec 7} : iBits w = x ++ (BitVec.ofNat 32 r₂).setWidth 5 ↔
    funct7 w.toNat = x.toNat ∧ rs2 w.toNat = r₂ := by
  have hx := x.isLt
  have hr := r₂.isLt
  rw [iBits_eq_iff, Bits.toNat_append, BitVec.toNat_setWidth, BitVec.toNat_ofNat, rs2,
    Fin.ext_iff, Fin.ofNat]
  have hlt : field w.toNat 20 5 < 32 := Nat.mod_lt _ (by decide)
  dsimp only
  omega

theorem decode_alu_iff {f : Rv32i.Alu} (ho : opOf w = Opcode.rType.asUInt) :
    decode w.toNat = some (.alu f r r₁ r₂) ↔
      Encodable (.alu f r r₁ r₂) ∧ assemble (.alu f r r₁ r₂) = w := by
  have hdec : decode w.toNat = (aluOf (funct3 w.toNat) (funct7 w.toNat)).map fun f =>
      .alu f (rd w.toNat) (rs1 w.toNat) (rs2 w.toNat) := by
    rw [decode, field_of_opOf ho]
    rfl
  have hflag : (if decide (f = .sub ∨ f = .sra) then 32#7 else 0#7).toNat = funct7OfAlu f := by
    cases f <;> rfl
  rw [hdec, assemble, testRType_eq, iFormat_eq_iff, rdOf_eq_iff, rs1Of_eq_iff,
    funct3Of_eq_iff _ (funct3OfAlu_lt f), iBits_append_iff, hflag]
  simp only [Option.map_eq_some_iff, Instr.alu.injEq, aluOf_eq_iff]
  constructor
  · rintro ⟨_, ⟨h3, h7⟩, rfl, hrd, hrs1, hrs2⟩
    exact ⟨trivial, ho, h3, hrd, hrs1, h7, hrs2⟩
  · rintro ⟨-, -, h3, hrd, hrs1, h7, hrs2⟩
    exact ⟨_, ⟨h3, h7⟩, rfl, hrd, hrs1, hrs2⟩

theorem decode_store_iff {width : ℕ} (ho : opOf w = Opcode.store.asUInt) :
    decode w.toNat = some (.store width r₁ r₂ imm) ↔
      Encodable (.store width r₁ r₂ imm) ∧ assemble (.store width r₁ r₂ imm) = w := by
  have hdec : decode w.toNat = (storeOf (funct3 w.toNat)).map fun width =>
      .store width (rs1 w.toNat) (rs2 w.toNat) (immS w.toNat) := by
    rw [decode, field_of_opOf ho]
    rfl
  rw [hdec, assemble, testSType_eq, sFormat_eq_iff, rs1Of_eq_iff, rs2Of_eq_iff,
    funct3Of_eq_iff _ (funct3OfStore_lt width), Encodable]
  simp only [Option.map_eq_some_iff, Instr.store.injEq, storeOf_eq_iff, sBits_toInt,
    toInt_eq_iff (by decide : 12 ≤ 32)]
  constructor
  · rintro ⟨_, ⟨hmem, h3⟩, rfl, hrs1, hrs2, hfits, hbits⟩
    exact ⟨⟨hmem, hfits⟩, ho, h3, hrs1, hrs2, hbits⟩
  · rintro ⟨⟨hmem, hfits⟩, -, h3, hrs1, hrs2, hbits⟩
    exact ⟨_, ⟨hmem, h3⟩, rfl, hrs1, hrs2, hfits, hbits⟩

theorem immB_even (n : ℕ) : immB n % 2 = 0 := by
  rw [immB, signed]
  split <;> omega

theorem immJ_even (n : ℕ) : immJ n % 2 = 0 := by
  rw [immJ, signed]
  split <;> omega

theorem decode_branch_iff {c : Condition} (ho : opOf w = Opcode.branch.asUInt) :
    decode w.toNat = some (.branch c r₁ r₂ imm) ↔
      Encodable (.branch c r₁ r₂ imm) ∧ assemble (.branch c r₁ r₂ imm) = w := by
  have hdec : decode w.toNat = (conditionOf (funct3 w.toNat)).map fun c =>
      .branch c (rs1 w.toNat) (rs2 w.toNat) (immB w.toNat) := by
    rw [decode, field_of_opOf ho]
    rfl
  have hword (heven : imm % 2 = 0) : assemble (.branch c r₁ r₂ imm) = w ↔
      funct3 w.toNat = (funct3OfCondition c).toNat ∧ rs1 w.toNat = r₁ ∧ rs2 w.toNat = r₂ ∧
        bBits w = (BitVec.ofInt 32 imm).setWidth 13 := by
    rw [assemble, testBType_eq, bFormat_eq_iff (getLsbD_zero_ofInt heven), rs1Of_eq_iff,
      rs2Of_eq_iff, funct3Of_eq_iff _ (funct3OfCondition_lt c)]
    exact and_iff_right ho
  have himm := toInt_eq_iff (by decide) (bBits w) imm
  rw [← bBits_toInt] at himm
  simp only [hdec, Option.map_eq_some_iff, Instr.branch.injEq, conditionOf_eq_iff]
  constructor
  · rintro ⟨_, h3, rfl, hrs1, hrs2, hB⟩
    have heven : imm % 2 = 0 := hB ▸ immB_even _
    exact ⟨⟨(himm.1 hB).1, heven⟩, (hword heven).2 ⟨h3, hrs1, hrs2, (himm.1 hB).2⟩⟩
  · rintro ⟨⟨hfits, heven⟩, hw⟩
    obtain ⟨h3, hrs1, hrs2, hbits⟩ := (hword heven).1 hw
    exact ⟨_, h3, rfl, hrs1, hrs2, himm.2 ⟨hfits, hbits⟩⟩

theorem decode_jal_iff (ho : opOf w = Opcode.jal.asUInt) : decode w.toNat = some (.jal r imm) ↔
    Encodable (.jal r imm) ∧ assemble (.jal r imm) = w := by
  have hdec : decode w.toNat = some (.jal (rd w.toNat) (immJ w.toNat)) := by
    rw [decode, field_of_opOf ho]
    rfl
  have hword (heven : imm % 2 = 0) : assemble (.jal r imm) = w ↔
      rd w.toNat = r ∧ jBits w = (BitVec.ofInt 32 imm).setWidth 21 := by
    rw [assemble, assembleJType_eq, jFormat_eq_iff (getLsbD_zero_ofInt heven), rdOf_eq_iff]
    exact and_iff_right ho
  have himm := toInt_eq_iff (by decide) (jBits w) imm
  rw [← jBits_toInt] at himm
  rw [hdec, Option.some.injEq, Instr.jal.injEq]
  constructor
  · rintro ⟨hrd, hJ⟩
    have heven : imm % 2 = 0 := hJ ▸ immJ_even _
    exact ⟨⟨(himm.1 hJ).1, heven⟩, (hword heven).2 ⟨hrd, (himm.1 hJ).2⟩⟩
  · rintro ⟨⟨hfits, heven⟩, hw⟩
    obtain ⟨hrd, hbits⟩ := (hword heven).1 hw
    exact ⟨hrd, himm.2 ⟨hfits, hbits⟩⟩

/-- An upper immediate, as the decoder and as an assembler has it. -/
theorem immU_eq_iff : immU w.toNat = imm ↔ (0 ≤ imm ∧ imm < 2 ^ 32 ∧ imm % 2 ^ 12 = 0) ∧
    w.extractLsb 31 12 = (BitVec.ofInt 32 imm).extractLsb 31 12 := by
  have hw := w.isLt
  rw [← BitVec.toNat_inj, Bits.toNat_extractLsb, Bits.toNat_extractLsb, BitVec.toNat_ofInt, immU,
    field]
  constructor
  · rintro rfl
    omega
  · omega

theorem testUType_eq_iff {o : Opcode} (ho : opOf w = o.asUInt) :
    testUType (BitVec.ofInt 32 imm) (BitVec.ofNat 32 r) (o.asUInt.setWidth 32) = w ↔
      rd w.toNat = r ∧ w.extractLsb 31 12 = (BitVec.ofInt 32 imm).extractLsb 31 12 := by
  rw [testUType_eq, uFormat_eq_iff, rdOf_eq_iff]
  exact and_iff_right ho

theorem decode_lui_iff (ho : opOf w = Opcode.lui.asUInt) : decode w.toNat = some (.lui r imm) ↔
    Encodable (.lui r imm) ∧ assemble (.lui r imm) = w := by
  have hdec : decode w.toNat = some (.lui (rd w.toNat) (immU w.toNat)) := by
    rw [decode, field_of_opOf ho]
    rfl
  rw [hdec, Option.some.injEq, Instr.lui.injEq, immU_eq_iff]
  refine Iff.trans ?_ (and_congr_right' (testUType_eq_iff ho).symm)
  exact and_left_comm

theorem decode_auipc_iff (ho : opOf w = Opcode.auipc.asUInt) :
    decode w.toNat = some (.auipc r imm) ↔
      Encodable (.auipc r imm) ∧ assemble (.auipc r imm) = w := by
  have hdec : decode w.toNat = some (.auipc (rd w.toNat) (immU w.toNat)) := by
    rw [decode, field_of_opOf ho]
    rfl
  rw [hdec, Option.some.injEq, Instr.auipc.injEq, immU_eq_iff]
  refine Iff.trans ?_ (and_congr_right' (testUType_eq_iff ho).symm)
  exact and_left_comm

theorem decode_fence_iff (ho : opOf w = Opcode.fence.asUInt) :
    decode w.toNat = some .fence ↔ funct3Of w = 0 := by
  have hdec : decode w.toNat = if funct3 w.toNat = 0 then some .fence else none := by
    rw [decode, field_of_opOf ho]
    rfl
  rw [hdec, Option.ite_none_right_eq_some, funct3_toNat, ← BitVec.toNat_inj]
  exact and_iff_left rfl

theorem decode_env_iff (ho : opOf w = Opcode.env.asUInt) :
    (decode w.toNat = some .ecall ↔ w = 0x00000073) ∧
      (decode w.toNat = some .ebreak ↔ w = 0x00100073) := by
  have hdec : decode w.toNat = if w = 0x00000073 then some .ecall
      else if w = 0x00100073 then some .ebreak else none := by
    rw [decode, field_of_opOf ho]
    simp only [← BitVec.toNat_inj]
    rfl
  rw [hdec]
  by_cases hcall : w = 0x00000073
  · subst hcall
    decide
  · rw [if_neg hcall]
    by_cases hbreak : w = 0x00100073
    · subst hbreak
      decide
    · rw [if_neg hbreak]
      exact ⟨iff_of_false (by simp) hcall, iff_of_false (by simp) hbreak⟩

/-- An instruction is decoded under its opcode. -/
theorem opOf_of_decode {i : Instr} (h : decode w.toNat = some i) :
    opOf w = (opcodeOf i).asUInt := by
  have hop : ∀ {o : Opcode}, field w.toNat 0 7 = o.asUInt.toNat → opOf w = o.asUInt := fun ho =>
    BitVec.eq_of_toNat_eq ((field_opOf w).symm.trans ho)
  unfold decode at h
  split at h
  case h_1 ho | h_2 ho | h_3 ho =>
    cases h
    exact hop ho
  case h_4 ho | h_10 ho =>
    split at h <;> cases h
    exact hop ho
  case h_5 ho | h_6 ho | h_7 ho | h_8 ho | h_9 ho =>
    obtain ⟨_, -, rfl⟩ := Option.map_eq_some_iff.1 h
    exact hop ho
  case h_11 ho =>
    split at h
    · cases h
      exact hop ho
    · split at h <;> cases h
      exact hop ho
  case h_12 => cases h

/-- So it is assembled. -/
theorem opOf_assemble (i : Instr) : opOf (assemble i) = (opcodeOf i).asUInt := by
  cases i with
  | lui rd imm => exact congrArg opOf (testUType_eq _ _ Opcode.lui.asUInt) |>.trans (opOf_uFormat _)
  | auipc rd imm =>
    exact congrArg opOf (testUType_eq _ _ Opcode.auipc.asUInt) |>.trans (opOf_uFormat _)
  | jal rd imm => rw [assemble, assembleJType_eq, opOf_jFormat, opcodeOf]
  | branch c rs1 rs2 imm => rw [assemble, testBType_eq, opOf_bFormat, opcodeOf]
  | store width rs1 rs2 imm => rw [assemble, testSType_eq, opOf_sFormat, opcodeOf]
  | alu f rd rs1 rs2 => rw [assemble, testRType_eq, opOf_iFormat, opcodeOf]
  | jalr rd rs1 imm | load width extend rd rs1 imm | aluImm f rd rs1 imm =>
    rw [assemble, assembleIType_flag_eq, opOf_iFormat]
    rfl
  | fence | ecall | ebreak => rfl

/-- **Under its opcode**, the word of an instruction other than a fence. -/
theorem decode_iff_assemble {i : Instr} (ho : opOf w = (opcodeOf i).asUInt) (hi : i ≠ .fence) :
    decode w.toNat = some i ↔ Encodable i ∧ assemble i = w := by
  cases i with
  | lui rd imm => exact decode_lui_iff ho
  | auipc rd imm => exact decode_auipc_iff ho
  | jal rd imm => exact decode_jal_iff ho
  | jalr rd rs1 imm => exact decode_jalr_iff ho
  | branch c rs1 rs2 imm => exact decode_branch_iff ho
  | load width extend rd rs1 imm => exact decode_load_iff ho
  | store width rs1 rs2 imm => exact decode_store_iff ho
  | aluImm f rd rs1 imm => exact decode_aluImm_iff ho
  | alu f rd rs1 rs2 => exact decode_alu_iff ho
  | fence => exact absurd rfl hi
  | ecall => exact (decode_env_iff ho).1.trans (eq_comm.trans (and_iff_right trivial).symm)
  | ebreak => exact (decode_env_iff ho).2.trans (eq_comm.trans (and_iff_right trivial).symm)

/-- What is assembled decodes again. -/
theorem decode_assemble {i : Instr} (h : Encodable i) : decode (assemble i).toNat = some i := by
  by_cases hi : i = .fence
  · subst hi
    rfl
  · exact (decode_iff_assemble (opOf_assemble i) hi).2 ⟨h, rfl⟩

end Decode

/-- **The assemblers are inverse to the decoder of RV32I.** A word decodes
to an instruction exactly when the instruction has a word and it is that
word, up to the fields of a fence, which are not looked at. -/
theorem decode_eq_some_iff (w : BitVec 32) (i : Instr) : decode w.toNat = some i ↔
    Encodable i ∧
      (assemble i = w ∨ i = .fence ∧ opOf w = Opcode.fence.asUInt ∧ funct3Of w = 0) := by
  constructor
  · intro h
    have ho := opOf_of_decode h
    by_cases hi : i = .fence
    · subst hi
      exact ⟨trivial, .inr ⟨rfl, ho, (decode_fence_iff ho).1 h⟩⟩
    · obtain ⟨henc, hw⟩ := (decode_iff_assemble ho hi).1 h
      exact ⟨henc, .inl hw⟩
  · rintro ⟨henc, rfl | ⟨rfl, ho, h3⟩⟩
    · exact decode_assemble henc
    · exact (decode_fence_iff ho).2 h3

end Perilus

import Mathlib.Data.String.Basic
import Mathlib.Data.Nat.Notation
import Mathlib.Order.Lattice.Nat
/-!
# Numerals of a fixed width

`fixed b w n` writes the `w` low digits of a number in a base up to 16.
Texts made of such fields sort as their numbers do, and `value` reads a
numeral back. `Reads` is what a text says whose fields may be wider: one
list of numbers at most.
-/

namespace Numeral

/-! ## Order of texts -/

section Order

variable {α : Type*} [LinearOrder α]

/-- **Texts that begin with parts of one length** sort by them first. -/
theorem append_lt_append_iff {a a' : List α} (h : a.length = a'.length) {b b' : List α} :
    a ++ b < a' ++ b' ↔ a < a' ∨ a = a' ∧ b < b' := by
  induction a generalizing a' with
  | nil =>
    obtain rfl := List.length_eq_zero_iff.1 h.symm
    simp
  | cons x a ih =>
    rcases a' with - | ⟨x', a'⟩
    · cases h
    · have hih := ih (Nat.succ.inj h)
      rw [List.cons_append, List.cons_append, List.cons_lt_cons_iff, List.cons_lt_cons_iff, hih,
        List.cons.injEq]
      tauto

end Order

/-! ## Digits -/

/-- The `w` low digits, the lowest last. -/
def fixed (b : ℕ) : ℕ → ℕ → List Char
  | 0, _ => []
  | w + 1, n => fixed b w (n / b) ++ [Nat.digitChar (n % b)]

theorem digitChar_lt_iff : ∀ m < 16, ∀ n < 16, Nat.digitChar m < Nat.digitChar n ↔ m < n := by
  decide

section Fixed

variable {b w m n : ℕ}

@[simp] theorem length_fixed (b w n : ℕ) : (fixed b w n).length = w := by
  induction w generalizing n with
  | zero => rfl
  | succ w ih => rw [fixed, List.length_append, ih, List.length_singleton]

theorem fixed_zero (b w : ℕ) : fixed b w 0 = List.replicate w '0' := by
  induction w with
  | zero => rfl
  | succ w ih =>
    rw [fixed, Nat.zero_div, Nat.zero_mod, ih, List.replicate_succ']
    rfl

/-- **What a format with leading zeros prints.** -/
theorem replicate_append_toDigits (hb : 1 < b) (hw : 0 < w) (hn : n < b ^ w) :
    List.replicate (w - (Nat.toDigits b n).length) '0' ++ Nat.toDigits b n = fixed b w n := by
  induction w generalizing n with
  | zero => omega
  | succ w ih =>
    rw [fixed]
    rcases Nat.lt_or_ge n b with hlt | hge
    · rw [Nat.toDigits_of_lt_base hlt, Nat.div_eq_of_lt hlt, Nat.mod_eq_of_lt hlt, fixed_zero]
      rfl
    · rw [Nat.toDigits_of_base_le hb hge, List.length_append, List.length_singleton,
        Nat.add_sub_add_right, ← List.append_assoc]
      congr 1
      have hpos : 0 < w := by
        rcases w with - | w
        · rw [Nat.zero_add, Nat.pow_one] at hn
          omega
        · exact Nat.succ_pos w
      refine ih hpos ?_
      rw [Nat.pow_succ] at hn
      exact Nat.div_lt_of_lt_mul (by rwa [Nat.mul_comm])

/-- **Numerals of one width sort as their numbers.** -/
theorem fixed_lt_fixed_iff (hb : 0 < b) (hb16 : b ≤ 16) (hm : m < b ^ w) (hn : n < b ^ w) :
    fixed b w m < fixed b w n ↔ m < n := by
  induction w generalizing m n with
  | zero =>
    rw [Nat.pow_zero] at hm hn
    simp only [fixed, List.not_lt_nil, false_iff]
    omega
  | succ w ih =>
    have hdiv : ∀ {k}, k < b ^ (w + 1) → k / b < b ^ w := fun hk =>
      Nat.div_lt_of_lt_mul (by rwa [Nat.mul_comm, ← Nat.pow_succ])
    have hhigh := ih (hdiv hm) (hdiv hn)
    have hhigh' := ih (hdiv hn) (hdiv hm)
    have heq : fixed b w (m / b) = fixed b w (n / b) ↔ m / b = n / b := by
      constructor
      · intro h
        rw [h] at hhigh hhigh'
        have h₁ := mt hhigh.2 (lt_irrefl _)
        have h₂ := mt hhigh'.2 (lt_irrefl _)
        omega
      · exact congrArg _
    have hlow : [Nat.digitChar (m % b)] < [Nat.digitChar (n % b)] ↔ m % b < n % b := by
      have hm16 := Nat.mod_lt m hb
      have hn16 := Nat.mod_lt n hb
      rw [List.cons_lt_cons_iff, digitChar_lt_iff _ (by omega) _ (by omega)]
      simp
    rw [fixed, fixed, append_lt_append_iff (by rw [length_fixed, length_fixed]), hhigh, heq, hlow]
    have hmn := Nat.div_add_mod m b
    have hnn := Nat.div_add_mod n b
    constructor
    · rintro (hlt | ⟨hdiv, hlt⟩)
      · exact Nat.lt_of_div_lt_div hlt
      · rw [hdiv] at hmn
        omega
    · intro hlt
      rcases Nat.lt_or_eq_of_le (Nat.div_le_div_right (c := b) hlt.le) with hdiv | hdiv
      · exact .inl hdiv
      · refine .inr ⟨hdiv, ?_⟩
        rw [hdiv] at hmn
        omega

end Fixed

/-! ## Fields -/

/-- Fields of fixed widths, each with the character after it. -/
def fields (b : ℕ) : List (ℕ × Char) → List ℕ → List Char
  | (w, c) :: format, n :: ns => fixed b w n ++ c :: fields b format ns
  | _, _ => []

/-- Every number fits its field. -/
def Fits (b : ℕ) (format : List (ℕ × Char)) (ns : List ℕ) : Prop :=
  List.Forall₂ (fun field n => n < b ^ field.1) format ns

/-- **Such texts sort as the numbers in them**, the first of them first. -/
theorem fields_lt_fields {b : ℕ} (hb : 0 < b) (hb16 : b ≤ 16) {format : List (ℕ × Char)}
    {ms ns : List ℕ} (hms : Fits b format ms) (hns : Fits b format ns) (h : ms < ns) :
    fields b format ms < fields b format ns := by
  induction hms generalizing ns with
  | nil =>
    rcases hns with - | -
    exact absurd h (List.not_lt_nil _)
  | cons hm _ ih =>
    rcases hns with - | ⟨hn, hns⟩
    rw [fields, fields, append_lt_append_iff (by rw [length_fixed, length_fixed])]
    rcases List.cons_lt_cons_iff.1 h with hlt | ⟨rfl, hlt⟩
    · exact .inl ((fixed_lt_fixed_iff hb hb16 hm hn).2 hlt)
    · exact .inr ⟨rfl, List.cons_lt_cons_iff.2 (.inr ⟨rfl, ih hns hlt⟩)⟩

/-! ## Reading -/

section Value

variable {b v : ℕ}

/-- The number of a row of digits that follow the number `v`. -/
def value (b v : ℕ) (ds : List ℕ) : ℕ := ds.foldl (fun v d => v * b + d) v

theorem le_value (hb : 0 < b) (ds : List ℕ) : v ≤ value b v ds := by
  induction ds generalizing v with
  | nil => exact le_rfl
  | cons d ds ih =>
    have hstep : v ≤ v * b + d := Nat.le_add_right_of_le (Nat.le_mul_of_pos_right v hb)
    exact hstep.trans ih

/-- **Reading with a check at every digit** is reading, and one check. -/
theorem foldlM_checked_eq_some_iff (hb : 0 < b) {digit? : Char → Option ℕ} {bound n : ℕ}
    (hv : v < bound) (cs : List Char) :
    cs.foldlM (fun v c => do
      let v := v * b + (← digit? c)
      if v < bound then some v else none) v = some n ↔
      ∃ ds, cs.mapM digit? = some ds ∧ value b v ds = n ∧ n < bound := by
  induction cs generalizing v with
  | nil =>
    constructor
    · intro h
      obtain rfl := Option.some.inj h
      exact ⟨[], rfl, rfl, hv⟩
    · rintro ⟨ds, hds, hn, -⟩
      obtain rfl := Option.some.inj hds
      exact congrArg some hn
  | cons c cs ih =>
    rw [List.foldlM_cons, List.mapM_cons]
    rcases hd : digit? c with - | d
    · constructor
      · intro h
        cases h
      · rintro ⟨ds, hds, -⟩
        cases hds
    · rw [Option.bind_eq_bind, Option.bind_some]
      constructor
      · intro h
        obtain ⟨v', hv', hrest⟩ := Option.bind_eq_some_iff.1 h
        dsimp only at hv'
        split at hv'
        · next hlt =>
          obtain rfl := Option.some.inj hv'
          obtain ⟨ds, hds, hn, hbound⟩ := (ih hlt).1 hrest
          exact ⟨d :: ds, by rw [hds]; rfl, hn, hbound⟩
        · cases hv'
      · rintro ⟨ds, hds, hn, hbound⟩
        obtain ⟨d', hd', hmap⟩ := Option.bind_eq_some_iff.1 hds
        obtain rfl := Option.some.inj hd'
        obtain ⟨ds', hds', hcons⟩ := Option.bind_eq_some_iff.1 hmap
        obtain rfl := Option.some.inj hcons
        have hn : value b (v * b + d) ds' = n := hn
        have hlt : v * b + d < bound := Nat.lt_of_le_of_lt (hn ▸ le_value hb ds') hbound
        have hrest := (ih hlt).2 ⟨ds', hds', hn, hbound⟩
        dsimp only
        rw [if_pos hlt]
        exact hrest

/-- **A numeral read back.** -/
theorem value_fixed (hb : 0 < b) {digit? : Char → Option ℕ}
    (hdigit : ∀ d < b, digit? (Nat.digitChar d) = some d) {w n : ℕ} (hn : n < b ^ w) :
    ∃ ds, (fixed b w n).mapM digit? = some ds ∧ value b 0 ds = n := by
  induction w generalizing n with
  | zero =>
    rw [Nat.pow_zero] at hn
    exact ⟨[], rfl, (Nat.lt_one_iff.1 hn).symm⟩
  | succ w ih =>
    obtain ⟨ds, hds, hvalue⟩ :=
      ih (n := n / b) (Nat.div_lt_of_lt_mul (by rwa [Nat.mul_comm, ← Nat.pow_succ]))
    refine ⟨ds ++ [n % b], ?_, ?_⟩
    · rw [fixed, List.mapM_append, hds, List.mapM_cons, hdigit _ (Nat.mod_lt n hb)]
      rfl
    · rw [value, List.foldl_append]
      change value b 0 ds * b + n % b = n
      rw [hvalue, Nat.mul_comm]
      exact Nat.div_add_mod n b

end Value

/-! ## Texts -/

theorem isSome_of_mapM {α β : Type} {f : α → Option β} {as : List α} {bs : List β}
    (h : as.mapM f = some bs) : ∀ a ∈ as, (f a).isSome := by
  induction as generalizing bs with
  | nil =>
    intro a ha
    cases ha
  | cons a as ih =>
    rw [List.mapM_cons] at h
    obtain ⟨b, hb, hrest⟩ := Option.bind_eq_some_iff.1 h
    obtain ⟨bs', hbs', -⟩ := Option.bind_eq_some_iff.1 hrest
    refine List.forall_mem_cons.2 ⟨?_, ih hbs'⟩
    rw [hb]
    rfl

/-- **A numeral of `n`**, of `w` digits or of as many more as `n` needs. -/
structure IsNumeral (b : ℕ) (digit? : Char → Option ℕ) (w : ℕ) (cs : List Char) (n : ℕ) :
    Prop where
  digits : ∃ ds, cs.mapM digit? = some ds ∧ value b 0 ds = n
  le_length : w ≤ cs.length
  short : w < cs.length → b ^ (cs.length - 1) ≤ n

/-- **What a text says**: a numeral in every field, each with the character
after it. -/
def Reads (b : ℕ) (digit? : Char → Option ℕ) : List (ℕ × Char) → List Char → List ℕ → Prop
  | [], cs, [] => cs = []
  | (w, c) :: format, cs, n :: ns => ∃ field rest, cs = field ++ c :: rest ∧
      IsNumeral b digit? w field n ∧ Reads b digit? format rest ns
  | _, _, _ => False

section Reads

variable {b w n : ℕ} {digit? : Char → Option ℕ} {c : Char} {cs cs' rest rest' : List Char}

/-- A format with leading zeros prints one. -/
theorem isNumeral_padded (hb : 1 < b) (hw : 0 < w)
    (hdigit : ∀ d < b, digit? (Nat.digitChar d) = some d) (n : ℕ) :
    IsNumeral b digit? w
      (List.replicate (w - (Nat.toDigits b n).length) '0' ++ Nat.toDigits b n) n := by
  have hlen : ∀ {k}, 0 < k → ((Nat.toDigits b n).length ≤ k ↔ n < b ^ k) := fun hk =>
    Nat.length_toDigits_le_iff hb hk
  set l := (Nat.toDigits b n).length with hl
  have hn : n < b ^ max w l := (hlen (by omega)).1 (Nat.le_max_right w l)
  rw [show w - l = max w l - l by omega, hl, replicate_append_toDigits hb (by omega) hn]
  refine ⟨value_fixed (by omega) hdigit hn, ?_, ?_⟩
  · rw [length_fixed]
    exact Nat.le_max_left w l
  · rw [length_fixed]
    intro hlt
    by_contra hshort
    have hle := (hlen (show 0 < max w l - 1 by omega)).2 (Nat.not_le.1 hshort)
    omega

/-- What is no digit ends a numeral. -/
theorem append_cons_inj (hc : digit? c = none) (h : ∀ x ∈ cs, (digit? x).isSome)
    (h' : ∀ x ∈ cs', (digit? x).isSome) (heq : cs ++ c :: rest = cs' ++ c :: rest') :
    cs = cs' ∧ rest = rest' := by
  have hsplit : ∀ {xs ys : List Char}, (∀ x ∈ xs, (digit? x).isSome) →
      (xs ++ c :: ys).takeWhile (fun x => (digit? x).isSome) = xs ∧
        (xs ++ c :: ys).dropWhile (fun x => (digit? x).isSome) = c :: ys := by
    intro xs ys hxs
    rw [List.takeWhile_append_of_pos hxs, List.dropWhile_append_of_pos hxs]
    simp [hc]
  obtain ⟨htake, hdrop⟩ := hsplit h
  obtain ⟨htake', hdrop'⟩ := hsplit h'
  rw [heq] at htake hdrop
  exact ⟨htake.symm.trans htake', (List.cons.inj (hdrop.symm.trans hdrop')).2⟩

/-- **A text says one thing.** -/
theorem Reads.unique {format : List (ℕ × Char)} (hsep : ∀ field ∈ format, digit? field.2 = none)
    {ns ns' : List ℕ} (h : Reads b digit? format cs ns) (h' : Reads b digit? format cs ns') :
    ns = ns' := by
  induction format generalizing cs ns ns' with
  | nil =>
    rcases ns with - | ⟨n, ns⟩
    · rcases ns' with - | ⟨n', ns'⟩
      · rfl
      · exact h'.elim
    · exact h.elim
  | cons head format ih =>
    rcases ns with - | ⟨n, ns⟩
    · exact h.elim
    rcases ns' with - | ⟨n', ns'⟩
    · exact h'.elim
    obtain ⟨field, rest, rfl, ⟨⟨ds, hds, rfl⟩, -, -⟩, hrest⟩ := h
    obtain ⟨field', rest', heq, ⟨⟨ds', hds', rfl⟩, -, -⟩, hrest'⟩ := h'
    obtain ⟨hhead, htail⟩ := List.forall_mem_cons.1 hsep
    obtain ⟨rfl, rfl⟩ := append_cons_inj hhead (isSome_of_mapM hds) (isSome_of_mapM hds') heq
    rw [Option.some.inj (hds.symm.trans hds'), ih htail hrest hrest']

end Reads

end Numeral

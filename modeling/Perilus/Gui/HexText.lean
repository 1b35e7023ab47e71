import Mathlib.Data.List.TakeWhile
import Perilus.Common.Numeral
import Perilus.Gui.Model.App
/-!
# Debugger — the addresses it reads

`parse_hex` takes hex digits that fit 32 bits, after a `0x` or none and a
plus sign or none, with white space around them, and nothing else. So
every address the debugger prints can be typed back.
-/

namespace Perilus

open Numeral

/-- **A text that stands for a number**, in its parts. -/
structure HexText where
  before : List Char
  radix : List Char
  sign : List Char
  digits : List Char
  after : List Char
  before_white : ∀ c ∈ before, isWhitespace c
  radix_mem : radix ∈ [[], ['0', 'x'], ['0', 'X']]
  sign_mem : sign ∈ [[], ['+']]
  digits_ne_nil : digits ≠ []
  digits_hex : ∀ c ∈ digits, (toDigit16 c).isSome
  after_white : ∀ c ∈ after, isWhitespace c

namespace HexText

def text (t : HexText) : List Char := t.before ++ (t.radix ++ (t.sign ++ t.digits)) ++ t.after

def number (t : HexText) : ℕ := value 16 0 (t.digits.filterMap toDigit16)

end HexText

/-! ## White space -/

/-- What is trimmed is white space. -/
theorem exists_eq_trim (s : List Char) : ∃ before after, s = before ++ trim s ++ after ∧
    (∀ c ∈ before, isWhitespace c) ∧ ∀ c ∈ after, isWhitespace c := by
  refine ⟨s.takeWhile isWhitespace,
    ((s.dropWhile isWhitespace).reverse.takeWhile isWhitespace).reverse, ?_, ?_, ?_⟩
  · rw [trim, List.append_assoc, ← List.reverse_append, List.takeWhile_append_dropWhile,
      List.reverse_reverse, List.takeWhile_append_dropWhile]
  · exact fun c hc => List.mem_takeWhile_imp hc
  · exact fun c hc => List.mem_takeWhile_imp (List.mem_reverse.1 hc)

/-- White space goes, up to a character that is none on either side. -/
theorem trim_append {before after : List Char} (core : List Char)
    (hbefore : ∀ c ∈ before, isWhitespace c) (hafter : ∀ c ∈ after, isWhitespace c)
    (hcore : core ≠ []) (hwhite : ∀ c ∈ core, ¬ isWhitespace c) :
    trim (before ++ core ++ after) = core := by
  -- `dropWhile` stops at once where the first character is kept
  have hkeep : ∀ cs rest : List Char, cs ≠ [] → (∀ c ∈ cs, ¬ isWhitespace c) →
      (cs ++ rest).dropWhile isWhitespace = cs ++ rest := by
    intro cs rest hne hcs
    obtain ⟨c, cs, rfl⟩ := List.exists_cons_of_ne_nil hne
    exact List.dropWhile_cons_of_neg (hcs c List.mem_cons_self)
  rw [trim, List.append_assoc, List.dropWhile_append_of_pos hbefore, hkeep core _ hcore hwhite,
    List.reverse_append,
    List.dropWhile_append_of_pos fun c hc => hafter c (List.mem_reverse.1 hc)]
  have hreverse := hkeep core.reverse [] (by simpa using hcore) (by simpa using hwhite)
  rw [List.append_nil] at hreverse
  rw [hreverse, List.reverse_reverse]

/-! ## Digits -/

/-- The code of a hex digit. -/
theorem toNat_of_toDigit16 {c : Char} (h : (toDigit16 c).isSome) :
    (48 ≤ c.toNat ∧ c.toNat ≤ 57) ∨ (97 ≤ c.toNat ∧ c.toNat ≤ 102) ∨
      (65 ≤ c.toNat ∧ c.toNat ≤ 70) := by
  unfold toDigit16 at h
  split at h
  · next hdigit => exact .inl hdigit
  · split at h
    · next hlower => exact .inr (.inl hlower)
    · split at h
      · next hupper => exact .inr (.inr hupper)
      · cases h

theorem not_isWhitespace_of_toDigit16 {c : Char} (h : (toDigit16 c).isSome) :
    ¬ isWhitespace c := by
  have hcode := toNat_of_toDigit16 h
  simp only [isWhitespace, Bool.or_eq_true, Bool.and_eq_true, decide_eq_true_eq, beq_iff_eq]
  omega

theorem mapM_eq_filterMap {α β : Type} {f : α → Option β} {as : List α}
    (h : ∀ a ∈ as, (f a).isSome) : as.mapM f = some (as.filterMap f) := by
  induction as with
  | nil => rfl
  | cons a as ih =>
    obtain ⟨b, hb⟩ := Option.isSome_iff_exists.1 (h a List.mem_cons_self)
    rw [List.mapM_cons, hb, ih fun a' ha' => h a' (List.mem_cons_of_mem a ha'),
      List.filterMap_cons_some hb]
    rfl

/-- The loop of `from_str_radix`. -/
theorem readDigits_eq_some_iff {digits : List Char} {x : BitVec 32} :
    (digits.foldlM (fun value c => do
      let value := value * 16 + (← toDigit16 c)
      if value < 2 ^ 32 then some value else none) 0).map (BitVec.ofNat 32) = some x ↔
      (∀ c ∈ digits, (toDigit16 c).isSome) ∧
        value 16 0 (digits.filterMap toDigit16) = x.toNat := by
  rw [Option.map_eq_some_iff]
  constructor
  · rintro ⟨n, hn, rfl⟩
    obtain ⟨ds, hds, hvalue, hlt⟩ :=
      (foldlM_checked_eq_some_iff (by decide) (by decide) digits).1 hn
    have hhex := isSome_of_mapM hds
    rw [mapM_eq_filterMap hhex] at hds
    obtain rfl := Option.some.inj hds
    exact ⟨hhex, hvalue.trans (BitVec.toNat_ofNat n 32 ▸ (Nat.mod_eq_of_lt hlt).symm)⟩
  · rintro ⟨hhex, hvalue⟩
    refine ⟨x.toNat, ?_, by rw [BitVec.ofNat_toNat, BitVec.setWidth_eq]⟩
    exact (foldlM_checked_eq_some_iff (by decide) (by decide) digits).2
      ⟨_, mapM_eq_filterMap hhex, hvalue, x.isLt⟩

/-- **`u32::from_str_radix`.** -/
theorem fromStrRadix16_eq_some_iff {cs : List Char} {x : BitVec 32} :
    fromStrRadix16 cs = some x ↔ ∃ sign digits, cs = sign ++ digits ∧ sign ∈ [[], ['+']] ∧
      digits ≠ [] ∧ (∀ c ∈ digits, (toDigit16 c).isSome) ∧
      value 16 0 (digits.filterMap toDigit16) = x.toNat := by
  unfold fromStrRadix16
  dsimp only
  split
  · next digits =>
    constructor
    · intro h
      split at h
      · cases h
      · next hne => exact ⟨['+'], digits, rfl, by decide, hne, readDigits_eq_some_iff.1 h⟩
    · rintro ⟨sign, digits', heq, hsign, hne, hhex⟩
      rcases List.mem_pair.1 hsign with rfl | rfl
      · -- the plus sign is no digit
        obtain rfl := heq
        cases hhex.1 '+' List.mem_cons_self
      · obtain rfl := (List.cons.inj heq).2
        rw [if_neg hne]
        exact readDigits_eq_some_iff.2 hhex
  · next hplus =>
    constructor
    · intro h
      split at h
      · cases h
      · next hne => exact ⟨[], cs, rfl, by decide, hne, readDigits_eq_some_iff.1 h⟩
    · rintro ⟨sign, digits, rfl, hsign, hne, hhex⟩
      rcases List.mem_pair.1 hsign with rfl | rfl
      · rw [List.nil_append, if_neg hne]
        exact readDigits_eq_some_iff.2 hhex
      · exact absurd rfl (hplus digits)

/-- What `from_str_radix` takes does not begin with a radix. -/
theorem fromStrRadix16_radix {c : Char} (hc : c = 'x' ∨ c = 'X') (cs : List Char) :
    fromStrRadix16 ('0' :: c :: cs) = none := by
  by_contra hsome
  obtain ⟨x, hx⟩ := Option.ne_none_iff_exists'.1 hsome
  obtain ⟨sign, digits, heq, hsign, -, hhex, -⟩ := fromStrRadix16_eq_some_iff.1 hx
  rcases List.mem_pair.1 hsign with rfl | rfl
  · obtain rfl := heq
    have hdigit := hhex c (List.mem_cons_of_mem _ List.mem_cons_self)
    rcases hc with rfl | rfl <;> cases hdigit
  · cases (List.cons.inj heq).1

/-! ## The field -/

/-- **What is left of a text** without white space and radix is the number. -/
theorem parseHex_eq_some_iff_trim {text : String} {x : BitVec 32} : parseHex text = some x ↔
    ∃ radix rest, trim text.toList = radix ++ rest ∧ radix ∈ [[], ['0', 'x'], ['0', 'X']] ∧
      fromStrRadix16 rest = some x := by
  have hempty : fromStrRadix16 [] = none := rfl
  -- the check for an empty rest refuses nothing that would be read
  have hif : ∀ cs, (if cs = [] then none else fromStrRadix16 cs) = fromStrRadix16 cs := by
    intro cs
    split
    · next h => rw [h, hempty]
    · rfl
  unfold parseHex
  dsimp only
  split
  · next rest htrim =>
    rw [hif, htrim]
    constructor
    · exact fun h => ⟨['0', 'x'], rest, rfl, by decide, h⟩
    · rintro ⟨radix, rest', heq, hradix, h⟩
      simp only [List.mem_cons, List.not_mem_nil, or_false] at hradix
      rcases hradix with rfl | rfl | rfl
      · obtain rfl := heq
        cases h.symm.trans (fromStrRadix16_radix (.inl rfl) rest)
      · obtain rfl := (List.cons.inj (List.cons.inj heq).2).2
        exact h
      · cases (List.cons.inj (List.cons.inj heq).2).1
  · next rest htrim =>
    rw [hif, htrim]
    constructor
    · exact fun h => ⟨['0', 'X'], rest, rfl, by decide, h⟩
    · rintro ⟨radix, rest', heq, hradix, h⟩
      simp only [List.mem_cons, List.not_mem_nil, or_false] at hradix
      rcases hradix with rfl | rfl | rfl
      · obtain rfl := heq
        cases h.symm.trans (fromStrRadix16_radix (.inr rfl) rest)
      · cases (List.cons.inj (List.cons.inj heq).2).1
      · obtain rfl := (List.cons.inj (List.cons.inj heq).2).2
        exact h
  · next hlower hupper =>
    rw [hif]
    constructor
    · exact fun h => ⟨[], _, rfl, by decide, h⟩
    · rintro ⟨radix, rest, heq, hradix, h⟩
      simp only [List.mem_cons, List.not_mem_nil, or_false] at hradix
      rcases hradix with rfl | rfl | rfl
      · rw [heq]
        exact h
      · exact absurd heq (hlower rest)
      · exact absurd heq (hupper rest)

/-- A text that stands for the number is taken for it. -/
theorem HexText.parse (t : HexText) {text : String} {x : BitVec 32} (htext : t.text = text.toList)
    (hnumber : t.number = x.toNat) : parseHex text = some x := by
  have hradix : ∀ cs ∈ [[], ['0', 'x'], ['0', 'X']], ∀ c ∈ cs, ¬ isWhitespace c := by
    simp [isWhitespace]
  have hsign : ∀ cs ∈ [[], ['+']], ∀ c ∈ cs, ¬ isWhitespace c := by simp [isWhitespace]
  -- so only the ends are trimmed
  have hcore : ∀ c ∈ t.radix ++ (t.sign ++ t.digits), ¬ isWhitespace c := by
    rw [List.forall_mem_append, List.forall_mem_append]
    exact ⟨hradix _ t.radix_mem, hsign _ t.sign_mem,
      fun c hc => not_isWhitespace_of_toDigit16 (t.digits_hex c hc)⟩
  refine parseHex_eq_some_iff_trim.2 ⟨t.radix, t.sign ++ t.digits, ?_, t.radix_mem, ?_⟩
  · rw [← htext]
    exact trim_append _ t.before_white t.after_white (by simp [t.digits_ne_nil]) hcore
  · exact fromStrRadix16_eq_some_iff.2
      ⟨t.sign, t.digits, rfl, t.sign_mem, t.digits_ne_nil, t.digits_hex, hnumber⟩

/-- **Exactly the texts that stand for the number.** -/
theorem parseHex_eq_some_iff (text : String) (x : BitVec 32) :
    parseHex text = some x ↔ ∃ t : HexText, t.text = text.toList ∧ t.number = x.toNat := by
  constructor
  · intro h
    obtain ⟨radix, rest, htrim, hradix, h⟩ := parseHex_eq_some_iff_trim.1 h
    obtain ⟨sign, digits, rfl, hsign, hne, hhex, hvalue⟩ := fromStrRadix16_eq_some_iff.1 h
    obtain ⟨before, after, htext, hbefore, hafter⟩ := exists_eq_trim text.toList
    rw [htrim] at htext
    exact ⟨⟨before, radix, sign, digits, after, hbefore, hradix, hsign, hne, hhex, hafter⟩,
      htext.symm, hvalue⟩
  · rintro ⟨t, htext, hnumber⟩
    exact t.parse htext hnumber

/-! ## Addresses the debugger prints -/

theorem toDigit16_digitChar : ∀ d < 16, toDigit16 (Nat.digitChar d) = some d := by decide

theorem toList_hex08 (x : BitVec 32) : (hex08 x).toList = fixed 16 8 x.toNat := by
  rw [hex08, String.toList_ofList]
  exact replicate_append_toDigits (by decide) (by decide) x.isLt

/-- The eight digits of a word, after a radix or none. -/
theorem exists_hexText (x : BitVec 32) (radix : List Char)
    (hradix : radix ∈ [[], ['0', 'x'], ['0', 'X']]) :
    ∃ t : HexText, t.text = radix ++ fixed 16 8 x.toNat ∧ t.number = x.toNat := by
  obtain ⟨ds, hds, hvalue⟩ :=
    value_fixed (b := 16) (by decide) toDigit16_digitChar (w := 8) (n := x.toNat) x.isLt
  have hhex := isSome_of_mapM hds
  rw [mapM_eq_filterMap hhex] at hds
  have hne : fixed 16 8 x.toNat ≠ [] := List.ne_nil_of_length_pos (by rw [length_fixed]; decide)
  refine ⟨⟨[], radix, [], fixed 16 8 x.toNat, [], by simp, hradix, by decide, hne, hhex, by simp⟩,
    ?_, ?_⟩
  · rw [HexText.text]
    simp
  · rw [HexText.number, Option.some.inj hds, hvalue]

/-- **Every address the debugger prints** is read back as itself, with the
radix it is printed with or without. -/
theorem parseHex_hex08 (x : BitVec 32) :
    parseHex ("0x" ++ hex08 x) = some x ∧ parseHex (hex08 x) = some x := by
  obtain ⟨t, htext, hnumber⟩ := exists_hexText x ['0', 'x'] (by decide)
  obtain ⟨t', htext', hnumber'⟩ := exists_hexText x [] (by decide)
  refine ⟨t.parse ?_ hnumber, t'.parse ?_ hnumber'⟩
  · rw [htext, String.toList_append, toList_hex08]
    rfl
  · rw [htext', toList_hex08, List.nil_append]

end Perilus

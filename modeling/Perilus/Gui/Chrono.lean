import Perilus.Common.Gregorian
import Perilus.Common.Numeral
import Perilus.Gui.Model.Chrono
/-!
# Debugger — `chrono_lite` and the calendar

The function divides the days into eras of 400 years and an era into
years that begin in March. Its guess at the year counts one year too many
on the last day of a leap year, the 29th of February, since it divides
by 1461 where it would have to by 1460; on every other day it is right.
What counts is the text: the numerals that are read off it are the numbers
of the moment (`IsoText`).
-/

namespace Perilus

open Gregorian Numeral

/-! ## The text -/

/-- A decimal digit. -/
def toDigit10 (c : Char) : Option ℕ :=
  if '0' ≤ c ∧ c ≤ '9' then some (c.toNat - '0'.toNat) else none

/-- The fields of a date and time, by how many digits each has at least,
and what follows them. -/
def chronoFormat : List (ℕ × Char) :=
  [(4, '-'), (2, '-'), (2, 'T'), (2, ':'), (2, ':'), (2, 'Z')]

/-- **The text is the moment**, its date and its time of day. -/
def IsoText (text : String) (t : Moment) : Prop :=
  ∃ year : ℕ, (year : ℤ) = t.date.year ∧ Reads 10 toDigit10 chronoFormat text.toList
    [year, t.date.month, t.date.day, t.hour, t.minute, t.second]

/-- **`chrono_lite` prints the one moment that lies `secs` seconds after
1970**, and no operation leaves the range. -/
def ChronoRight (secs : BitVec 64) : Prop :=
  ∃ t, (∀ t', Moment.After secs.toNat t' ↔ t' = t) ∧
    ∃ text, chronoLite secs = some text ∧ IsoText text t

/-- The numbers are those of the moment. -/
structure Chrono.Shows (c : Chrono) (t : Moment) : Prop where
  year : (c.year : ℤ) = t.date.year
  m : c.m = t.date.month
  d : c.d = t.date.day
  hours : c.hours = t.hour
  minutes : c.minutes = t.minute
  seconds : c.seconds = t.second

theorem toDigit10_digitChar : ∀ d < 10, toDigit10 (Nat.digitChar d) = some d := by decide

/-- The numbers of the text. -/
def Chrono.numbers (c : Chrono) : List ℕ := [c.year, c.m, c.d, c.hours, c.minutes, c.seconds]

theorem isNumeral_decPad {w : ℕ} (hw : 0 < w) (n : ℕ) :
    IsNumeral 10 toDigit10 w (decPad w n).toList n := by
  rw [decPad, String.toList_ofList]
  exact isNumeral_padded (by decide) hw toDigit10_digitChar n

/-- **What the text says.** -/
theorem Chrono.reads_text (c : Chrono) :
    Reads 10 toDigit10 chronoFormat c.text.toList c.numbers := by
  have hfield : ∀ {w n : ℕ} {ch : Char} {format rest ns}, 0 < w →
      Reads 10 toDigit10 format rest ns →
      Reads 10 toDigit10 ((w, ch) :: format) ((decPad w n).toList ++ ch :: rest) (n :: ns) :=
    fun hw hrest => ⟨_, _, rfl, isNumeral_decPad hw _, hrest⟩
  have htext : c.text.toList = (decPad 4 c.year).toList ++ '-' :: ((decPad 2 c.m).toList ++ '-' ::
      ((decPad 2 c.d).toList ++ 'T' :: ((decPad 2 c.hours).toList ++ ':' ::
        ((decPad 2 c.minutes).toList ++ ':' :: ((decPad 2 c.seconds).toList ++ ['Z']))))) := by
    simp [Chrono.text]
  rw [htext]
  refine hfield (by decide) (hfield (by decide) (hfield (by decide) (hfield (by decide)
    (hfield (by decide) (hfield (by decide) ?_)))))
  rfl

/-- **The text shows a moment** when its numbers do. -/
theorem Chrono.isoText_iff (c : Chrono) (t : Moment) : IsoText c.text t ↔ c.Shows t := by
  constructor
  · rintro ⟨year, hyear, hreads⟩
    have hnumbers := c.reads_text.unique (by decide) hreads
    simp only [Chrono.numbers, List.cons.injEq, and_true] at hnumbers
    obtain ⟨h₁, h₂, h₃, h₄, h₅, h₆⟩ := hnumbers
    exact ⟨by rw [h₁, hyear], h₂, h₃, h₄, h₅, h₆⟩
  · rintro ⟨hyear, h₂, h₃, h₄, h₅, h₆⟩
    refine ⟨c.year, hyear, ?_⟩
    rw [← h₂, ← h₃, ← h₄, ← h₅, ← h₆]
    exact c.reads_text

/-- So the numbers decide. -/
theorem chronoRight_iff_parts (secs : BitVec 64) : ChronoRight secs ↔
    ∃ c, chronoParts secs = some c ∧ c.Shows (Moment.ofSeconds secs.toNat) := by
  constructor
  · rintro ⟨t, ht, text, htext, hiso⟩
    obtain rfl : Moment.ofSeconds secs.toNat = t := (ht _).1 (Moment.after_iff.2 rfl)
    obtain ⟨c, hc, rfl⟩ := Option.map_eq_some_iff.1 htext
    exact ⟨c, hc, (c.isoText_iff _).1 hiso⟩
  · rintro ⟨c, hc, hshows⟩
    refine ⟨_, fun t' => Moment.after_iff, c.text, ?_, (c.isoText_iff _).2 hshows⟩
    rw [chronoLite, hc, Option.map_some]

/-! ## The arithmetic, a step at a time -/

theorem checkedAdd_of_lt {m n : ℕ} (h : m + n < 2 ^ 64) : checkedAdd m n = some (m + n) := if_pos h

theorem checkedMul_of_lt {m n : ℕ} (h : m * n < 2 ^ 64) : checkedMul m n = some (m * n) := if_pos h

section Era

/-! The day of an era: its century, the four years within the century, the
year within the four, and the day of the year. -/

variable {c q p doy doe : ℕ} (hc : c < 4) (hq : q < 25) (hp : p < 4) (hdoy : doy ≤ 365)
  (hleap : doy = 365 → p = 3 ∧ (q ≠ 24 ∨ c = 3))
  (hdoe : doe = 36524 * c + 1461 * q + 365 * p + doy)
include hc hq hp hdoy hleap hdoe

/-- **The year of the era**, and one more on the last day of a leap year. -/
theorem yoe_eq :
    (doe - doe / 1461 + doe / 36524 - doe / 146096) / 365 = 100 * c + 4 * q + p + doy / 365 := by
  have hcentury : doe / 36524 = c + doe / 146096 := by
    by_cases hlast : doe = 146096
    · subst hlast
      omega
    · have : doe / 146096 = 0 := by omega
      omega
  -- a century is a day short of 25 times four years
  have hfour : doe / 1461 = 25 * c + q ∨ doe / 1461 + 1 = 25 * c + q ∧ 365 * p + doy < c := by
    omega
  have hle : doe / 1461 ≤ doe := by omega
  have hera : doe / 146096 ≤ 1 := by omega
  omega

theorem chronoYoe_eq : chronoYoe doe = some (100 * c + 4 * q + p + doy / 365) := by
  have hyoe := yoe_eq hc hq hp hdoy hleap hdoe
  rw [chronoYoe, checkedSub_of_le (by omega), Option.bind_eq_bind, Option.bind_some,
    checkedAdd_of_lt (by omega), Option.bind_some, checkedSub_of_le (by omega),
    Option.bind_some, hyoe]
  rfl

end Era

section Days

variable {doy yoe mp : ℕ}

/-- What `chrono_lite` takes for the days of the year: the days from the
first of March of the year it guessed, if that is not ahead. -/
theorem chronoDoy_eq (doe : ℕ) (hlt : yoe ≤ 400) :
    chronoDoy doe yoe = checkedSub doe (365 * yoe + yoe / 4 - yoe / 100) := by
  rw [chronoDoy, checkedMul_of_lt (by omega), Option.bind_eq_bind, Option.bind_some,
    checkedAdd_of_lt (by omega), Option.bind_some, checkedSub_of_le (by omega),
    Option.bind_some]

theorem chronoMp_eq (h : doy ≤ 365) : chronoMp doy = some ((5 * doy + 2) / 153) := by
  rw [chronoMp, checkedMul_of_lt (by omega), Option.bind_eq_bind, Option.bind_some,
    checkedAdd_of_lt (by omega)]
  rfl

theorem chronoD_eq (hmp : (153 * mp + 2) / 5 ≤ doy) (h : doy ≤ 365) :
    chronoD doy mp = some (doy - (153 * mp + 2) / 5 + 1) := by
  rw [chronoD, checkedMul_of_lt (by omega), Option.bind_eq_bind, Option.bind_some,
    checkedAdd_of_lt (by omega), Option.bind_some, checkedSub_of_le hmp, Option.bind_some,
    checkedAdd_of_lt (by omega)]

/-- The month, and the year that begins in January, of a date. -/
theorem chronoDate_eq {date : Date} {y : ℕ} (hy : y < 2 ^ 60) (hyear : date.marchYear = y)
    (hdoy : date.marchDay ≤ 365) :
    ∃ year : ℕ, (year : ℤ) = date.year ∧
      chronoDate y date.marchDay = some (year, date.month, date.day) := by
  have hmp := date.marchMonth_le
  have hd : date.day = date.marchDay - (153 * date.marchMonth + 2) / 5 + 1 := date.day_eq
  have hpos := date.day_pos
  have hm : chronoM date.marchMonth = some date.month := by
    rw [chronoM, date.month_eq]
    split
    · exact checkedAdd_of_lt (by omega)
    · exact checkedSub_of_le (by omega)
  have hle : (153 * date.marchMonth + 2) / 5 ≤ date.marchDay := by
    unfold Date.marchDay
    omega
  rw [chronoDate, chronoMp_eq hdoy, Option.bind_eq_bind, Option.bind_some, ← date.marchMonth_eq,
    chronoD_eq hle hdoy, Option.bind_some, ← hd, hm, Option.bind_some, date.year_eq, hyear,
    chronoYear]
  split
  · exact ⟨y + 1, by omega, by rw [checkedAdd_of_lt (by omega)]; rfl⟩
  · exact ⟨y, rfl, rfl⟩

end Days

/-! ## The date -/

/-- Where a day stands in its era. -/
structure InEra (z : ℕ) (date : Date) (era c q p doy : ℕ) : Prop where
  year : date.marchYear = 400 * era + 100 * c + 4 * q + p
  century : c < 4
  four : q < 25
  one : p < 4
  marchDay : date.marchDay = doy
  doy_le : doy ≤ 365
  leap : doy = 365 → p = 3 ∧ (q ≠ 24 ∨ c = 3)
  z : z = 146097 * era + 36524 * c + 1461 * q + 365 * p + doy

/-- The day a year begins on, by where the year stands in its era. -/
theorem yearStart_era (N : ℕ) :
    Date.yearStart N = ((146097 * (N / 400) + 36524 * (N % 400 / 100) + 1461 * (N % 100 / 4) +
      365 * (N % 4) : ℕ) : ℤ) := by
  have hera : N / 100 = 4 * (N / 400) + N % 400 / 100 := by omega
  have hfour : N / 4 = 25 * (N / 100) + N % 100 / 4 := by omega
  have hyear : N = 4 * (N / 4) + N % 4 := by omega
  rw [Date.yearStart]
  omega

/-- **Every day from the epoch on stands in one.** -/
theorem exists_inEra (days : ℕ) :
    ∃ era c q p doy,
      InEra (days + 719468) (Date.tomorrow^[days] Date.epoch) era c q p doy := by
  set date := Date.tomorrow^[days] Date.epoch with hdate
  have hord : date.ordinal = 719468 + days := by
    rw [hdate, Date.ordinal_iterate, Date.ordinal_epoch]
  have hlt := date.marchDay_lt
  have hle : date.marchDay ≤ 365 := by
    split at hlt <;> omega
  have hnonneg : 0 ≤ date.marchYear := by
    rw [Date.ordinal, Date.yearStart] at hord
    omega
  obtain ⟨N, hN⟩ : ∃ N : ℕ, date.marchYear = N := ⟨date.marchYear.toNat, by omega⟩
  rw [Date.ordinal, hN, yearStart_era] at hord
  rw [hN] at hlt
  refine ⟨N / 400, N % 400 / 100, N % 100 / 4, N % 4, date.marchDay, ?_⟩
  refine ⟨by omega, by omega, by omega, by omega, rfl, hle, ?_, by omega⟩
  intro hlast
  have hleap : IsLeap ((N : ℤ) + 1) := by
    by_contra hno
    rw [if_neg hno] at hlt
    omega
  rw [Date.isLeap_iff] at hleap
  omega

section Civil

variable {z : ℕ} {date : Date} {era c q p doy : ℕ} (h : InEra z date era c q p doy)
include h

/-- **The date, from the guess at the year.** -/
theorem chronoCivil_eq (hlt : z < 2 ^ 48) :
    chronoCivil z =
      (checkedSub (36524 * c + 1461 * q + 365 * p + doy)
        (365 * (100 * c + 4 * q + p + doy / 365) + (100 * c + 4 * q + p + doy / 365) / 4 -
          (100 * c + 4 * q + p + doy / 365) / 100)).bind
        (chronoDate (100 * c + 4 * q + p + doy / 365 + era * 400)) := by
  obtain ⟨-, hc, hq, hp, -, hdoy, hleap, hz⟩ := h
  have hera : z / 146097 = era := by omega
  have hdoe : z - era * 146097 = 36524 * c + 1461 * q + 365 * p + doy := by omega
  have h1 : checkedMul era 146097 = some (era * 146097) := checkedMul_of_lt (by omega)
  have h2 : checkedSub z (era * 146097) = some (z - era * 146097) := checkedSub_of_le (by omega)
  have h3 := chronoYoe_eq hc hq hp hdoy hleap hdoe
  have h4 : checkedMul era 400 = some (era * 400) := checkedMul_of_lt (by omega)
  have h5 : checkedAdd (100 * c + 4 * q + p + doy / 365) (era * 400) =
    some (100 * c + 4 * q + p + doy / 365 + era * 400) := checkedAdd_of_lt (by omega)
  have h6 := chronoDoy_eq (z - era * 146097)
    (show 100 * c + 4 * q + p + doy / 365 ≤ 400 by omega)
  nth_rewrite 2 [hdoe] at h6
  rw [chronoCivil, hera, h1, Option.bind_eq_bind, Option.bind_some, h2, Option.bind_some, h3,
    Option.bind_some, h4, Option.bind_some, h5, Option.bind_some, h6]

/-- **On any day but the last of a leap year the date is right.** -/
theorem chronoCivil_of_ne (hlt : z < 2 ^ 48) (hne : doy ≠ 365) :
    ∃ year : ℕ, (year : ℤ) = date.year ∧ chronoCivil z = some (year, date.month, date.day) := by
  have hcivil := chronoCivil_eq h hlt
  obtain ⟨hyear, hc, hq, hp, hmarch, hdoy, hleap, hz⟩ := h
  have hcorr : doy / 365 = 0 := by omega
  have hfour : (100 * c + 4 * q + p) / 4 = 25 * c + q := by omega
  have hcentury : (100 * c + 4 * q + p) / 100 = c := by omega
  have hsub : checkedSub (36524 * c + 1461 * q + 365 * p + doy)
      (365 * (100 * c + 4 * q + p) + (25 * c + q) - c) = some date.marchDay := by
    rw [checkedSub_of_le (by omega), hmarch]
    congr 1
    omega
  rw [hcorr, Nat.add_zero, hfour, hcentury, hsub, Option.bind_some] at hcivil
  rw [hcivil]
  exact chronoDate_eq (by omega) (by omega) (by omega)

/-- **On that day it is not**: either the guess is ahead of the day, and
the subtraction fails, or it is the last day of an era, which comes out as
the first of March. -/
theorem chronoCivil_of_eq (hlt : z < 2 ^ 48) (heq : doy = 365) :
    chronoCivil z = none ∨ ∃ year, chronoCivil z = some (year, 3, 1) := by
  have hcivil := chronoCivil_eq h hlt
  obtain ⟨hyear, hc, hq, hp, hmarch, hdoy, hleap, hz⟩ := h
  obtain ⟨rfl, hlast⟩ := hleap heq
  have hcorr : doy / 365 = 1 := by omega
  have hfour : (100 * c + 4 * q + 3 + 1) / 4 = 25 * c + q + 1 := by omega
  rw [hcorr, hfour, heq] at hcivil
  -- before the last four years of a century, or at the end of an era
  rcases Nat.lt_or_ge q 24 with hq' | hq'
  · have hcentury : (100 * c + 4 * q + 3 + 1) / 100 = c := by omega
    left
    rw [hcivil, hcentury, checkedSub, if_neg (by omega)]
    rfl
  · obtain rfl : q = 24 := by omega
    obtain rfl : c = 3 := by omega
    exact .inr ⟨400 + era * 400, hcivil⟩

end Civil

/-! ## The moment -/

/-- The date decides: the time of day is right on any. -/
theorem chronoParts_shows_iff (secs : BitVec 64) :
    (∃ c, chronoParts secs = some c ∧ c.Shows (Moment.ofSeconds secs.toNat)) ↔
      ∃ year : ℕ, (year : ℤ) = (Moment.ofSeconds secs.toNat).date.year ∧
        chronoCivil (secs.toNat / 86400 + 719468) =
          some (year, (Moment.ofSeconds secs.toNat).date.month,
            (Moment.ofSeconds secs.toNat).date.day) := by
  have hsecs := secs.isLt
  have hz : checkedAdd (secs.toNat / 86400) 719468 = some (secs.toNat / 86400 + 719468) :=
    checkedAdd_of_lt (by omega)
  constructor
  · rintro ⟨c, hc, hshows⟩
    rw [chronoParts, hz, Option.bind_eq_bind, Option.bind_some] at hc
    obtain ⟨⟨year, m, d⟩, hcivil, hparts⟩ := Option.bind_eq_some_iff.1 hc
    obtain rfl := Option.some.inj hparts
    exact ⟨year, hshows.year, by rw [hcivil, ← hshows.m, ← hshows.d]⟩
  · rintro ⟨year, hyear, hcivil⟩
    refine ⟨⟨year, _, _, secs.toNat % 86400 / 3600, secs.toNat % 86400 % 3600 / 60,
      secs.toNat % 86400 % 3600 % 60⟩, ?_, hyear, rfl, rfl, rfl, ?_, ?_⟩
    · rw [chronoParts, hz, Option.bind_eq_bind, Option.bind_some, hcivil]
      rfl
    · change secs.toNat % 86400 % 3600 / 60 = secs.toNat % 3600 / 60
      omega
    · change secs.toNat % 86400 % 3600 % 60 = secs.toNat % 60
      omega

/-- **`chrono_lite` is the Gregorian calendar on every day but the 29th of
February**, and on none of those. -/
theorem chronoRight_iff (secs : BitVec 64) :
    ChronoRight secs ↔ ¬ (Moment.ofSeconds secs.toNat).date.IsLeapDay := by
  have hsecs := secs.isLt
  have hlt : secs.toNat / 86400 + 719468 < 2 ^ 48 := by omega
  obtain ⟨era, c, q, p, doy, h⟩ := exists_inEra (secs.toNat / 86400)
  have hleap : (Moment.ofSeconds secs.toNat).date.IsLeapDay ↔ doy = 365 := by
    rw [Date.isLeapDay_iff]
    exact h.marchDay ▸ Iff.rfl
  rw [chronoRight_iff_parts, chronoParts_shows_iff, hleap]
  constructor
  · rintro ⟨year, -, hcivil⟩ heq
    have hfeb := (hleap.2 heq).1
    rcases chronoCivil_of_eq h hlt heq with hnone | ⟨year', hmarch⟩
    · rw [hnone] at hcivil
      cases hcivil
    · rw [hmarch, hfeb] at hcivil
      cases hcivil
  · exact chronoCivil_of_ne h hlt

/-- 29 February 2024, at midnight. -/
theorem chronoRight_false : ¬ ChronoRight 1709164800#64 := by
  rintro ⟨t, -, text, htext, -⟩
  have hnone : chronoLite 1709164800#64 = none := by decide
  cases hnone.symm.trans htext

/-- The last day of an era does not fail, but is another day. -/
example : chronoLite 951782400#64 = some "2000-03-01T00:00:00Z" := by decide

end Perilus

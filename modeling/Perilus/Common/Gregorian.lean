import Mathlib.Tactic.IntervalCases
import Mathlib.Logic.Function.Iterate
/-!
# The proleptic Gregorian calendar

A date carries its own validity, and the calendar is its successor
function: `tomorrow` is the next day, the first of the next month or the
first of January. A moment lies so many seconds after 1970 when its date
is that many days on. `Date.ordinal` numbers the days in closed form,
from the first of March of the year 0, so that a year ends in its leap
day; it is the invariant that ties the two together.
-/

namespace Gregorian

/-- Every fourth year, of the centuries every fourth. -/
def IsLeap (year : ℤ) : Prop := 4 ∣ year ∧ (¬ 100 ∣ year ∨ 400 ∣ year)

instance decidableIsLeap : DecidablePred IsLeap := fun year =>
  inferInstanceAs (Decidable (4 ∣ year ∧ (¬ 100 ∣ year ∨ 400 ∣ year)))

def monthLength (year : ℤ) (month : ℕ) : ℕ :=
  if month = 2 then if IsLeap year then 29 else 28
  else if month = 4 ∨ month = 6 ∨ month = 9 ∨ month = 11 then 30
  else 31

@[ext] structure Date where
  year : ℤ
  month : ℕ
  day : ℕ
  month_pos : 1 ≤ month
  month_le : month ≤ 12
  day_pos : 1 ≤ day
  day_le : day ≤ monthLength year month

theorem monthLength_pos (year : ℤ) (month : ℕ) : 1 ≤ monthLength year month := by
  unfold monthLength
  split_ifs <;> omega

namespace Date

variable (d : Date)

/-- **The day after.** -/
def tomorrow : Date :=
  if h : d.day < monthLength d.year d.month then
    ⟨d.year, d.month, d.day + 1, d.month_pos, d.month_le, by omega, h⟩
  else if h : d.month < 12 then
    ⟨d.year, d.month + 1, 1, by omega, h, le_rfl, monthLength_pos _ _⟩
  else ⟨d.year + 1, 1, 1, le_rfl, by omega, le_rfl, monthLength_pos _ _⟩

/-- The first of January 1970. -/
def epoch : Date := ⟨1970, 1, 1, by decide, by decide, by decide, by decide⟩

/-- The twenty-ninth of February. -/
def IsLeapDay : Prop := d.month = 2 ∧ d.day = 29

/-! ## Years that begin in March -/

/-- The year, from March to February. -/
def marchYear : ℤ := if d.month ≤ 2 then d.year - 1 else d.year

/-- The months since March. -/
def marchMonth : ℕ := if d.month ≤ 2 then d.month + 9 else d.month - 3

/-- The days since the first of March. -/
def marchDay : ℕ := (153 * d.marchMonth + 2) / 5 + d.day - 1

/-- The day a year begins on. -/
def yearStart (year : ℤ) : ℤ := 365 * year + year / 4 - year / 100 + year / 400

/-- The number of the day, from the first of March of the year 0. -/
def ordinal : ℤ := yearStart d.marchYear + d.marchDay

theorem marchMonth_le : d.marchMonth ≤ 11 := by
  have := d.month_pos
  have := d.month_le
  unfold marchMonth
  split <;> omega

/-- **The lengths of the months**, in the arithmetic of the numbering. -/
theorem monthLength_eq :
    monthLength d.year d.month =
      if d.marchMonth = 11 then if IsLeap (d.marchYear + 1) then 29 else 28
      else (153 * (d.marchMonth + 1) + 2) / 5 - (153 * d.marchMonth + 2) / 5 := by
  obtain ⟨year, month, day, h1, h2, -, -⟩ := d
  dsimp only [marchMonth, marchYear]
  interval_cases month <;> simp [monthLength]

theorem isLeap_iff {year : ℤ} : IsLeap year ↔ year % 4 = 0 ∧ (year % 100 ≠ 0 ∨ year % 400 = 0) := by
  unfold IsLeap
  omega

/-- A year has 365 days, and one more if its February has. -/
theorem yearStart_succ (year : ℤ) :
    yearStart (year + 1) = yearStart year + if IsLeap (year + 1) then 366 else 365 := by
  unfold yearStart
  split
  · next h =>
    rw [isLeap_iff] at h
    omega
  · next h =>
    rw [isLeap_iff] at h
    omega

theorem marchDay_lt : (d.marchDay : ℤ) < if IsLeap (d.marchYear + 1) then 366 else 365 := by
  have hle := d.day_le
  have hpos := d.day_pos
  have hmp := d.marchMonth_le
  rw [monthLength_eq] at hle
  unfold marchDay
  split_ifs at hle ⊢ <;> omega

variable {d} {e : Date}

/-- From the last of a month to the first of the next, within a year and
across its end. -/
theorem ordinal_first (hd : d.day = monthLength d.year d.month) (he : e.day = 1)
    (h : e.marchYear = d.marchYear ∧ e.marchMonth = d.marchMonth + 1 ∨
      e.marchYear = d.marchYear + 1 ∧ e.marchMonth = 0 ∧ d.marchMonth = 11) :
    e.ordinal = d.ordinal + 1 := by
  have hle := e.marchMonth_le
  rw [monthLength_eq] at hd
  unfold ordinal marchDay
  rw [he]
  rcases h with ⟨hyear, hmonth⟩ | ⟨hyear, hmonth, hlast⟩
  · rw [if_neg (by omega)] at hd
    rw [hyear, hmonth]
    omega
  · rw [if_pos hlast] at hd
    rw [hyear, hmonth, hlast, yearStart_succ]
    split_ifs at hd ⊢ <;> omega

/-- **The calendar numbers its days one after another.** -/
theorem ordinal_tomorrow (d : Date) : d.tomorrow.ordinal = d.ordinal + 1 := by
  have hle := d.day_le
  have hpos := d.day_pos
  have hmonth := d.month_pos
  unfold tomorrow
  split_ifs with hday hmon
  · unfold ordinal marchDay
    dsimp only [marchYear, marchMonth]
    omega
  · refine ordinal_first (by omega) rfl ?_
    dsimp only [marchYear, marchMonth]
    -- the year of the numbering ends with February
    rcases Nat.lt_trichotomy d.month 2 with hlt | heq | hgt
    · left
      rw [if_pos (by omega), if_pos (by omega), if_pos (by omega), if_pos (by omega)]
      omega
    · right
      rw [if_neg (by omega), if_pos (by omega), if_neg (by omega), if_pos (by omega)]
      omega
    · left
      rw [if_neg (by omega), if_neg (by omega), if_neg (by omega), if_neg (by omega)]
      omega
  · -- from December to January the year of the numbering goes on
    refine ordinal_first (by omega) rfl (.inl ?_)
    have := d.month_le
    dsimp only [marchYear, marchMonth]
    rw [if_pos (by decide), if_neg (by omega), if_pos (by decide), if_neg (by omega)]
    omega

theorem ordinal_iterate (d : Date) (n : ℕ) : (tomorrow^[n] d).ordinal = d.ordinal + n := by
  induction n with
  | zero => simp
  | succ n ih =>
    rw [Function.iterate_succ_apply', ordinal_tomorrow, ih]
    omega

theorem ordinal_epoch : epoch.ordinal = 719468 := by decide

/-- **The month, back from the day of the year.** -/
theorem marchMonth_eq (d : Date) : d.marchMonth = (5 * d.marchDay + 2) / 153 := by
  have hle := d.day_le
  have hpos := d.day_pos
  have hmp := d.marchMonth_le
  rw [monthLength_eq] at hle
  unfold marchDay
  split_ifs at hle <;> omega

theorem day_eq (d : Date) : d.day = d.marchDay - (153 * d.marchMonth + 2) / 5 + 1 := by
  have hpos := d.day_pos
  unfold marchDay
  omega

theorem month_eq (d : Date) :
    d.month = if d.marchMonth < 10 then d.marchMonth + 3 else d.marchMonth - 9 := by
  have h1 := d.month_pos
  have h2 := d.month_le
  unfold marchMonth
  split_ifs <;> omega

theorem year_eq (d : Date) :
    d.year = if d.month ≤ 2 then d.marchYear + 1 else d.marchYear := by
  unfold marchYear
  split_ifs <;> omega

/-- A leap day is the last day of its year. -/
theorem isLeapDay_iff (d : Date) : d.IsLeapDay ↔ d.marchDay = 365 := by
  have hle := d.day_le
  have hpos := d.day_pos
  have hmp := d.marchMonth_le
  have hmonth := d.month_eq
  rw [monthLength_eq] at hle
  unfold IsLeapDay marchDay
  split_ifs at hle hmonth <;> omega

/-! ## Order -/

/-- **The date comes first**: by year, by month, by day. -/
def Before (d e : Date) : Prop :=
  d.year < e.year ∨ d.year = e.year ∧ (d.month < e.month ∨ d.month = e.month ∧ d.day < e.day)

theorem Before.trans {d e f : Date} (h : d.Before e) (h' : e.Before f) : d.Before f := by
  unfold Before at *
  omega

theorem before_tomorrow (d : Date) : d.Before d.tomorrow := by
  have hle := d.month_le
  unfold Before tomorrow
  split
  · exact .inr ⟨rfl, .inr ⟨rfl, Nat.lt_succ_self _⟩⟩
  · split
    · exact .inr ⟨rfl, .inl (Nat.lt_succ_self _)⟩
    · exact .inl (Int.lt_succ _)

theorem before_iterate {m n : ℕ} (h : m < n) (d : Date) :
    (tomorrow^[m] d).Before (tomorrow^[n] d) := by
  induction n, h using Nat.le_induction with
  | base =>
    rw [Function.iterate_succ_apply']
    exact before_tomorrow _
  | succ n _ ih =>
    rw [Function.iterate_succ_apply']
    exact ih.trans (before_tomorrow _)

end Date

/-! ## Times of day -/

/-- A date and a time of day, without leap seconds. -/
@[ext] structure Moment where
  date : Date
  hour : ℕ
  minute : ℕ
  second : ℕ
  hour_lt : hour < 24
  minute_lt : minute < 60
  second_lt : second < 60

namespace Moment

/-- **The moment lies `n` seconds after 1970**: its date so many days
after the epoch, its time so many seconds into the day. -/
def After (n : ℕ) (t : Moment) : Prop :=
  ∃ days, t.date = Date.tomorrow^[days] Date.epoch ∧
    n = days * 86400 + t.hour * 3600 + t.minute * 60 + t.second

/-- The moment `n` seconds after 1970. -/
def ofSeconds (n : ℕ) : Moment :=
  ⟨Date.tomorrow^[n / 86400] Date.epoch, n % 86400 / 3600, n % 3600 / 60, n % 60, by omega,
    by omega, by omega⟩

/-- **There is exactly one.** -/
theorem after_iff {n : ℕ} {t : Moment} : t.After n ↔ t = ofSeconds n := by
  constructor
  · rintro ⟨days, hdate, hn⟩
    have := t.hour_lt
    have := t.minute_lt
    have := t.second_lt
    refine Moment.ext ?_ ?_ ?_ ?_
    · rw [hdate, show days = n / 86400 by omega]
      rfl
    · change t.hour = n % 86400 / 3600
      omega
    · change t.minute = n % 3600 / 60
      omega
    · change t.second = n % 60
      omega
  · rintro rfl
    refine ⟨n / 86400, rfl, ?_⟩
    change n = n / 86400 * 86400 + n % 86400 / 3600 * 3600 + n % 3600 / 60 * 60 + n % 60
    omega

/-- **The moment comes first**: by date, by hour, by minute, by second. -/
def Before (t t' : Moment) : Prop :=
  t.date.Before t'.date ∨ t.date = t'.date ∧ (t.hour < t'.hour ∨ t.hour = t'.hour ∧
    (t.minute < t'.minute ∨ t.minute = t'.minute ∧ t.second < t'.second))

theorem ofSeconds_before {m n : ℕ} (h : m < n) : (ofSeconds m).Before (ofSeconds n) := by
  rcases Nat.lt_or_eq_of_le (Nat.div_le_div_right (c := 86400) h.le) with hlt | heq
  · exact .inl (Date.before_iterate hlt _)
  · refine .inr ⟨congrArg (fun days => Date.tomorrow^[days] Date.epoch) heq, ?_⟩
    change m % 86400 / 3600 < n % 86400 / 3600 ∨ m % 86400 / 3600 = n % 86400 / 3600 ∧
      (m % 3600 / 60 < n % 3600 / 60 ∨ m % 3600 / 60 = n % 3600 / 60 ∧ m % 60 < n % 60)
    omega

end Moment

end Gregorian

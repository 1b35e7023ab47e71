import Perilus.Gui.Chrono
import Perilus.Gui.Model.Window
/-!
# Debugger — the names of its trace files

A file is named by its second, and the names sort as the seconds do. On a
29th of February there is none, but for the last day of an era.
-/

namespace Perilus

open Gregorian Numeral

/-! ## Times without a text -/

/-- The text and the numbers in it. -/
theorem chronoLite_eq_none_iff_civil (secs : BitVec 64) :
    chronoLite secs = none ↔ chronoCivil (secs.toNat / 86400 + 719468) = none := by
  have hsecs := secs.isLt
  have hz : checkedAdd (secs.toNat / 86400) 719468 = some (secs.toNat / 86400 + 719468) :=
    checkedAdd_of_lt (by omega)
  rw [chronoLite, Option.map_eq_none_iff, chronoParts, hz, Option.bind_eq_bind, Option.bind_some,
    Option.bind_eq_bind, Option.bind_eq_none_iff]
  constructor
  · intro h
    rcases hcivil : chronoCivil (secs.toNat / 86400 + 719468) with - | civil
    · rfl
    · cases h civil hcivil
  · intro h civil hcivil
    cases h.symm.trans hcivil

/-- **On a 29th of February**, by where its year stands in the era: short of
the last four years of a century the subtraction fails, and at the end of
the era it does not. -/
theorem chronoCivil_eq_none_iff {z : ℕ} {date : Date} {era c q p doy : ℕ}
    (h : InEra z date era c q p doy) (hlt : z < 2 ^ 48) (heq : doy = 365) :
    chronoCivil z = none ↔ q < 24 := by
  have hcivil := chronoCivil_eq h hlt
  obtain ⟨-, hc, hq, -, -, -, hleap, -⟩ := h
  obtain ⟨rfl, hlast⟩ := hleap heq
  have hcorr : doy / 365 = 1 := by omega
  have hfour : (100 * c + 4 * q + 3 + 1) / 4 = 25 * c + q + 1 := by omega
  rw [hcorr, hfour, heq] at hcivil
  rcases Nat.lt_or_ge q 24 with hq' | hq'
  · have hcentury : (100 * c + 4 * q + 3 + 1) / 100 = c := by omega
    refine iff_of_true ?_ hq'
    rw [hcivil, hcentury, checkedSub, if_neg (by omega)]
    rfl
  · obtain rfl : q = 24 := by omega
    obtain rfl : c = 3 := by omega
    have hsome : chronoCivil z = some (400 + era * 400, 3, 1) := hcivil
    rw [hsome]
    exact iff_of_false (Option.some_ne_none _) (Nat.lt_irrefl 24)

/-- **No text on a 29th of February** of a year that 400 does not divide. -/
theorem chronoLite_eq_none_iff (secs : BitVec 64) : chronoLite secs = none ↔
    (Moment.ofSeconds secs.toNat).date.IsLeapDay ∧
      ¬ 400 ∣ (Moment.ofSeconds secs.toNat).date.year := by
  have hsecs := secs.isLt
  have hlt : secs.toNat / 86400 + 719468 < 2 ^ 48 := by omega
  obtain ⟨era, c, q, p, doy, h⟩ := exists_inEra (secs.toNat / 86400)
  change InEra _ (Moment.ofSeconds secs.toNat).date _ _ _ _ _ at h
  generalize (Moment.ofSeconds secs.toNat).date = date at h
  have hday : date.IsLeapDay ↔ doy = 365 := by
    rw [Date.isLeapDay_iff, h.marchDay]
  rw [chronoLite_eq_none_iff_civil, hday]
  by_cases heq : doy = 365
  · obtain ⟨rfl, hlast⟩ := h.leap heq
    have hfour := h.four
    have hcentury := h.century
    have hyear : date.year = 400 * era + 100 * c + 4 * q + 4 := by
      have hfeb := (hday.2 heq).1
      rw [date.year_eq, if_pos (by omega), h.year]
      omega
    rw [chronoCivil_eq_none_iff h hlt heq, hyear]
    omega
  · obtain ⟨year, -, hcivil⟩ := chronoCivil_of_ne h hlt heq
    rw [hcivil]
    exact iff_of_false (Option.some_ne_none _) fun hleap => heq hleap.1

/-- **When there is no trace file to open.** -/
theorem Host.traceFile_eq_none_iff (host : Host) : host.traceFile = none ↔
    ∀ secs, host.now = some secs → (Moment.ofSeconds secs.toNat).date.IsLeapDay ∧
      ¬ 400 ∣ (Moment.ofSeconds secs.toNat).date.year := by
  rw [Host.traceFile, Option.bind_eq_bind, Option.bind_eq_none_iff]
  refine forall₂_congr fun secs _ => ?_
  rw [Option.bind_eq_bind, ← chronoLite_eq_none_iff, Option.bind_eq_none_iff]
  constructor
  · intro h
    rcases hiso : chronoLite secs with - | iso
    · rfl
    · cases h iso hiso
  · intro h iso hiso
    cases h.symm.trans hiso

/-! ## The order of the names -/

theorem toList_decPad {w n : ℕ} (hw : 0 < w) (hn : n < 10 ^ w) :
    (decPad w n).toList = fixed 10 w n := by
  rw [decPad, String.toList_ofList]
  exact replicate_append_toDigits (by decide) hw hn

theorem Chrono.toList_text {c : Chrono} (h : Fits 10 chronoFormat c.numbers) :
    c.text.toList = fields 10 chronoFormat c.numbers := by
  obtain ⟨year, m, d, hours, minutes, seconds⟩ := c
  simp only [Fits, chronoFormat, Chrono.numbers, List.forall₂_cons] at h
  obtain ⟨hyear, hm, hd, hhours, hminutes, hseconds, -⟩ := h
  simp only [Chrono.text, String.toList_append, toList_decPad (by decide : 0 < 4) hyear,
    toList_decPad (by decide : 0 < 2) hm, toList_decPad (by decide : 0 < 2) hd,
    toList_decPad (by decide : 0 < 2) hhours, toList_decPad (by decide : 0 < 2) hminutes,
    toList_decPad (by decide : 0 < 2) hseconds]
  simp [fields, chronoFormat, Chrono.numbers]

/-- **The numbers shown are those of the moment**, on any day but a leap
day. -/
theorem exists_chronoParts {secs : BitVec 64}
    (hday : ¬ (Moment.ofSeconds secs.toNat).date.IsLeapDay) :
    ∃ c, chronoParts secs = some c ∧ c.Shows (Moment.ofSeconds secs.toNat) := by
  have hsecs := secs.isLt
  obtain ⟨era, c, q, p, doy, h⟩ := exists_inEra (secs.toNat / 86400)
  have hne : doy ≠ 365 := by
    intro heq
    refine hday ((Date.isLeapDay_iff _).2 ?_)
    rw [← heq]
    exact h.marchDay
  exact (chronoParts_shows_iff secs).2 (chronoCivil_of_ne h (by omega) hne)

theorem Chrono.Shows.fits {c : Chrono} {t : Moment} (h : c.Shows t) (hyear : t.date.year < 10000) :
    Fits 10 chronoFormat c.numbers := by
  have hm := t.date.month_le
  have hd := t.date.day_le
  have hle : Gregorian.monthLength t.date.year t.date.month ≤ 31 := by
    unfold Gregorian.monthLength
    split_ifs <;> decide
  have := t.hour_lt
  have := t.minute_lt
  have := t.second_lt
  obtain ⟨h₁, h₂, h₃, h₄, h₅, h₆⟩ := h
  simp only [Fits, chronoFormat, Chrono.numbers, List.forall₂_cons]
  refine ⟨?_, ?_, ?_, ?_, ?_, ?_, .nil⟩ <;> omega

/-- Earlier is smaller. -/
theorem Chrono.Shows.numbers_lt {c c' : Chrono} {t t' : Moment} (h : c.Shows t) (h' : c'.Shows t')
    (hlt : t.Before t') : c.numbers < c'.numbers := by
  obtain ⟨h₁, h₂, h₃, h₄, h₅, h₆⟩ := h
  obtain ⟨h₁', h₂', h₃', h₄', h₅', h₆'⟩ := h'
  simp only [Chrono.numbers, List.cons_lt_cons_iff, List.not_lt_nil]
  -- the date decides, and on one day the time
  rcases hlt with hdate | ⟨hdate, htime⟩
  · unfold Date.Before at hdate
    omega
  · rw [← hdate] at h₁' h₂' h₃'
    omega

/-- **Later texts come later.** -/
theorem chronoLite_lt {secs secs' : BitVec 64} (hlt : secs < secs')
    (hday : ¬ (Moment.ofSeconds secs.toNat).date.IsLeapDay)
    (hday' : ¬ (Moment.ofSeconds secs'.toNat).date.IsLeapDay)
    (hyear : (Moment.ofSeconds secs'.toNat).date.year < 10000) :
    ∃ iso iso', chronoLite secs = some iso ∧ chronoLite secs' = some iso' ∧
      iso.toList < iso'.toList ∧ iso.length = iso'.length := by
  have hbefore := Moment.ofSeconds_before (BitVec.lt_def.1 hlt)
  obtain ⟨c, hc, hshows⟩ := exists_chronoParts hday
  obtain ⟨c', hc', hshows'⟩ := exists_chronoParts hday'
  have hyears : (Moment.ofSeconds secs.toNat).date.year < 10000 := by
    rcases hbefore with (hdate | ⟨hdate, -⟩) | ⟨hdate, -⟩
    · omega
    · omega
    · rw [hdate]
      exact hyear
  have hfits := hshows.fits hyears
  have hfits' := hshows'.fits hyear
  refine ⟨c.text, c'.text, by rw [chronoLite, hc]; rfl, by rw [chronoLite, hc']; rfl, ?_, ?_⟩
  · rw [Chrono.toList_text hfits, Chrono.toList_text hfits']
    exact fields_lt_fields (by decide) (by decide) hfits hfits' (hshows.numbers_lt hshows' hbefore)
  · rw [← String.length_toList, ← String.length_toList, Chrono.toList_text hfits,
      Chrono.toList_text hfits']
    simp [fields, chronoFormat, Chrono.numbers]

theorem joinPath_toList (dir : String) :
    ∃ start, ∀ name, (joinPath dir name).toList = start ++ name.toList := by
  unfold joinPath
  split
  · exact ⟨dir.toList, fun name => String.toList_append⟩
  · exact ⟨dir.toList, fun name => String.toList_append⟩
  · exact ⟨dir.toList ++ "/".toList, fun name => by rw [String.toList_append, String.toList_append]⟩

/-- **The trace files sort as they were made**, in one directory and until
the year 10000: of two made in different seconds, neither on a leap day,
the later has the later name; so neither overwrites the other. -/
theorem traceFile_lt (host host' : Host) {secs secs' : BitVec 64}
    (hdir : host.tempDir = host'.tempDir) (hnow : host.now = some secs)
    (hnow' : host'.now = some secs') (hlt : secs < secs')
    (hday : ¬ (Moment.ofSeconds secs.toNat).date.IsLeapDay)
    (hday' : ¬ (Moment.ofSeconds secs'.toNat).date.IsLeapDay)
    (hyear : (Moment.ofSeconds secs'.toNat).date.year < 10000) :
    ∃ file file', host.traceFile = some file ∧ host'.traceFile = some file' ∧ file < file' := by
  obtain ⟨iso, iso', hiso, hiso', hiso_lt, hlen⟩ := chronoLite_lt hlt hday hday' hyear
  obtain ⟨start, hstart⟩ := joinPath_toList host'.tempDir
  refine ⟨_, _, by rw [Host.traceFile, hnow, Option.bind_eq_bind, Option.bind_some, hiso]; rfl,
    by rw [Host.traceFile, hnow', Option.bind_eq_bind, Option.bind_some, hiso']; rfl, ?_⟩
  have hlist : iso.toList.length = iso'.toList.length := by
    rw [String.length_toList, String.length_toList, hlen]
  -- what stands before the texts is the same, and what stands after them is not reached
  rw [String.lt_iff_toList_lt, hdir, hstart, hstart, append_lt_append_iff rfl]
  refine .inr ⟨rfl, ?_⟩
  simp only [String.toList_append, List.append_assoc]
  rw [append_lt_append_iff rfl]
  exact .inr ⟨rfl, (append_lt_append_iff hlist).2 (.inl hiso_lt)⟩

/-- The last second of a day, and the first of the next. -/
theorem traceFile_lt_midnight :
    ∃ file file', Host.traceFile ⟨some 86399, "/tmp", .ok ()⟩ = some file ∧
      Host.traceFile ⟨some 86400, "/tmp", .ok ()⟩ = some file' ∧ file < file' :=
  traceFile_lt ⟨some 86399, "/tmp", .ok ()⟩ ⟨some 86400, "/tmp", .ok ()⟩ rfl rfl rfl
    (by decide) (by unfold Date.IsLeapDay; decide) (by unfold Date.IsLeapDay; decide) (by decide)

end Perilus

/-
# Days and dates

A later day has a later date (`Date.before_ofDays`), and the date of a day is one of the
calendar and leads back to it (`Date.isValid_ofDays`, `Date.toDays_ofDays`).

Years begin in March here, so that the day that comes and goes is the last of a year.
Then days count up through months and years without a look at leap years
(`MarchDate.before_ofEra`).  Eras of 400 years are all alike; what is said of a day is said
of its era and its number in the era.
-/

import Moniker.Data.Instant
import Mathlib.Data.String.Basic

namespace Moniker

/-- Is a date earlier than another? -/
def Date.Before (a b : Date) : Prop :=
  a.year < b.year ∨ a.year = b.year ∧ (a.month < b.month ∨ a.month = b.month ∧ a.day < b.day)

/-- A date whose year begins in March; months are counted from none. -/
structure MarchDate where
  year : Int
  month : Int
  day : Int

namespace MarchDate

/-- The number of the month, counted through all years. -/
def monthNumber (d : MarchDate) : Int := 12 * d.year + d.month

/-- Is a date earlier than another? -/
def Before (d e : MarchDate) : Prop :=
  d.monthNumber < e.monthNumber ∨ d.monthNumber = e.monthNumber ∧ d.day < e.day

/-- Months and days have the numbers they have in the calendar. -/
structure InCalendar (d : MarchDate) : Prop where
  month : 0 ≤ d.month ∧ d.month < 12
  day : 0 < d.day ∧ d.day < 32

/-- The date with years that begin in January. -/
def toDate (d : MarchDate) : Date :=
  let month := if d.month < 10 then d.month + 3 else d.month - 9
  { year := d.year + (if month ≤ 2 then 1 else 0), month := month.toNat, day := d.day.toNat }

/-- The year of the 400 of an era in which a day of the era lies. -/
def yearOfEra (day : Int) : Int := (day - day / 1460 + day / 36524 - day / 146096) / 365

/-- The day of the year on which a day of an era falls. -/
def dayOfYear (day : Int) : Int :=
  day - (365 * yearOfEra day + yearOfEra day / 4 - yearOfEra day / 100)

/-- The date of a day of an era. -/
def ofEra (era day : Int) : MarchDate where
  year := yearOfEra day + era * 400
  month := (5 * dayOfYear day + 2) / 153
  day := dayOfYear day - (153 * ((5 * dayOfYear day + 2) / 153) + 2) / 5 + 1

/-- The date a number of days after the first of January 1970. -/
def ofDays (days : Int) : MarchDate :=
  ofEra ((days + 719468) / 146097) ((days + 719468) % 146097)

theorem toDate_ofDays (days : Int) : (ofDays days).toDate = Date.ofDays days := by
  have hday : (days + 719468) % 146097 = days + 719468 - (days + 719468) / 146097 * 146097 := by
    omega
  simp (disch := decide) only [Date.ofDays, toDate, ofDays, ofEra, dayOfYear, yearOfEra, hday,
    Int.fdiv_eq_ediv_of_nonneg]

theorem dayOfEra_bounds (days : Int) :
    0 ≤ (days + 719468) % 146097 ∧ (days + 719468) % 146097 < 146097 :=
  ⟨Int.emod_nonneg _ (by decide), Int.emod_lt_of_pos _ (by decide)⟩

variable {a b day : Int} {d e : MarchDate}

/-! ### Days of an era -/

theorem yearOfEra_bounds (h₀ : 0 ≤ day) (h₁ : day < 146097) :
    0 ≤ yearOfEra day ∧ yearOfEra day < 400 := by
  unfold yearOfEra
  omega

theorem yearOfEra_mono (h₀ : 0 ≤ a) (hab : a < b) (h₁ : b < 146097) :
    yearOfEra a ≤ yearOfEra b := by
  unfold yearOfEra
  omega

/-- On all days of an era but the last, the century of the year is the century of the day. -/
theorem century_eq (h₀ : 0 ≤ day) (h₁ : day < 146096) :
    yearOfEra day / 100 = day / 36524 := by
  have hyear : yearOfEra day = (day - day / 1460 + day / 36524 - day / 146096) / 365 := rfl
  obtain h | h | h | h :
      day / 36524 = 0 ∨ day / 36524 = 1 ∨ day / 36524 = 2 ∨ day / 36524 = 3 := by omega
  all_goals omega

theorem dayOfYear_bounds (h₀ : 0 ≤ day) (h₁ : day < 146097) :
    0 ≤ dayOfYear day ∧ dayOfYear day < 366 := by
  by_cases hlast : day = 146096
  · subst hlast
    decide
  · have hyear : yearOfEra day = (day - day / 1460 + day / 36524 - day / 146096) / 365 := rfl
    have hcentury := century_eq h₀ (by omega)
    unfold dayOfYear
    omega

/-- Only leap years have a 366th day; it is the 29th of February. -/
theorem isLeap_of_dayOfYear (h₀ : 0 ≤ day) (h₁ : day < 146097) (h : dayOfYear day = 365)
    (era : Int) : Date.isLeap (yearOfEra day + era * 400 + 1) = true := by
  simp only [Date.isLeap, Bool.and_eq_true, Bool.or_eq_true, decide_eq_true_iff]
  unfold dayOfYear at h
  by_cases hlast : day = 146096
  · have hyear : yearOfEra day = 399 := by
      subst hlast
      rfl
    omega
  · have hyear : yearOfEra day = (day - day / 1460 + day / 36524 - day / 146096) / 365 := rfl
    have hcentury := century_eq h₀ (by omega)
    have hfour : yearOfEra day % 4 = 3 := by
      by_contra hnot
      have hquarter : day / 1460 = yearOfEra day / 4 := by omega
      omega
    omega

theorem inCalendar_ofEra (era : Int) (h₀ : 0 ≤ day) (h₁ : day < 146097) :
    (ofEra era day).InCalendar := by
  have hday := dayOfYear_bounds h₀ h₁
  unfold ofEra
  generalize dayOfYear day = n at hday ⊢
  constructor
  all_goals
    dsimp only
    omega

/-- A later day of an era has a later date: the year does not fall, and in one year the
days count up. -/
theorem before_ofEra (era : Int) (h₀ : 0 ≤ a) (hab : a < b) (h₁ : b < 146097) :
    (ofEra era a).Before (ofEra era b) := by
  have hyear := yearOfEra_mono h₀ hab h₁
  have hday : yearOfEra a = yearOfEra b → dayOfYear b - dayOfYear a = b - a := by
    intro h
    unfold dayOfYear
    rw [h]
    omega
  have hmonth := (inCalendar_ofEra era h₀ (Int.lt_trans hab h₁)).month
  have hmonth' := (inCalendar_ofEra era (Int.le_of_lt (Int.lt_of_le_of_lt h₀ hab)) h₁).month
  unfold Before monthNumber ofEra at *
  dsimp only at *
  generalize dayOfYear a = m at *
  generalize dayOfYear b = n at *
  omega

/-! ### Years that begin in January -/

theorem month_toDate (h : d.InCalendar) :
    12 * d.toDate.year + d.toDate.month = d.monthNumber + 3 ∧
      0 < d.toDate.month ∧ d.toDate.month ≤ 12 := by
  have hmonth := h.month
  unfold toDate monthNumber
  by_cases hten : d.month < 10
  · have hnot : ¬ d.month + 3 ≤ 2 := by omega
    simp only [hten, hnot, if_true, if_false]
    omega
  · have hle : d.month - 9 ≤ 2 := by omega
    simp only [hten, hle, if_true, if_false]
    omega

theorem day_toDate (h : d.InCalendar) : (d.toDate.day : Int) = d.day :=
  Int.toNat_of_nonneg (Int.le_of_lt h.day.1)

theorem Before.toDate (hd : d.InCalendar) (he : e.InCalendar) (h : d.Before e) :
    d.toDate.Before e.toDate := by
  have hd' := month_toDate hd
  have he' := month_toDate he
  unfold Before at h
  rw [← day_toDate hd, ← day_toDate he] at h
  unfold Date.Before
  omega

/-- No month is too short for its days. -/
theorem day_le_daysIn (era : Int) (h₀ : 0 ≤ day) (h₁ : day < 146097) :
    (ofEra era day).toDate.day ≤
      Date.daysIn (ofEra era day).toDate.year (ofEra era day).toDate.month := by
  have hbounds := dayOfYear_bounds h₀ h₁
  have hleap := fun h => isLeap_of_dayOfYear h₀ h₁ h era
  unfold ofEra toDate
  generalize dayOfYear day = n at *
  generalize yearOfEra day + era * 400 = y at *
  obtain ⟨m, hm⟩ : ∃ m, (5 * n + 2) / 153 = m := ⟨_, rfl⟩
  rw [hm]
  by_cases hlast : m = 11
  · -- The month is February.
    subst hlast
    change (n - (153 * 11 + 2) / 5 + 1).toNat ≤ if Date.isLeap (y + 1) = true then 29 else 28
    split
    · omega
    · next hnot =>
      have hshort : n ≠ 365 := fun h => hnot (hleap h)
      omega
  · have hmonth : (if m < 10 then m + 3 else m - 9).toNat ≠ 2 := by
      split <;> omega
    dsimp only
    rw [Date.daysIn, if_neg hmonth]
    split <;> split <;> omega

theorem toDays_toDate (era : Int) (h₀ : 0 ≤ day) (h₁ : day < 146097) :
    (ofEra era day).toDate.toDays = era * 146097 + day - 719468 := by
  have hcal := inCalendar_ofEra era h₀ h₁
  have hcal' := hcal.month
  have hbounds := yearOfEra_bounds h₀ h₁
  have hmonth := month_toDate hcal
  have hday := day_toDate hcal
  unfold monthNumber at hmonth
  have hyear : (if (ofEra era day).toDate.month ≤ 2 then (ofEra era day).toDate.year - 1
      else (ofEra era day).toDate.year) = (ofEra era day).year := by
    split <;> omega
  have hmarch : (((ofEra era day).toDate.month : Int) + 9) % 12 = (ofEra era day).month := by
    omega
  have hsum : day = 365 * yearOfEra day + yearOfEra day / 4 - yearOfEra day / 100 +
      dayOfYear day := by
    unfold dayOfYear
    omega
  simp (disch := decide) only [Date.toDays, hyear, hmarch, hday, Int.fdiv_eq_ediv_of_nonneg]
  unfold ofEra
  generalize dayOfYear day = n at *
  dsimp only
  omega

/-! ### Days of all eras -/

theorem inCalendar_ofDays (days : Int) : (ofDays days).InCalendar :=
  inCalendar_ofEra _ (dayOfEra_bounds days).1 (dayOfEra_bounds days).2

theorem before_ofDays (hab : a < b) : (ofDays a).Before (ofDays b) := by
  obtain ⟨ha₀, ha₁⟩ := dayOfEra_bounds a
  obtain ⟨hb₀, hb₁⟩ := dayOfEra_bounds b
  have hle : (a + 719468) / 146097 ≤ (b + 719468) / 146097 := by omega
  obtain hera | hera := Int.le_iff_lt_or_eq.mp hle
  · -- All 400 years of an era come before the next era.
    left
    have hmonth := (inCalendar_ofDays a).month
    have hmonth' := (inCalendar_ofDays b).month
    have hyear := yearOfEra_bounds ha₀ ha₁
    have hyear' := yearOfEra_bounds hb₀ hb₁
    unfold monthNumber ofDays ofEra at *
    dsimp only at *
    omega
  · unfold ofDays
    rw [← hera]
    exact before_ofEra _ ha₀ (by omega) hb₁

end MarchDate

namespace Date

/-- **A later day has a later date.** -/
theorem before_ofDays {a b : Int} (hab : a < b) : (ofDays a).Before (ofDays b) := by
  rw [← MarchDate.toDate_ofDays, ← MarchDate.toDate_ofDays]
  exact (MarchDate.before_ofDays hab).toDate (MarchDate.inCalendar_ofDays a)
    (MarchDate.inCalendar_ofDays b)

theorem ofDays_bounds (days : Int) :
    (0 < (ofDays days).month ∧ (ofDays days).month ≤ 12) ∧
      0 < (ofDays days).day ∧ (ofDays days).day < 32 := by
  have hcal := MarchDate.inCalendar_ofDays days
  have hmonth := MarchDate.month_toDate hcal
  have hday := MarchDate.day_toDate hcal
  have hdays := hcal.day
  rw [MarchDate.toDate_ofDays] at hmonth hday
  omega

/-- **The date of a day is one of the calendar.** -/
theorem isValid_ofDays (days : Int) : (ofDays days).isValid = true := by
  obtain ⟨h₀, h₁⟩ := MarchDate.dayOfEra_bounds days
  have hbounds := ofDays_bounds days
  have hle : (ofDays days).day ≤ daysIn (ofDays days).year (ofDays days).month := by
    rw [← MarchDate.toDate_ofDays]
    exact MarchDate.day_le_daysIn _ h₀ h₁
  simp only [isValid, Bool.and_eq_true, decide_eq_true_iff]
  omega

/-- **The date of a day leads back to the day.** -/
theorem toDays_ofDays (days : Int) : (ofDays days).toDays = days := by
  obtain ⟨h₀, h₁⟩ := MarchDate.dayOfEra_bounds days
  rw [← MarchDate.toDate_ofDays, MarchDate.ofDays, MarchDate.toDays_toDate _ h₀ h₁]
  omega

end Date
end Moniker

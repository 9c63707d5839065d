import Mathlib.Data.Fin.Basic
import Mathlib.Data.Nat.Basic

namespace Elyra

def isLeap (year : Nat) : Bool := year % 4 = 0 && (year % 100 ≠ 0 || year % 400 = 0)

/-- Days of the years from 1 up to this one. -/
def daysBeforeYear (year : Nat) : Nat :=
  (year - 1) * 365 + (year - 1) / 4 - (year - 1) / 100 + (year - 1) / 400

def daysBeforeMonth (leap : Bool) (month : Nat) : Nat :=
  [0, 0, 31, 59, 90, 120, 151, 181, 212, 243, 273, 304, 334].getD month 365 +
    if 2 < month ∧ leap then 1 else 0

def daysInMonth (leap : Bool) (month : Nat) : Nat :=
  if month = 2 then (if leap then 29 else 28)
  else if month = 4 ∨ month = 6 ∨ month = 9 ∨ month = 11 then 30
  else 31

def daysInYear (leap : Bool) : Nat := if leap then 366 else 365

/-- Days from 0001-01-01 to 9999-12-31. -/
def dayCount : Nat := 3652059

/-- A date of the proleptic Gregorian calendar. -/
structure CivilDate where
  year : Nat
  month : Nat
  day : Nat
  year_pos : 1 ≤ year
  year_le : year ≤ 9999
  month_pos : 1 ≤ month
  month_le : month ≤ 12
  day_pos : 1 ≤ day
  day_le : day ≤ daysInMonth (isLeap year) month
  deriving DecidableEq

theorem daysBeforeYear_succ (year : Nat) (h : 1 ≤ year) :
    daysBeforeYear (year + 1) = daysBeforeYear year + daysInYear (isLeap year) := by
  obtain ⟨y, rfl⟩ : ∃ y, year = y + 1 := ⟨year - 1, by omega⟩
  have h4 : (y + 1) / 4 = y / 4 + if (y + 1) % 4 = 0 then 1 else 0 := by split_ifs <;> omega
  have h100 : (y + 1) / 100 = y / 100 + if (y + 1) % 100 = 0 then 1 else 0 := by
    split_ifs <;> omega
  have h400 : (y + 1) / 400 = y / 400 + if (y + 1) % 400 = 0 then 1 else 0 := by
    split_ifs <;> omega
  have hfour : (y + 1) % 100 = 0 → (y + 1) % 4 = 0 := by omega
  have hcentury : (y + 1) % 400 = 0 → (y + 1) % 100 = 0 := by omega
  have hle : y / 100 ≤ y / 4 := by omega
  simp only [daysBeforeYear, daysInYear, isLeap, Nat.add_sub_cancel, h4, h100, h400,
    Bool.and_eq_true, Bool.or_eq_true, decide_eq_true_eq]
  clear h4 h100 h400
  generalize y / 4 = a at *
  generalize y / 100 = b at *
  generalize y / 400 = c at *
  split_ifs <;> omega

theorem daysBeforeYear_le (a b : Nat) (ha : 1 ≤ a) (hab : a ≤ b) :
    daysBeforeYear a ≤ daysBeforeYear b := by
  induction b, hab using Nat.le_induction with
  | base => exact le_refl _
  | succ b hb ih =>
    have hsucc := daysBeforeYear_succ b (by omega)
    omega

theorem daysBeforeMonth_succ (leap : Bool) (month : Nat) (h : 1 ≤ month) (h12 : month ≤ 12) :
    daysBeforeMonth leap month + daysInMonth leap month =
      if month = 12 then daysInYear leap else daysBeforeMonth leap (month + 1) := by
  have hall : ∀ leap : Bool, ∀ m ∈ List.range' 1 12, daysBeforeMonth leap m + daysInMonth leap m =
      if m = 12 then daysInYear leap else daysBeforeMonth leap (m + 1) := by decide
  apply hall
  rw [List.mem_range'_1]
  omega

theorem daysBeforeMonth_le (leap : Bool) (a b : Nat) (ha : 1 ≤ a) (hab : a ≤ b) (hb : b ≤ 12) :
    daysBeforeMonth leap a ≤ daysBeforeMonth leap b := by
  have hall : ∀ leap : Bool, ∀ m ∈ List.range' 1 12, ∀ n ∈ List.range' 1 12, m ≤ n →
      daysBeforeMonth leap m ≤ daysBeforeMonth leap n := by decide
  apply hall leap a _ b _ hab
  · rw [List.mem_range'_1]
    omega
  · rw [List.mem_range'_1]
    omega

namespace CivilDate

def yearDay (d : CivilDate) : Nat := daysBeforeMonth (isLeap d.year) d.month + (d.day - 1)

/-- Days from 0001-01-01. -/
def dayNumber (d : CivilDate) : Nat := daysBeforeYear d.year + d.yearDay

theorem yearDay_lt_month (d : CivilDate) :
    d.yearDay < daysBeforeMonth (isLeap d.year) d.month + daysInMonth (isLeap d.year) d.month := by
  have hpos := d.day_pos
  have hle := d.day_le
  unfold yearDay
  omega

theorem yearDay_lt (d : CivilDate) : d.yearDay < daysInYear (isLeap d.year) := by
  have hday := d.yearDay_lt_month
  have hmonth := daysBeforeMonth_succ (isLeap d.year) d.month d.month_pos d.month_le
  have hlast := daysBeforeMonth_succ (isLeap d.year) 12 (by omega) (by omega)
  rw [if_pos rfl] at hlast
  split_ifs at hmonth with h
  · omega
  · have hle := daysBeforeMonth_le (isLeap d.year) (d.month + 1) 12 (by omega)
      (by have := d.month_le; omega) (by omega)
    omega

theorem dayNumber_lt_year (d : CivilDate) (year : Nat) (h : d.year < year) :
    d.dayNumber < daysBeforeYear year := by
  have hday := d.yearDay_lt
  have hsucc := daysBeforeYear_succ d.year d.year_pos
  have hle := daysBeforeYear_le (d.year + 1) year (by omega) h
  unfold dayNumber
  omega

/-- Dates are numbered in the order of their year, month and day. -/
theorem dayNumber_lt_dayNumber (d e : CivilDate) (h : d.year < e.year ∨ d.year = e.year ∧
    (d.month < e.month ∨ d.month = e.month ∧ d.day < e.day)) : d.dayNumber < e.dayNumber := by
  obtain hyear | ⟨hyear, hmonth | ⟨hmonth, hday⟩⟩ := h
  · have hd := d.dayNumber_lt_year e.year hyear
    unfold dayNumber at hd ⊢
    omega
  · have hd := d.yearDay_lt_month
    have hsucc := daysBeforeMonth_succ (isLeap d.year) d.month d.month_pos d.month_le
    rw [if_neg (by have := e.month_le; omega)] at hsucc
    have hle := daysBeforeMonth_le (isLeap d.year) (d.month + 1) e.month (by omega) hmonth
      e.month_le
    unfold dayNumber yearDay at *
    rw [← hyear]
    omega
  · have hpos := d.day_pos
    unfold dayNumber yearDay
    rw [hyear, hmonth]
    omega

end CivilDate

/-- The century of a 400-year cycle that a day of the cycle falls in: its last day would count
as a fifth one. -/
def centuryOfDay (n : Nat) : Nat := min (n / 36524) 3

/-- The same for a year of a leap cycle. -/
def leapYearOfDay (n : Nat) : Nat := min (n / 365) 3

def yearOfDay (n : Nat) : Nat :=
  let century := centuryOfDay (n % 146097)
  let inCentury := n % 146097 - 36524 * century
  400 * (n / 146097) + 100 * century + 4 * (inCentury / 1461) +
    leapYearOfDay (inCentury % 1461) + 1

theorem daysBeforeYear_cycles (cycle century leap year : Nat) (hc : century ≤ 3)
    (hl : leap ≤ 24) (hy : year ≤ 3) :
    daysBeforeYear (400 * cycle + 100 * century + 4 * leap + year + 1) =
      146097 * cycle + 36524 * century + 1461 * leap + 365 * year := by
  have h4 : (400 * cycle + 100 * century + 4 * leap + year) / 4 =
      100 * cycle + 25 * century + leap := by omega
  have h100 : (400 * cycle + 100 * century + 4 * leap + year) / 100 = 4 * cycle + century := by
    omega
  have h400 : (400 * cycle + 100 * century + 4 * leap + year) / 400 = cycle := by omega
  simp only [daysBeforeYear, Nat.add_sub_cancel, h4, h100, h400]
  omega

theorem yearOfDay_spec (n : Nat) :
    1 ≤ yearOfDay n ∧ daysBeforeYear (yearOfDay n) ≤ n ∧
      n < daysBeforeYear (yearOfDay n) + daysInYear (isLeap (yearOfDay n)) := by
  have hcentury : centuryOfDay (n % 146097) ≤ 3 := Nat.min_le_right _ _
  have hfit : 36524 * centuryOfDay (n % 146097) ≤ n % 146097 := by
    unfold centuryOfDay
    omega
  have hrest : n % 146097 - 36524 * centuryOfDay (n % 146097) < 36524 ∨
      centuryOfDay (n % 146097) = 3 ∧
        n % 146097 - 36524 * centuryOfDay (n % 146097) < 36525 := by
    unfold centuryOfDay
    omega
  have hsplit : n = 146097 * (n / 146097) + n % 146097 := (Nat.div_add_mod n 146097).symm
  unfold yearOfDay
  simp only []
  generalize hc : centuryOfDay (n % 146097) = century at *
  generalize hi : n % 146097 - 36524 * century = inCentury at *
  have hyear : leapYearOfDay (inCentury % 1461) ≤ 3 := Nat.min_le_right _ _
  have hstart : 365 * leapYearOfDay (inCentury % 1461) ≤ inCentury % 1461 := by
    unfold leapYearOfDay
    omega
  have hend : inCentury % 1461 - 365 * leapYearOfDay (inCentury % 1461) < 365 ∨
      leapYearOfDay (inCentury % 1461) = 3 ∧ inCentury % 1461 = 1460 := by
    unfold leapYearOfDay
    omega
  generalize leapYearOfDay (inCentury % 1461) = year at *
  have hleap : inCentury / 1461 ≤ 24 := by omega
  rw [daysBeforeYear_cycles _ _ _ _ hcentury hleap hyear]
  refine ⟨by omega, by omega, ?_⟩
  unfold daysInYear isLeap
  -- the last day of a leap cycle is the 366th of a leap year
  split_ifs with h
  · omega
  · simp only [Bool.and_eq_true, Bool.or_eq_true, decide_eq_true_eq] at h
    omega

/-- The month a day of the year falls in. -/
def monthOfYearDay (leap : Bool) (n : Nat) : Nat :=
  let month := (n + 50) / 32
  if n < daysBeforeMonth leap month then month - 1 else month

theorem monthOfYearDay_spec (leap : Bool) (n : Nat) (h : n < daysInYear leap) :
    1 ≤ monthOfYearDay leap n ∧ monthOfYearDay leap n ≤ 12 ∧
      daysBeforeMonth leap (monthOfYearDay leap n) ≤ n ∧
      n < daysBeforeMonth leap (monthOfYearDay leap n) +
        daysInMonth leap (monthOfYearDay leap n) := by
  have hall : ∀ leap : Bool, ∀ n ∈ List.range 366, n < daysInYear leap →
      1 ≤ monthOfYearDay leap n ∧ monthOfYearDay leap n ≤ 12 ∧
      daysBeforeMonth leap (monthOfYearDay leap n) ≤ n ∧
      n < daysBeforeMonth leap (monthOfYearDay leap n) +
        daysInMonth leap (monthOfYearDay leap n) := by decide +kernel
  apply hall leap n _ h
  rw [List.mem_range]
  unfold daysInYear at h
  split_ifs at h <;> omega

theorem yearOfDay_le (n : Nat) (h : n < dayCount) : yearOfDay n ≤ 9999 := by
  have hspec := yearOfDay_spec n
  by_contra hlt
  have hle := daysBeforeYear_le 10000 (yearOfDay n) (by omega) (by omega)
  have hlast : daysBeforeYear 10000 = dayCount := rfl
  omega

/-- The day of its year that a day number is. -/
def yearDayOfDay (n : Nat) : Nat := n - daysBeforeYear (yearOfDay n)

theorem yearDayOfDay_lt (n : Nat) : yearDayOfDay n < daysInYear (isLeap (yearOfDay n)) := by
  have hyear := yearOfDay_spec n
  unfold yearDayOfDay
  omega

def monthOfDay (n : Nat) : Nat := monthOfYearDay (isLeap (yearOfDay n)) (yearDayOfDay n)

theorem monthOfDay_spec (n : Nat) : 1 ≤ monthOfDay n ∧ monthOfDay n ≤ 12 ∧
    daysBeforeMonth (isLeap (yearOfDay n)) (monthOfDay n) ≤ yearDayOfDay n ∧
    yearDayOfDay n < daysBeforeMonth (isLeap (yearOfDay n)) (monthOfDay n) +
      daysInMonth (isLeap (yearOfDay n)) (monthOfDay n) :=
  monthOfYearDay_spec _ _ (yearDayOfDay_lt n)

def dayOfMonth (n : Nat) : Nat :=
  yearDayOfDay n - daysBeforeMonth (isLeap (yearOfDay n)) (monthOfDay n) + 1

/-- The date of a day number. -/
def dateOfDay (n : Fin dayCount) : CivilDate where
  year := yearOfDay n.val
  month := monthOfDay n.val
  day := dayOfMonth n.val
  year_pos := (yearOfDay_spec n.val).1
  year_le := yearOfDay_le n.val n.isLt
  month_pos := (monthOfDay_spec n.val).1
  month_le := (monthOfDay_spec n.val).2.1
  day_pos := Nat.le_add_left 1 _
  day_le := by
    have hmonth := monthOfDay_spec n.val
    unfold dayOfMonth
    omega

@[simp] theorem dayNumber_dateOfDay (n : Fin dayCount) : (dateOfDay n).dayNumber = n.val := by
  have hyear := yearOfDay_spec n.val
  have hmonth := monthOfDay_spec n.val
  simp only [CivilDate.dayNumber, CivilDate.yearDay, dateOfDay, dayOfMonth, yearDayOfDay] at *
  omega

end Elyra

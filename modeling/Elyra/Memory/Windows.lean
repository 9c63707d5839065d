import Elyra.Framework.IsoText

namespace Elyra.Memory

/-- The scales of the summary ladder; `m15` and `h6` are read-only. -/
inductive PeriodScale where
  | m15 | h1 | h6 | d1 | w1 | m1 | y1
  deriving DecidableEq

namespace PeriodScale

def text : PeriodScale → String
  | m15 => "15m"
  | h1 => "1h"
  | h6 => "6h"
  | d1 => "1d"
  | w1 => "1w"
  | m1 => "1m"
  | y1 => "1y"

/-- Write-era ladder, fine to coarse. -/
def writeOrder : List PeriodScale := [h1, d1, w1, m1, y1]

def coarser : List PeriodScale := [d1, w1, m1, y1]

end PeriodScale

def microsPerMinute : Nat := 60000000

def microsPerDay : Nat := 86400000000

/-- The window of a grid of fixed width. The grid starts at 0001-01-01, which is a Monday. -/
def floorSpan (minutes : Nat) (t : Instant) : Nat × Nat :=
  let width := minutes * microsPerMinute
  (t.val / width * width, t.val / width * width + width)

def monthSpan (d : CivilDate) : Nat × Nat :=
  (daysBeforeYear d.year + daysBeforeMonth (isLeap d.year) d.month,
    if d.month = 12 then daysBeforeYear (d.year + 1)
    else daysBeforeYear d.year + daysBeforeMonth (isLeap d.year) (d.month + 1))

def yearSpan (d : CivilDate) : Nat × Nat := (daysBeforeYear d.year, daysBeforeYear (d.year + 1))

def ofDays (span : Nat × Nat) : Nat × Nat := (span.1 * microsPerDay, span.2 * microsPerDay)

/-- Start and end of the window, in microseconds. -/
def windowSpan : PeriodScale → Instant → Nat × Nat
  | .m15, t => floorSpan 15 t
  | .h1, t => floorSpan 60 t
  | .h6, t => floorSpan 360 t
  | .d1, t => floorSpan 1440 t
  | .w1, t => floorSpan 10080 t
  | .m1, t => ofDays (monthSpan t.date)
  | .y1, t => ofDays (yearSpan t.date)

/-- What a window past the year 9999 raises: `timedelta` overflows, `replace` refuses the year. -/
def windowError : PeriodScale → PyErr
  | .m1 | .y1 => .valueError [.text "year 10000 is out of range"]
  | _ => .overflowError

theorem floorSpan_mem (minutes : Nat) (t : Instant) (h : 0 < minutes) :
    (floorSpan minutes t).1 ≤ t.val ∧ t.val < (floorSpan minutes t).2 := by
  have hw : 0 < minutes * microsPerMinute := Nat.mul_pos h (by decide)
  refine ⟨Nat.div_mul_le_self _ _, ?_⟩
  exact Nat.lt_div_mul_add hw

theorem monthSpan_mem (d : CivilDate) :
    (monthSpan d).1 ≤ d.dayNumber ∧ d.dayNumber < (monthSpan d).2 := by
  have hday := d.yearDay_lt_month
  have hnext := daysBeforeMonth_succ (isLeap d.year) d.month d.month_pos d.month_le
  have hyear := daysBeforeYear_succ d.year d.year_pos
  have hfirst : daysBeforeMonth (isLeap d.year) d.month ≤ d.yearDay := Nat.le_add_right _ _
  unfold monthSpan CivilDate.dayNumber
  split_ifs at hnext ⊢ with h
  · exact ⟨by omega, by omega⟩
  · exact ⟨by omega, by omega⟩

theorem yearSpan_mem (d : CivilDate) :
    (yearSpan d).1 ≤ d.dayNumber ∧ d.dayNumber < (yearSpan d).2 := by
  have hday := d.yearDay_lt
  have hyear := daysBeforeYear_succ d.year d.year_pos
  unfold yearSpan CivilDate.dayNumber
  exact ⟨by omega, by omega⟩

theorem day_eq (t : Instant) : t.day.val = t.val / microsPerDay := by
  show t.second / 86400 = t.val / (1000000 * 86400)
  rw [← Nat.div_div_eq_div_mul]
  rfl

theorem ofDays_mem (span : Nat × Nat) (t : Instant)
    (h : span.1 ≤ t.day.val ∧ t.day.val < span.2) :
    (ofDays span).1 ≤ t.val ∧ t.val < (ofDays span).2 := by
  have hpos : 0 < microsPerDay := by decide
  rw [day_eq] at h
  exact ⟨(Nat.le_div_iff_mul_le hpos).mp h.1, (Nat.div_lt_iff_lt_mul hpos).mp h.2⟩

/-- An instant lies in its window. -/
theorem windowSpan_mem (scale : PeriodScale) (t : Instant) :
    (windowSpan scale t).1 ≤ t.val ∧ t.val < (windowSpan scale t).2 := by
  have hmonth := monthSpan_mem t.date
  have hyear := yearSpan_mem t.date
  rw [Instant.dayNumber_date] at hmonth hyear
  cases scale with
  | m15 => exact floorSpan_mem 15 t (by decide)
  | h1 => exact floorSpan_mem 60 t (by decide)
  | h6 => exact floorSpan_mem 360 t (by decide)
  | d1 => exact floorSpan_mem 1440 t (by decide)
  | w1 => exact floorSpan_mem 10080 t (by decide)
  | m1 => exact ofDays_mem _ t hmonth
  | y1 => exact ofDays_mem _ t hyear

def windowStart (scale : PeriodScale) (t : Instant) : Instant :=
  ⟨(windowSpan scale t).1, Nat.lt_of_le_of_lt (windowSpan_mem scale t).1 t.isLt⟩

/-- Half-open `[start, end)` UTC window containing `t`. -/
def windowBounds (scale : PeriodScale) (t : Instant) : Except PyErr (Instant × Instant) :=
  if h : (windowSpan scale t).2 < instantCount then
    .ok (windowStart scale t, ⟨(windowSpan scale t).2, h⟩)
  else .error (windowError scale)

theorem windowBounds_mem (scale : PeriodScale) (t a b : Instant)
    (h : windowBounds scale t = .ok (a, b)) : a ≤ t ∧ t < b := by
  unfold windowBounds at h
  split_ifs at h with hb
  cases h
  exact windowSpan_mem scale t

theorem floorSpan_eq (minutes : Nat) (t u : Instant) (h : 0 < minutes)
    (hu : (floorSpan minutes t).1 ≤ u.val ∧ u.val < (floorSpan minutes t).2) :
    floorSpan minutes u = floorSpan minutes t := by
  have hw : 0 < minutes * microsPerMinute := Nat.mul_pos h (by decide)
  have hdiv : u.val / (minutes * microsPerMinute) = t.val / (minutes * microsPerMinute) := by
    apply Nat.div_eq_of_lt_le hu.1
    rw [Nat.succ_mul]
    exact hu.2
  rw [floorSpan, floorSpan, hdiv]

theorem yearSpan_eq (d e : CivilDate)
    (h : (yearSpan d).1 ≤ e.dayNumber ∧ e.dayNumber < (yearSpan d).2) : e.year = d.year := by
  have hfirst : daysBeforeYear e.year ≤ e.dayNumber := Nat.le_add_right _ _
  obtain hlt | heq | hgt := Nat.lt_trichotomy e.year d.year
  · have hbefore := e.dayNumber_lt_year d.year hlt
    exact absurd h.1 (Nat.not_le.mpr hbefore)
  · exact heq
  · have hnext := daysBeforeYear_le (d.year + 1) e.year (by omega) hgt
    have hlast : e.dayNumber < daysBeforeYear (d.year + 1) := h.2
    omega

/-- First day of the month of a date. -/
def monthStart (d : CivilDate) : Nat := daysBeforeYear d.year + daysBeforeMonth (isLeap d.year) d.month

theorem monthStart_le (d : CivilDate) : monthStart d ≤ d.dayNumber := by
  unfold monthStart CivilDate.dayNumber CivilDate.yearDay
  omega

theorem monthStart_lt (d e : CivilDate) (h : e.year < d.year ∨ e.year = d.year ∧ e.month < d.month) :
    e.dayNumber < monthStart d := by
  obtain hyear | ⟨hyear, hmonth⟩ := h
  · have hbefore := e.dayNumber_lt_year d.year hyear
    unfold monthStart
    omega
  · have hday := e.yearDay_lt_month
    have hsucc := daysBeforeMonth_succ (isLeap e.year) e.month e.month_pos e.month_le
    have hdm := d.month_le
    rw [if_neg (by omega)] at hsucc
    have hle := daysBeforeMonth_le (isLeap e.year) (e.month + 1) d.month (by omega) hmonth d.month_le
    unfold monthStart CivilDate.dayNumber
    rw [← hyear]
    omega

theorem monthSpan_snd_le (d e : CivilDate)
    (h : d.year < e.year ∨ d.year = e.year ∧ d.month < e.month) : (monthSpan d).2 ≤ monthStart e := by
  have hem := e.month_le
  have hem1 := e.month_pos
  unfold monthSpan monthStart
  dsimp only
  obtain hyear | ⟨hyear, hmonth⟩ := h
  · have hnext := daysBeforeYear_le (d.year + 1) e.year (by omega) hyear
    split_ifs with hlast
    · omega
    · have hsucc := daysBeforeYear_succ d.year d.year_pos
      have hday := daysBeforeMonth_succ (isLeap d.year) 12 (by omega) (by omega)
      rw [if_pos rfl] at hday
      have hle := daysBeforeMonth_le (isLeap d.year) (d.month + 1) 12 (by omega)
        (by have := d.month_le; omega) (by omega)
      omega
  · rw [if_neg (by omega), ← hyear]
    have hle := daysBeforeMonth_le (isLeap d.year) (d.month + 1) e.month (by omega) hmonth hem
    omega

theorem monthSpan_eq (d e : CivilDate)
    (h : (monthSpan d).1 ≤ e.dayNumber ∧ e.dayNumber < (monthSpan d).2) :
    e.year = d.year ∧ e.month = d.month := by
  have hnotlt : ¬(e.year < d.year ∨ e.year = d.year ∧ e.month < d.month) := by
    intro hlt
    have hbefore := monthStart_lt d e hlt
    exact absurd h.1 (Nat.not_le.mpr hbefore)
  have hnotgt : ¬(d.year < e.year ∨ d.year = e.year ∧ d.month < e.month) := by
    intro hgt
    have hafter := monthSpan_snd_le d e hgt
    have hfirst := monthStart_le e
    omega
  omega

theorem ofDays_day (span : Nat × Nat) (u : Instant)
    (h : (ofDays span).1 ≤ u.val ∧ u.val < (ofDays span).2) :
    span.1 ≤ u.date.dayNumber ∧ u.date.dayNumber < span.2 := by
  have hpos : 0 < microsPerDay := by decide
  rw [Instant.dayNumber_date, day_eq]
  exact ⟨(Nat.le_div_iff_mul_le hpos).mpr h.1, (Nat.div_lt_iff_lt_mul hpos).mpr h.2⟩

/-- The windows of a scale are a partition: an instant of a window has that window. -/
theorem windowSpan_eq (scale : PeriodScale) (t u : Instant)
    (h : (windowSpan scale t).1 ≤ u.val ∧ u.val < (windowSpan scale t).2) :
    windowSpan scale u = windowSpan scale t := by
  cases scale with
  | m15 => exact floorSpan_eq 15 t u (by decide) h
  | h1 => exact floorSpan_eq 60 t u (by decide) h
  | h6 => exact floorSpan_eq 360 t u (by decide) h
  | d1 => exact floorSpan_eq 1440 t u (by decide) h
  | w1 => exact floorSpan_eq 10080 t u (by decide) h
  | m1 =>
    obtain ⟨hyear, hmonth⟩ := monthSpan_eq t.date u.date (ofDays_day _ u h)
    show ofDays (monthSpan u.date) = ofDays (monthSpan t.date)
    rw [monthSpan, monthSpan, hyear, hmonth]
  | y1 =>
    have hyear := yearSpan_eq t.date u.date (ofDays_day _ u h)
    show ofDays (yearSpan u.date) = ofDays (yearSpan t.date)
    rw [yearSpan, yearSpan, hyear]

variable {scale : PeriodScale} {t u a b c d : Instant}

theorem windowBounds_span (h : windowBounds scale t = .ok (a, b)) :
    windowSpan scale t = (a.val, b.val) := by
  rw [windowBounds] at h
  split_ifs at h
  obtain ⟨ha, hb⟩ := Prod.mk.inj (Except.ok.inj h)
  rw [← ha, ← hb]
  rfl

theorem windowBounds_congr (h : windowSpan scale t = windowSpan scale u) :
    windowBounds scale t = windowBounds scale u := by
  have hstart : windowStart scale t = windowStart scale u := Fin.ext (congrArg Prod.fst h)
  simp only [windowBounds, h, hstart]

/-- The start of a window, or any instant in it, has that window. -/
theorem windowBounds_of_mem (h : windowBounds scale t = .ok (a, b)) (hu : a ≤ u ∧ u < b) :
    windowBounds scale u = .ok (a, b) := by
  have hspan := windowBounds_span h
  have hmem : windowSpan scale u = windowSpan scale t := by
    apply windowSpan_eq
    rw [hspan]
    exact hu
  rw [windowBounds_congr hmem]
  exact h

theorem windowBounds_lt (h : windowBounds scale t = .ok (a, b)) : a < b :=
  Fin.lt_def.mpr (Nat.lt_of_le_of_lt (windowBounds_mem scale t a b h).1 (windowBounds_mem scale t a b h).2)

theorem windowBounds_start (h : windowBounds scale t = .ok (a, b)) :
    windowBounds scale a = .ok (a, b) :=
  windowBounds_of_mem h ⟨le_refl a, windowBounds_lt h⟩

end Elyra.Memory

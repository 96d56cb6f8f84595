/-
FtServer/Calendar.lean

The Gregorian calendar, proleptic and without an upper bound.  A `Date` carries
the proof that its month and day exist.  `Date.next` is the day after, and
`Date.dayNumber` the Julian day number by the usual integer formula, which
starts the year in March.

The formula counts days: `dayNumber_next` is the step, `dayNumber_iterate` the
run, and `dayNumber_injective` says that no two dates share a number.  So a
difference of day numbers is a number of days (`moreThanDaysBefore_iff`),
whatever months and years lie between.
-/
import Mathlib.Data.Nat.Init
import Mathlib.Data.Int.Notation
import Mathlib.Logic.Function.Iterate
import Mathlib.Order.Basic
import Mathlib.Tactic.Common
import Mathlib.Tactic.IntervalCases
import Mathlib.Tactic.NormNum

namespace FtServer

/-! ### Dates -/

/-- The leap years. -/
def isLeap (year : ℕ) : Bool := year % 4 == 0 && (year % 100 != 0 || year % 400 == 0)

/-- The number of days of a month. -/
def daysInMonth (year month : ℕ) : ℕ :=
  if month = 2 then if isLeap year then 29 else 28
  else if month = 4 ∨ month = 6 ∨ month = 9 ∨ month = 11 then 30
  else 31

/-- A day of the calendar. -/
@[ext] structure Date where
  year : ℕ
  month : ℕ
  day : ℕ
  month_pos : 1 ≤ month
  month_le : month ≤ 12
  day_pos : 1 ≤ day
  day_le : day ≤ daysInMonth year month
  deriving DecidableEq

theorem daysInMonth_pos (year month : ℕ) : 1 ≤ daysInMonth year month := by
  rw [daysInMonth]
  split_ifs <;> omega

namespace Date

/-- The day after. -/
def next (d : Date) : Date :=
  if h : d.day < daysInMonth d.year d.month then
    ⟨d.year, d.month, d.day + 1, d.month_pos, d.month_le, by omega, h⟩
  else if hm : d.month < 12 then
    ⟨d.year, d.month + 1, 1, by omega, hm, Nat.le_refl 1, daysInMonth_pos _ _⟩
  else ⟨d.year + 1, 1, 1, Nat.le_refl 1, by omega, Nat.le_refl 1, daysInMonth_pos _ _⟩

/-! ### Day numbers -/

/-- The day number of the day before the first of a month. -/
def monthStart (year month : ℕ) : ℤ :=
  let a : ℤ := (14 - month) / 12
  let y : ℤ := year + 4800 - a
  let m : ℤ := month + 12 * a - 3
  (153 * m + 2) / 5 + 365 * y + y / 4 - y / 100 + y / 400 - 32045

/-- The Julian day number. -/
def dayNumber (d : Date) : ℤ :=
  let a : ℤ := (14 - d.month) / 12
  let y : ℤ := d.year + 4800 - a
  let m : ℤ := d.month + 12 * a - 3
  d.day + (153 * m + 2) / 5 + 365 * y + y / 4 - y / 100 + y / 400 - 32045

theorem dayNumber_eq (d : Date) : d.dayNumber = monthStart d.year d.month + d.day := by
  simp only [dayNumber, monthStart]
  omega

theorem isLeap_iff {year : ℕ} :
    isLeap year = true ↔ year % 4 = 0 ∧ (year % 100 ≠ 0 ∨ year % 400 = 0) := by
  simp [isLeap]

/-- The leap day is the last day of a year that starts in March. -/
theorem monthStart_march (year : ℕ) :
    monthStart year 3 = monthStart year 2 + daysInMonth year 2 := by
  have hleap := @isLeap_iff year
  simp only [monthStart, daysInMonth, ↓reduceIte]
  norm_num
  by_cases hl : isLeap year = true
  · have hyear := hleap.mp hl
    rw [if_pos hl]
    omega
  · have hyear : ¬ (year % 4 = 0 ∧ (year % 100 ≠ 0 ∨ year % 400 = 0)) := fun h => hl (hleap.mpr h)
    rw [if_neg hl]
    omega

/-- Within a year the months follow each other. -/
theorem monthStart_succ {year month : ℕ} (h : 1 ≤ month) (h' : month < 12) :
    monthStart year (month + 1) = monthStart year month + daysInMonth year month := by
  by_cases hfeb : month = 2
  · rw [hfeb, monthStart_march]
  · interval_cases month <;> first
      | contradiction
      | (norm_num [monthStart, daysInMonth]; try omega)

/-- January follows December. -/
theorem monthStart_year (year : ℕ) :
    monthStart (year + 1) 1 = monthStart year 12 + daysInMonth year 12 := by
  norm_num [monthStart, daysInMonth]
  omega

/-- **The day number counts days.** -/
theorem dayNumber_next (d : Date) : d.next.dayNumber = d.dayNumber + 1 := by
  have hle := d.day_le
  rw [dayNumber_eq d]
  unfold next
  split
  · -- a day of the same month
    rw [dayNumber_eq]
    push_cast
    omega
  · have hlast : d.day = daysInMonth d.year d.month := by omega
    split
    · -- the first of the next month
      rw [dayNumber_eq, hlast]
      have hsucc := @monthStart_succ d.year d.month d.month_pos ‹_›
      simp only [hsucc, Nat.cast_one]
    · -- the first of January
      have hmonth : d.month = 12 := by
        have := d.month_le
        omega
      rw [dayNumber_eq, hlast, hmonth]
      have hyear := monthStart_year d.year
      simp only [hyear, Nat.cast_one]

theorem dayNumber_iterate (d : Date) (n : ℕ) :
    (next^[n] d).dayNumber = d.dayNumber + n := by
  induction n with
  | zero => simp
  | succ n ih =>
    rw [Function.iterate_succ_apply', dayNumber_next, ih]
    push_cast
    omega

/-! ### Order -/

/-- The months of a year, in order. -/
theorem monthStart_lt {year m m' : ℕ} (h : 1 ≤ m) (hlt : m < m') (h' : m' ≤ 12) :
    monthStart year m + daysInMonth year m ≤ monthStart year m' := by
  induction m', hlt using Nat.le_induction with
  | base => exact le_of_eq (monthStart_succ h h').symm
  | succ m' hle ih =>
    have hsucc := @monthStart_succ year m' (by omega) (by omega)
    have hprev := ih (by omega)
    omega

/-- The end of a month lies in its year. -/
theorem monthStart_le_year {year month : ℕ} (h : 1 ≤ month) (h' : month ≤ 12) :
    monthStart year month + daysInMonth year month ≤ monthStart (year + 1) 1 := by
  have hyear := monthStart_year year
  rcases Nat.eq_or_lt_of_le h' with hdec | hlt
  · rw [hyear, hdec]
  · have hmonths := @monthStart_lt year month 12 h hlt (by omega)
    omega

/-- A month begins in its year. -/
theorem monthStart_one_le {year month : ℕ} (h : 1 ≤ month) (h' : month ≤ 12) :
    monthStart year 1 ≤ monthStart year month := by
  rcases Nat.eq_or_lt_of_le h with hjan | hlt
  · rw [← hjan]
  · have hmonths := @monthStart_lt year 1 month (by omega) hlt h'
    omega

/-- The years, in order. -/
theorem yearStart_mono {y y' : ℕ} (h : y ≤ y') : monthStart y 1 ≤ monthStart y' 1 := by
  induction y', h using Nat.le_induction with
  | base => exact le_rfl
  | succ y' _ ih =>
    have hyear := @monthStart_le_year y' 1 (by omega) (by omega)
    omega

theorem dayNumber_lt_of_year {d e : Date} (h : d.year < e.year) : d.dayNumber < e.dayNumber := by
  have hend := @monthStart_le_year d.year d.month d.month_pos d.month_le
  have hyears : monthStart (d.year + 1) 1 ≤ monthStart e.year 1 := yearStart_mono h
  have hstart := @monthStart_one_le e.year e.month e.month_pos e.month_le
  have hd := d.day_le
  have he := e.day_pos
  rw [dayNumber_eq, dayNumber_eq]
  omega

theorem dayNumber_lt_of_month {d e : Date} (hy : d.year = e.year) (h : d.month < e.month) :
    d.dayNumber < e.dayNumber := by
  have hmonths := @monthStart_lt d.year d.month e.month d.month_pos h e.month_le
  have hd := d.day_le
  have he := e.day_pos
  rw [dayNumber_eq, dayNumber_eq, ← hy]
  omega

/-- No two dates share a day number. -/
theorem dayNumber_injective : Function.Injective dayNumber := by
  intro d e h
  have hyear : d.year = e.year := by
    rcases Nat.lt_trichotomy d.year e.year with hlt | heq | hlt
    · exact absurd h (dayNumber_lt_of_year hlt).ne
    · exact heq
    · exact absurd h (dayNumber_lt_of_year hlt).ne'
  have hmonth : d.month = e.month := by
    rcases Nat.lt_trichotomy d.month e.month with hlt | heq | hlt
    · exact absurd h (dayNumber_lt_of_month hyear hlt).ne
    · exact heq
    · exact absurd h (dayNumber_lt_of_month hyear.symm hlt).ne'
  have hday : d.day = e.day := by
    rw [dayNumber_eq, dayNumber_eq, hyear, hmonth] at h
    omega
  exact Date.ext hyear hmonth hday

/-- The dates of a span of years, by number. -/
theorem dayNumber_bounds {d : Date} {y y' : ℕ} (h : y ≤ d.year) (h' : d.year ≤ y') :
    monthStart y 1 < d.dayNumber ∧ d.dayNumber ≤ monthStart (y' + 1) 1 := by
  have hfirst := yearStart_mono h
  have hstart := @monthStart_one_le d.year d.month d.month_pos d.month_le
  have hend := @monthStart_le_year d.year d.month d.month_pos d.month_le
  have hlast : monthStart (d.year + 1) 1 ≤ monthStart (y' + 1) 1 := yearStart_mono (by omega)
  have hpos := d.day_pos
  have hle := d.day_le
  rw [dayNumber_eq]
  constructor <;> omega

/-- `d` lies more than `n` days before `e`. -/
def MoreThanDaysBefore (n : ℕ) (d e : Date) : Prop := ∃ k, n < k ∧ next^[k] d = e

/-- The days between two dates, by their numbers. -/
theorem moreThanDaysBefore_iff {n : ℕ} {d e : Date} :
    MoreThanDaysBefore n d e ↔ d.dayNumber + n < e.dayNumber := by
  constructor
  · rintro ⟨k, hk, rfl⟩
    rw [dayNumber_iterate]
    omega
  · intro h
    refine ⟨(e.dayNumber - d.dayNumber).toNat, by omega, dayNumber_injective ?_⟩
    rw [dayNumber_iterate]
    omega

end Date

end FtServer

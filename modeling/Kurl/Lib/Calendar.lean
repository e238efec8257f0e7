import Mathlib.Order.Monotone.Basic
import Mathlib.Order.Interval.Set.Basic
import Mathlib.Data.Int.Order.Basic
import Mathlib.Tactic.IntervalCases

/-!
# The proleptic Gregorian calendar

A `CivilDate` is a year, a month and a day that exist; `toDays` numbers the dates from 1970-01-01 on
and `ofDays` is its inverse. Both count in years that begin with March, so that a leap day comes
last: `marchDays` is the number of days before such a year and `monthDays` before a month in it.

`marchDays_marchYear` is the one fact about years, and `monthDays_marchMonth` the one about months;
`toDays_ofDays` puts them together. `year_mem_iff` finds the days of a range of years.
-/

namespace Lib

def isLeapYear (y : Int) : Bool := y % 4 = 0 ∧ (y % 100 ≠ 0 ∨ y % 400 = 0)

def daysInMonth (y : Int) (m : Nat) : Nat :=
  if m = 2 then if isLeapYear y then 29 else 28
  else if m = 4 ∨ m = 6 ∨ m = 9 ∨ m = 11 then 30 else 31

@[ext] structure CivilDate where
  year : Int
  month : Nat
  day : Nat
  month_mem : 1 ≤ month ∧ month ≤ 12
  day_mem : 1 ≤ day ∧ day ≤ daysInMonth year month
  deriving DecidableEq

/-! ## Years that begin with March -/

/-- The days from March 1 of the year 0 to March 1 of the year `y`. -/
def marchDays (y : Int) : Int := 365 * y + y / 4 - y / 100 + y / 400

theorem marchDays_succ (y : Int) :
    marchDays (y + 1) = marchDays y + if isLeapYear (y + 1) then 366 else 365 := by
  unfold marchDays isLeapYear
  simp only [Bool.decide_and, Bool.decide_or, Bool.and_eq_true, Bool.or_eq_true,
    decide_eq_true_eq]
  split <;> omega

theorem marchDays_mono {y z : Int} (h : y ≤ z) : marchDays y ≤ marchDays z := by
  refine monotone_int_of_le_succ (fun y => ?_) h
  rw [marchDays_succ]
  split <;> omega

/-- The year of a day, counted from March 1 of the year 0: the mean length of a year gives it up to
one. -/
def marchYear (n : Int) : Int :=
  let y := 400 * n / 146097
  if n < marchDays y then y - 1 else if marchDays (y + 1) ≤ n then y + 1 else y

theorem marchDays_marchYear (n : Int) :
    marchDays (marchYear n) ≤ n ∧ n < marchDays (marchYear n + 1) := by
  have hmean : 146097 * (400 * n / 146097) ≤ 400 * n := Int.mul_ediv_self_le (by decide)
  have hmean' : 400 * n < 146097 * (400 * n / 146097) + 146097 :=
    Int.lt_mul_ediv_self_add (by decide)
  unfold marchYear
  generalize 400 * n / 146097 = y at *
  dsimp only
  by_cases hbefore : n < marchDays y
  · -- the mean is a year late
    rw [if_pos hbefore, sub_add_cancel]
    refine ⟨?_, hbefore⟩
    unfold marchDays at *
    omega
  · rw [if_neg hbefore]
    by_cases hafter : marchDays (y + 1) ≤ n
    · -- the mean is a year early
      rw [if_pos hafter]
      refine ⟨hafter, ?_⟩
      unfold marchDays at *
      omega
    · rw [if_neg hafter]
      exact ⟨not_lt.mp hbefore, not_le.mp hafter⟩

/-! ## Months of such a year -/

/-- The days before the `m`-th month, March being the month 0. -/
def monthDays (m : Nat) : Nat := (153 * m + 2) / 5

/-- The month of the day `n` of a year. -/
def marchMonth (n : Nat) : Nat := (5 * n + 2) / 153

theorem monthDays_marchMonth (n : Nat) :
    monthDays (marchMonth n) ≤ n ∧ n < monthDays (marchMonth n + 1) := by
  unfold monthDays marchMonth
  omega

/-- All of them but February have their lengths whatever the year. -/
theorem daysInMonth_march (y : Int) {m : Nat} (hm : m < 11) :
    daysInMonth y (if m < 10 then m + 3 else m - 9) + monthDays m = monthDays (m + 1) := by
  interval_cases m <;> rfl

theorem daysInMonth_february (y : Int) :
    daysInMonth y 2 = if isLeapYear y then 29 else 28 := rfl

namespace CivilDate

/-- Days since 1970-01-01. -/
def toDays (t : CivilDate) : Int :=
  if t.month ≤ 2 then
    marchDays (t.year - 1) + (monthDays (t.month + 9) + (t.day - 1) : Nat) - 719468
  else marchDays t.year + (monthDays (t.month - 3) + (t.day - 1) : Nat) - 719468

/-- The day of the year that begins with March. -/
def dayOfMarchYear (n : Int) : Nat := (n + 719468 - marchDays (marchYear (n + 719468))).toNat

theorem dayOfMarchYear_eq (n : Int) :
    (dayOfMarchYear n : Int) = n + 719468 - marchDays (marchYear (n + 719468)) :=
  Int.toNat_of_nonneg (sub_nonneg.mpr (marchDays_marchYear _).1)

theorem dayOfMarchYear_lt (n : Int) :
    dayOfMarchYear n < if isLeapYear (marchYear (n + 719468) + 1) then 366 else 365 := by
  have hlt := (marchDays_marchYear (n + 719468)).2
  rw [marchDays_succ] at hlt
  have heq := dayOfMarchYear_eq n
  split at hlt <;> rename_i hleap <;> simp only [hleap] <;> simp <;> omega

theorem marchMonth_dayOfMarchYear_lt (n : Int) : marchMonth (dayOfMarchYear n) < 12 := by
  have hlt := dayOfMarchYear_lt n
  unfold marchMonth
  split at hlt <;> omega

/-- The date of a day. -/
def ofDays (n : Int) : CivilDate where
  year := if marchMonth (dayOfMarchYear n) < 10 then marchYear (n + 719468)
    else marchYear (n + 719468) + 1
  month := if marchMonth (dayOfMarchYear n) < 10 then marchMonth (dayOfMarchYear n) + 3
    else marchMonth (dayOfMarchYear n) - 9
  day := dayOfMarchYear n - monthDays (marchMonth (dayOfMarchYear n)) + 1
  month_mem := by
    have hlt := marchMonth_dayOfMarchYear_lt n
    split <;> omega
  day_mem := by
    have hmonth := marchMonth_dayOfMarchYear_lt n
    have hday := dayOfMarchYear_lt n
    have hdays := monthDays_marchMonth (dayOfMarchYear n)
    refine ⟨Nat.le_add_left _ _, ?_⟩
    by_cases hfebruary : marchMonth (dayOfMarchYear n) < 11
    · have hlength := fun y => daysInMonth_march y hfebruary
      rw [← Nat.add_le_add_iff_right, hlength]
      omega
    · -- the last month ends with the year
      have hlast : marchMonth (dayOfMarchYear n) = 11 := by omega
      rw [hlast] at hdays ⊢
      have hbegin : monthDays 11 = 337 := rfl
      show _ ≤ daysInMonth (marchYear (n + 719468) + 1) 2
      rw [daysInMonth_february]
      cases hleap : isLeapYear (marchYear (n + 719468) + 1) with
      | true =>
        rw [hleap, if_pos rfl] at hday
        rw [if_pos rfl]
        omega
      | false =>
        rw [hleap, if_neg (by simp)] at hday
        rw [if_neg (by simp)]
        omega

@[simp] theorem toDays_ofDays (n : Int) : (ofDays n).toDays = n := by
  have hmonth := marchMonth_dayOfMarchYear_lt n
  have hdays := (monthDays_marchMonth (dayOfMarchYear n)).1
  have heq := dayOfMarchYear_eq n
  have hday : monthDays (marchMonth (dayOfMarchYear n)) +
      (dayOfMarchYear n - monthDays (marchMonth (dayOfMarchYear n)) + 1 - 1) =
        dayOfMarchYear n := by
    omega
  have hdaynum : (ofDays n).day =
      dayOfMarchYear n - monthDays (marchMonth (dayOfMarchYear n)) + 1 := rfl
  unfold toDays
  by_cases hlate : marchMonth (dayOfMarchYear n) < 10
  · -- March to December
    have hyear : (ofDays n).year = marchYear (n + 719468) := if_pos hlate
    have hmarch : (ofDays n).month = marchMonth (dayOfMarchYear n) + 3 := if_pos hlate
    rw [if_neg (by omega), hyear, hmarch, hdaynum, Nat.add_sub_cancel, hday, heq]
    omega
  · -- January and February of the next year
    have hyear : (ofDays n).year = marchYear (n + 719468) + 1 := if_neg hlate
    have hmarch : (ofDays n).month = marchMonth (dayOfMarchYear n) - 9 := if_neg hlate
    have hback : marchMonth (dayOfMarchYear n) - 9 + 9 = marchMonth (dayOfMarchYear n) := by omega
    rw [if_pos (by omega), hyear, hmarch, hdaynum, hback, hday, heq, add_sub_cancel_right]
    omega

/-- A date lies between the first days of its year and of the next. -/
theorem toDays_mem_year (t : CivilDate) :
    marchDays (t.year - 1) + 306 ≤ t.toDays + 719468 ∧
      t.toDays + 719468 < marchDays t.year + 306 := by
  have hday := t.day_mem
  have hmonth := t.month_mem
  unfold toDays
  by_cases hjanuary : t.month ≤ 2
  · -- the year has begun in the March before
    have hyear := marchDays_succ (t.year - 1)
    rw [sub_add_cancel] at hyear
    have hten : monthDays (1 + 9) = 306 := rfl
    have heleven : monthDays (2 + 9) = 337 := rfl
    rw [if_pos hjanuary]
    rcases (show t.month = 1 ∨ t.month = 2 by omega) with hone | htwo
    · rw [hone] at hday ⊢
      have hlength : daysInMonth t.year 1 = 31 := rfl
      split at hyear <;> omega
    · rw [htwo, daysInMonth_february] at hday
      rw [htwo]
      cases hleap : isLeapYear t.year with
      | true =>
        rw [hleap, if_pos rfl] at hyear hday
        omega
      | false =>
        rw [hleap, if_neg (by simp)] at hyear hday
        omega
  · -- ten months are left
    have hlength := daysInMonth_march t.year (show t.month - 3 < 11 by omega)
    have hback : (if t.month - 3 < 10 then t.month - 3 + 3 else t.month - 3 - 9) = t.month := by
      rw [if_pos (by omega)]
      omega
    rw [hback] at hlength
    have hend : monthDays (t.month - 3 + 1) ≤ 306 := by
      unfold monthDays
      omega
    have hyear := marchDays_succ (t.year - 1)
    rw [sub_add_cancel] at hyear
    rw [if_neg hjanuary]
    split at hyear <;> omega

/-- **The days of a range of years.** -/
theorem year_mem_iff (n a b : Int) : (a ≤ (ofDays n).year ∧ (ofDays n).year ≤ b) ↔
    marchDays (a - 1) + 306 ≤ n + 719468 ∧ n + 719468 < marchDays b + 306 := by
  obtain ⟨hlow, hhigh⟩ := toDays_mem_year (ofDays n)
  rw [toDays_ofDays] at hlow hhigh
  constructor
  · rintro ⟨ha, hb⟩
    have hfirst := marchDays_mono (sub_le_sub_right ha 1)
    have hlast := marchDays_mono hb
    omega
  · rintro ⟨ha, hb⟩
    constructor
    · by_contra hlt
      have hfirst := marchDays_mono (show (ofDays n).year ≤ a - 1 by omega)
      omega
    · by_contra hlt
      have hlast := marchDays_mono (show b ≤ (ofDays n).year - 1 by omega)
      omega

end CivilDate

end Lib

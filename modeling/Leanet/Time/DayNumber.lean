import Leanet.Time.Date

/-! Day numbers and the calendar.

A day number goes up by one from each day to the next (`getJulianDayNumber_next`), so that the
numbers are in the order of the dates and, counted modulo 7, name the days of the week. Of the
numbers that are not negative `weekDay` can take all but the greatest `int`. -/
namespace Leanet.DateTest

def isLeapYear (year : Int) : Int :=
  if year.tmod 400 = 0 then 1
  else if year.tmod 100 = 0 then 0
  else if year.tmod 4 = 0 then 1
  else 0

def days : List (List Int) :=
  [[0, 31, 28, 31, 30, 31, 30, 31, 31, 30, 31, 30, 31],
    [0, 31, 29, 31, 30, 31, 30, 31, 31, 30, 31, 30, 31]]

def daysOfMonth (year month : Int) : Int :=
  (days.getD (isLeapYear year).toNat []).getD month.toNat 0

theorem isLeapYear_eq (year : Int) : isLeapYear year = if Gregorian.Leap year then 1 else 0 := by
  have hzero (k : Int) : year.tmod k = 0 ↔ year % k = 0 := by
    rw [← Int.dvd_iff_tmod_eq_zero, ← Int.dvd_iff_emod_eq_zero]
  simp only [isLeapYear, hzero, Gregorian.Leap]
  split_ifs <;> omega

/-- The table of the test is the calendar's. -/
theorem daysOfMonth_eq (year : Int) {month : Int} (h : 1 ≤ month) (h' : month ≤ 12) :
    daysOfMonth year month = Gregorian.daysOfMonth year month := by
  rw [daysOfMonth, isLeapYear_eq, Gregorian.daysOfMonth]
  split <;> interval_cases month <;> rfl

end Leanet.DateTest

namespace Leanet.Date
open Gregorian

def kDaysPerWeek : Int := 7

def kJulianDayOf1970_01_01 : Option Int := getJulianDayNumber 1970 1 1

def weekDay (julianDateNumber : Int) : Option Int := do
  let day ← int32 (julianDateNumber + 1)
  pure (day.tmod kDaysPerWeek)

/-- `operator<`. -/
def less (lhs rhs : Int) : Bool := lhs < rhs

/-- From -4800-03-01 to the last date that `getYearMonthDay` reads without overflow. -/
structure InRange (t : YearMonthDay) : Prop where
  valid : t.Valid
  first : ⟨-4800, 3, 1⟩ ≤ t
  last : ∃ last, getYearMonthDay 536838867 = some last ∧ t ≤ last

variable {s t : YearMonthDay} {j : Int}

theorem InRange.toDays_bounds (h : InRange t) : -1753164 ≤ toDays t ∧ toDays t ≤ 535117747 := by
  obtain ⟨hvalid, hfirst, last, hlast, hle⟩ := h
  exact Date.toDays_bounds hlast hvalid hfirst hle

theorem InRange.getJulianDayNumber_eq (h : InRange t) :
    getJulianDayNumber t.year t.month t.day = some (toDays t + 1721120) :=
  getJulianDayNumber_of_toDays h.valid h.toDays_bounds.1 h.toDays_bounds.2

theorem getJulianDayNumber_next (h : InRange t) :
    getJulianDayNumber t.next.year t.next.month t.next.day = some (toDays t + 1721120 + 1) := by
  obtain ⟨hlow, hhigh⟩ := h.toDays_bounds
  have hnext := toDays_next h.valid
  obtain ⟨hstart, hend⟩ := h.valid.next.toDays_bounds
  unfold daysBeforeYear at hstart hend
  rw [Date.getJulianDayNumber_eq h.valid.next (by omega) (by omega), hnext]
  congr 1
  omega

theorem weekDay_eq (h : 0 ≤ j) (h' : j < 2147483647) : weekDay j = some ((j + 1) % 7) := by
  rw [weekDay, int32_of (by omega) (by omega)]
  exact congrArg some (Int.tmod_eq_emod_of_nonneg (by omega))

/-- **Day numbers count real days.** -/
theorem day_numbers :
    (∀ t, InRange t → ∃ j, getJulianDayNumber t.year t.month t.day = some j ∧
      getJulianDayNumber t.next.year t.next.month t.next.day = some (j + 1)) ∧
    (∀ year month, 1 ≤ month → month ≤ 12 →
      daysOfMonth year month = DateTest.daysOfMonth year month) ∧
    (∀ s t, InRange s → InRange t → ∃ i j, getJulianDayNumber s.year s.month s.day = some i ∧
      getJulianDayNumber t.year t.month t.day = some j ∧ (less i j = true ↔ s < t)) ∧
    kJulianDayOf1970_01_01 = some (toDays ⟨1970, 1, 1⟩ + 1721120) ∧
    ∀ j, 0 ≤ j → j < 2147483647 → ∃ w, weekDay j = some w ∧ 0 ≤ w ∧ w ≤ 6 ∧
      (∀ name t, DaysOfWeek name → t.Valid → toDays t + 1721120 = j → w = name t) ∧
      (j + 1 < 2147483647 → weekDay (j + 1) = some ((w + 1) % kDaysPerWeek)) := by
  refine ⟨fun t h => ⟨_, h.getJulianDayNumber_eq, getJulianDayNumber_next h⟩,
    fun year month h h' => (DateTest.daysOfMonth_eq year h h').symm, fun s t hs ht => ?_, rfl,
    fun j h h' => ?_⟩
  · refine ⟨_, _, hs.getJulianDayNumber_eq, ht.getJulianDayNumber_eq, ?_⟩
    rw [less, decide_eq_true_iff, ← toDays_lt_iff hs.valid ht.valid]
    omega
  · refine ⟨_, weekDay_eq h h', by omega, by omega, fun name t hname ht hj => ?_, fun hnext => ?_⟩
    · rw [hname.eq ht, weekday]
      omega
    · rw [weekDay_eq (by omega) hnext, kDaysPerWeek]
      congr 1
      omega

/-- The leap day of 2000, a Tuesday. -/
theorem day_numbers_leap :
    (∃ j, getJulianDayNumber 2000 2 29 = some j ∧ getJulianDayNumber 2000 3 1 = some (j + 1)) ∧
    ∃ w, weekDay 2451604 = some w ∧ w = weekday ⟨2000, 2, 29⟩ ∧ w = 2 := by
  refine ⟨day_numbers.1 ⟨2000, 2, 29⟩
    ⟨by decide, by decide, ⟨1465102, 10, 18⟩, by decide, by decide⟩, ?_⟩
  obtain ⟨w, hw, -, -, hname, -⟩ := day_numbers.2.2.2.2 2451604 (by decide) (by decide)
  have htuesday := hname weekday ⟨2000, 2, 29⟩ weekday_daysOfWeek (by decide) (by decide)
  exact ⟨w, hw, htuesday, htuesday.trans (by decide)⟩

/-- The greatest `int` has no successor. -/
theorem weekDay_overflow :
    weekDay 2147483647 = none ∧
      ¬ ∀ j, 0 ≤ j → j ≤ 2147483647 → ∃ w, weekDay j = some w ∧ 0 ≤ w ∧ w ≤ 6 := by
  have hnone : weekDay 2147483647 = none := by decide
  refine ⟨hnone, fun hall => ?_⟩
  obtain ⟨w, hw, -⟩ := hall 2147483647 (by decide) (by decide)
  cases hnone.symm.trans hw

end Leanet.Date

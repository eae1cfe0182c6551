import Leanet.Time.DayNumber
import Leanet.Time.Libc

/-! UTC.

Seconds since the epoch are split by a division that truncates, and a negative rest is repaired
by a day (`split_eq`). With that `toUtcTime` is the calendar's reading of the seconds, on every
day whose number `getYearMonthDay` can read (`toUtcTime_eq`), and `fromUtcTime` counts them
(`fromUtcTime_eq`). -/
namespace Leanet.TimeZone
open Gregorian Date

def kSecondsPerDay : Int := 24 * 60 * 60

/-- `static_cast<int>`. -/
def toInt (x : Int) : Int := x.bmod (2 ^ 32)

/-- The conversion to `unsigned`. -/
def toUnsigned (x : Int) : Nat := (x % 2 ^ 32).toNat

def fillHMS (seconds : Nat) (utc : Tm) : Tm :=
  let minutes := seconds / 60
  { utc with tm_sec := (seconds % 60 : Nat), tm_min := (minutes % 60 : Nat)
             tm_hour := (minutes / 60 : Nat) }

/-- How `toUtcTime` begins: `seconds` and `days`. -/
def split (secondsSinceEpoch : Int) : Option (Int × Int) :=
  let seconds := toInt (secondsSinceEpoch.tmod kSecondsPerDay)
  let days := toInt (secondsSinceEpoch.tdiv kSecondsPerDay)
  if seconds < 0 then do
    let seconds ← int32 (seconds + kSecondsPerDay)
    let days ← int32 (days - 1)
    pure (seconds, days)
  else pure (seconds, days)

/-- `none`: an `int` overflows. -/
def toUtcTime (secondsSinceEpoch : Int) (yday : Bool) : Option Tm := do
  let utc := { Tm.zero with tm_zone := Posix.gmt }
  let (seconds, days) ← split secondsSinceEpoch
  let utc := fillHMS (toUnsigned seconds) utc
  let date ← int32 (days + (← kJulianDayOf1970_01_01))
  let ymd ← getYearMonthDay date
  let tm_year ← int32 (ymd.year - 1900)
  let tm_mon ← int32 (ymd.month - 1)
  let tm_wday ← weekDay date
  let utc := { utc with tm_year, tm_mon, tm_mday := ymd.day, tm_wday }
  if yday then
    let startOfYear ← getJulianDayNumber ymd.year 1 1
    let tm_yday ← int32 (date - startOfYear)
    pure { utc with tm_yday }
  else pure utc

/-- A `time_t` holds whatever an `int` makes times `kSecondsPerDay`. -/
def fromUtcTime (year month day hour minute seconds : Int) : Option Int := do
  let date ← getJulianDayNumber year month day
  let secondsInDay ← int32 ((← int32 ((← int32 (hour * 3600)) + (← int32 (minute * 60)))) + seconds)
  let days ← int32 (date - (← kJulianDayOf1970_01_01))
  pure (days * kSecondsPerDay + secondsInDay)

/-- `fromUtcTime(const struct tm&)`. -/
def fromUtcTm (utc : Tm) : Option Int := do
  fromUtcTime (← int32 (utc.tm_year + 1900)) (← int32 (utc.tm_mon + 1)) utc.tm_mday
    utc.tm_hour utc.tm_min utc.tm_sec

/-! ### The split -/

variable {t x : Int}

theorem toInt_of (h : -2147483648 ≤ x) (h' : x ≤ 2147483647) : toInt x = x :=
  Int.bmod_eq_of_le (by omega) (by omega)

/-- A rest below zero is a day too many taken off. -/
theorem divide_eq (t : Int) :
    (t.tmod 86400 < 0 → t.tmod 86400 + 86400 = t % 86400 ∧ t.tdiv 86400 - 1 = t / 86400) ∧
    (¬ t.tmod 86400 < 0 → t.tmod 86400 = t % 86400 ∧ t.tdiv 86400 = t / 86400) := by
  rcases le_or_gt 0 t with h | h
  · rw [Int.tmod_eq_emod_of_nonneg h, tdiv_of h]
    omega
  · obtain ⟨n, rfl⟩ : ∃ n, t = -n := ⟨-t, (neg_neg t).symm⟩
    have hn : 0 ≤ n := by omega
    rw [Int.neg_tmod, Int.neg_tdiv, Int.tmod_eq_emod_of_nonneg hn, tdiv_of hn]
    omega

/-- On the days in question neither `static_cast` loses anything. -/
theorem toInt_divide (h : 0 ≤ t / 86400 + 2440588) (h' : t / 86400 + 2440588 ≤ 536838867) :
    toInt (t.tmod kSecondsPerDay) = t.tmod 86400 ∧ toInt (t.tdiv kSecondsPerDay) = t.tdiv 86400 := by
  obtain ⟨hneg, hpos⟩ := divide_eq t
  exact ⟨toInt_of (x := t.tmod 86400) (by omega) (by omega),
    toInt_of (x := t.tdiv 86400) (by omega) (by omega)⟩

theorem split_eq (h : 0 ≤ t / 86400 + 2440588) (h' : t / 86400 + 2440588 ≤ 536838867) :
    split t = some (t % 86400, t / 86400) := by
  obtain ⟨hneg, hpos⟩ := divide_eq t
  have hday : kSecondsPerDay = 86400 := rfl
  rw [split, (toInt_divide h h').1, (toInt_divide h h').2]
  split_ifs with hrest
  · rw [hday, (hneg hrest).1, (hneg hrest).2, bind_int32 (by omega) (by omega),
      bind_int32 (by omega) (by omega)]
    rfl
  · rw [(hpos hrest).1, (hpos hrest).2]
    rfl

theorem kJulianDayOf1970_01_01_eq : kJulianDayOf1970_01_01 = some 2440588 := rfl

/-- The date of a day that `getYearMonthDay` can read, and the first day of its year. -/
theorem ofDays_bounds {n : Int} (h : 0 ≤ n + 1721120) (h' : n + 1721120 ≤ 536838867) :
    -4800 ≤ (ofDays n).year ∧ (ofDays n).year ≤ 5000001 ∧
      getJulianDayNumber (ofDays n).year 1 1 =
        some (toDays ⟨(ofDays n).year, 1, 1⟩ + 1721120) := by
  have hvalid := ofDays_valid n
  have hcount := toDays_ofDays n
  obtain ⟨hfirst, hlast⟩ := Posix.yearDay_bounds hvalid
  obtain ⟨hlow, hhigh⟩ := marchYear_bounds hvalid (by omega) (by omega)
  obtain ⟨hm, hm', -, hyear⟩ := hvalid.march
  refine ⟨by omega, by omega, ?_⟩
  exact getJulianDayNumber_of_toDays (t := ⟨(ofDays n).year, 1, 1⟩)
    ⟨⟨le_rfl, (by decide : (1 : Int) ≤ 12)⟩, le_rfl, daysOfMonth_pos _ _⟩ (by omega) (by omega)

theorem toUtcTime_eq (h : 0 ≤ t / 86400 + 2440588) (h' : t / 86400 + 2440588 ≤ 536838867)
    (yday : Bool) :
    toUtcTime t yday =
      some (if yday then Posix.civil t else { Posix.civil t with tm_yday := 0 }) := by
  have hepoch : Posix.epochDays = 719468 := rfl
  have hsum : t / 86400 + 2440588 - 1721120 = t / 86400 + Posix.epochDays := by omega
  have hread := getYearMonthDay_eq (j := t / 86400 + 2440588) (by omega) (by omega)
  rw [hsum] at hread
  have hseconds : toUnsigned (t % 86400) = (t % 86400).toNat := by
    rw [toUnsigned]
    omega
  obtain ⟨hlow, hhigh, hstart⟩ := ofDays_bounds (n := t / 86400 + Posix.epochDays)
    (by omega) (by omega)
  have hvalid := ofDays_valid (t / 86400 + Posix.epochDays)
  have hcount := toDays_ofDays (t / 86400 + Posix.epochDays)
  have hyear := Posix.yearDay_bounds hvalid
  obtain ⟨hm, hm'⟩ := hvalid.month
  rw [toUtcTime, split_eq h h', kJulianDayOf1970_01_01_eq]
  simp only [Option.bind_eq_bind, Option.bind_some]
  rw [int32_of (by omega) (by omega), Option.bind_some, hread, Option.bind_some]
  rw [int32_of (by omega) (by omega), Option.bind_some, int32_of (by omega) (by omega),
    Option.bind_some, weekDay_eq (by omega) (by omega), Option.bind_some]
  have hfields : fillHMS (toUnsigned (t % 86400)) { Tm.zero with tm_zone := Posix.gmt } =
      { Tm.zero with tm_zone := Posix.gmt, tm_sec := t % 86400 % 60
                     tm_min := t % 86400 / 60 % 60, tm_hour := t % 86400 / 3600 } := by
    simp only [fillHMS, hseconds, Tm.mk.injEq, and_true]
    omega
  have hyday : t / 86400 + 2440588 -
        (toDays ⟨(ofDays (t / 86400 + Posix.epochDays)).year, 1, 1⟩ + 1721120) =
      t / 86400 + Posix.epochDays -
        toDays ⟨(ofDays (t / 86400 + Posix.epochDays)).year, 1, 1⟩ := by omega
  have hwday : (t / 86400 + 2440588 + 1) % 7 = (t / 86400 + 4) % 7 := by omega
  cases yday with
  | false =>
    rw [if_neg Bool.false_ne_true, if_neg Bool.false_ne_true, hfields, hwday]
    rfl
  | true =>
    rw [if_pos rfl, if_pos rfl, hstart, Option.bind_some, int32_of (by omega) (by omega),
      Option.bind_some, hfields, hwday, hyday]
    rfl

/-- The count of seconds, from a date that has a day number in question. -/
theorem fromUtcTime_eq {d : YearMonthDay} (hd : d.Valid) (h : 0 ≤ toDays d + 1721120)
    (h' : toDays d + 1721120 ≤ 536838867) {hour minute seconds : Int}
    (hhour : 0 ≤ hour ∧ hour ≤ 23) (hminute : 0 ≤ minute ∧ minute ≤ 59)
    (hseconds : 0 ≤ seconds ∧ seconds ≤ 59) :
    fromUtcTime d.year d.month d.day hour minute seconds =
      some ((toDays d - Posix.epochDays) * 86400 + (hour * 3600 + minute * 60 + seconds)) := by
  have hepoch : Posix.epochDays = 719468 := rfl
  have hdays : toDays d + 1721120 - 2440588 = toDays d - Posix.epochDays := by omega
  rw [fromUtcTime, getJulianDayNumber_of_toDays hd (by omega) (by omega),
    kJulianDayOf1970_01_01_eq]
  simp only [Option.bind_eq_bind, Option.bind_some]
  rw [int32_of (by omega) (by omega), Option.bind_some, int32_of (by omega) (by omega),
    Option.bind_some, int32_of (by omega) (by omega), Option.bind_some,
    int32_of (by omega) (by omega), Option.bind_some, int32_of (by omega) (by omega),
    Option.bind_some, hdays]
  rfl

/-- The date of a broken-down time. -/
def dateOf (tm : Tm) : YearMonthDay := ⟨tm.tm_year + 1900, tm.tm_mon + 1, tm.tm_mday⟩

theorem dateOf_civil (t : Int) : dateOf (Posix.civil t) = ofDays (t / 86400 + Posix.epochDays) := by
  simp only [dateOf, Posix.civil, Int.sub_add_cancel]

theorem fromUtcTm_civil (h : 0 ≤ t / 86400 + 2440588) (h' : t / 86400 + 2440588 ≤ 536838867) :
    fromUtcTm (Posix.civil t) = some t := by
  have hepoch : Posix.epochDays = 719468 := rfl
  have hcount := toDays_ofDays (t / 86400 + Posix.epochDays)
  have hvalid := ofDays_valid (t / 86400 + Posix.epochDays)
  obtain ⟨hm, hm'⟩ := hvalid.month
  obtain ⟨hlow, hhigh, -⟩ := ofDays_bounds (n := t / 86400 + Posix.epochDays) (by omega) (by omega)
  simp only [fromUtcTm, Posix.civil, Int.sub_add_cancel]
  rw [bind_int32 (by omega) (by omega), bind_int32 (by omega) (by omega),
    fromUtcTime_eq hvalid (by omega) (by omega) (by omega) (by omega) (by omega), hcount]
  congr 1
  omega

/-- **UTC and back.** -/
theorem utc_exact :
    (∀ t, 0 ≤ t / 86400 + 2440588 → t / 86400 + 2440588 ≤ 536838867 →
      ∃ tm, toUtcTime t true = some tm ∧ (0 ≤ tm.tm_sec ∧ tm.tm_sec ≤ 59) ∧
        (0 ≤ tm.tm_min ∧ tm.tm_min ≤ 59) ∧ (0 ≤ tm.tm_hour ∧ tm.tm_hour ≤ 23) ∧
        (dateOf tm).Valid ∧ tm.tm_wday = weekday (dateOf tm) ∧
        tm.tm_yday = toDays (dateOf tm) - toDays ⟨(dateOf tm).year, 1, 1⟩ ∧
        (0 ≤ tm.tm_yday ∧ tm.tm_yday ≤ 365) ∧
        toInt (t.tmod kSecondsPerDay) = t.tmod kSecondsPerDay ∧
        toInt (t.tdiv kSecondsPerDay) = t.tdiv kSecondsPerDay ∧ fromUtcTm tm = some t) ∧
    ∀ (d : YearMonthDay) (hour minute seconds : Int) (yday : Bool), d.Valid →
      0 ≤ toDays d + 1721120 → toDays d + 1721120 ≤ 536838867 → 0 ≤ hour ∧ hour ≤ 23 →
      0 ≤ minute ∧ minute ≤ 59 → 0 ≤ seconds ∧ seconds ≤ 59 →
      ∃ t tm, fromUtcTime d.year d.month d.day hour minute seconds = some t ∧
        toUtcTime t yday = some tm ∧ dateOf tm = d ∧ tm.tm_hour = hour ∧ tm.tm_min = minute ∧
        tm.tm_sec = seconds := by
  refine ⟨fun t h h' => ?_, fun d hour minute seconds yday hd h h' hhour hminute hseconds => ?_⟩
  · have hvalid := ofDays_valid (t / 86400 + Posix.epochDays)
    have hcount := toDays_ofDays (t / 86400 + Posix.epochDays)
    have hyear := Posix.yearDay_bounds hvalid
    obtain ⟨hseconds, hminute, hhour⟩ := Posix.civil_clock_bounds t
    refine ⟨Posix.civil t, toUtcTime_eq h h' true, hseconds, hminute, hhour, ?_, ?_, ?_, ?_,
      (toInt_divide h h').1, (toInt_divide h h').2, fromUtcTm_civil h h'⟩
    · rwa [dateOf_civil]
    · rw [dateOf_civil, weekday, hcount, Posix.civil, Posix.epochDays]
      dsimp only
      omega
    · rw [dateOf_civil, hcount]
      rfl
    · rw [hcount] at hyear
      exact ⟨by dsimp only [Posix.civil]; omega, by dsimp only [Posix.civil]; omega⟩
  · have hfrom := fromUtcTime_eq hd h h' hhour hminute hseconds
    generalize ht : (toDays d - Posix.epochDays) * 86400 + (hour * 3600 + minute * 60 + seconds) = t
      at hfrom
    have hdays : t / 86400 + Posix.epochDays = toDays d := by omega
    have hrest : t % 86400 = hour * 3600 + minute * 60 + seconds := by omega
    have hepoch : Posix.epochDays = 719468 := rfl
    have hutc := toUtcTime_eq (t := t) (by omega) (by omega) yday
    have hdate : dateOf (Posix.civil t) = d := by rw [dateOf_civil, hdays, ofDays_toDays hd]
    have hclock := Posix.civil_clock hrest hminute hseconds
    -- none of them is the field that only `yday` asks for
    cases yday with
    | false => exact ⟨t, _, hfrom, hutc, hdate, hclock⟩
    | true => exact ⟨t, _, hfrom, hutc, hdate, hclock⟩

/-- A second before the epoch, and the last second of a leap day. -/
theorem utc_exact_before_epoch :
    (∃ tm, toUtcTime (-1) true = some tm ∧ tm.tm_yday = 364 ∧ fromUtcTm tm = some (-1)) ∧
    ∃ t tm, fromUtcTime 2000 2 29 23 59 59 = some t ∧ toUtcTime t false = some tm ∧
      dateOf tm = ⟨2000, 2, 29⟩ ∧ tm.tm_sec = 59 := by
  constructor
  · obtain ⟨tm, htm, -, -, -, -, -, -, -, -, -, hback⟩ := utc_exact.1 (-1) (by decide) (by decide)
    have hsame : toUtcTime (-1) true = some (Posix.civil (-1)) := by decide
    obtain rfl : tm = Posix.civil (-1) := Option.some.inj (htm.symm.trans hsame)
    exact ⟨_, hsame, by decide, hback⟩
  · obtain ⟨t, tm, hfrom, hto, hdate, -, -, hseconds⟩ := utc_exact.2 ⟨2000, 2, 29⟩ 23 59 59 false
      (by decide) (by decide) (by decide) (by decide) (by decide) (by decide)
    exact ⟨t, tm, hfrom, hto, hdate, hseconds⟩

end Leanet.TimeZone

import Leanet.Foundation.Gregorian

/-! Broken-down time in the C library.

`gmtime_r` and `mktime` are the library's, and what they do depends on the time zone of
the process: `Libc` is the pair as a process has it. `Libc.zoned` is the pair of a process
whose zone is a fixed number of seconds east of UTC: `gmtime_r` does not look at the zone,
`mktime` reads the fields as UTC does and subtracts the zone. -/
namespace Leanet
open Gregorian

/-- `struct tm`; `tm_zone` is the string it points to. -/
structure Tm where
  tm_sec : Int
  tm_min : Int
  tm_hour : Int
  tm_mday : Int
  tm_mon : Int
  tm_year : Int
  tm_wday : Int
  tm_yday : Int
  tm_isdst : Int
  tm_gmtoff : Int
  tm_zone : List UInt8
  deriving DecidableEq, Repr

/-- `bzero(&tm, sizeof(tm))`. -/
def Tm.zero : Tm := ⟨0, 0, 0, 0, 0, 0, 0, 0, 0, 0, []⟩

/-- The fields are `int`s. -/
def Tm.Fits (tm : Tm) : Prop :=
  ∀ v ∈ [tm.tm_sec, tm.tm_min, tm.tm_hour, tm.tm_mday, tm.tm_mon, tm.tm_year, tm.tm_wday,
    tm.tm_yday, tm.tm_isdst], -2147483648 ≤ v ∧ v ≤ 2147483647

structure Libc where
  /-- `none`: the year does not fit into an `int`. -/
  gmtime_r : Int → Option Tm
  mktime : Tm → Int

/-- In the process that uses them the two are inverse to each other; `mktime` ignores
`tm_isdst` and the fields that describe a zone. -/
structure Libc.Exact (libc : Libc) : Prop where
  inverse : ∀ x tm, libc.gmtime_r x = some tm → libc.mktime tm = x
  ignores : ∀ tm isdst gmtoff zone,
    libc.mktime { tm with tm_isdst := isdst, tm_gmtoff := gmtoff, tm_zone := zone } =
      libc.mktime tm

/-! ### A process with a fixed offset -/

namespace Posix

/-- Days from 0000-03-01 to 1970-01-01. -/
def epochDays : Int := 719468

/-- `"GMT"`. -/
def gmt : List UInt8 := [71, 77, 84]

/-- The fields of a number of seconds since the epoch, in UTC. -/
def civil (x : Int) : Tm :=
  let days := x / 86400
  let seconds := x % 86400
  let date := ofDays (days + epochDays)
  { tm_sec := seconds % 60
    tm_min := seconds / 60 % 60
    tm_hour := seconds / 3600
    tm_mday := date.day
    tm_mon := date.month - 1
    tm_year := date.year - 1900
    tm_wday := (days + 4) % 7
    tm_yday := days + epochDays - toDays ⟨date.year, 1, 1⟩
    tm_isdst := 0
    tm_gmtoff := 0
    tm_zone := gmt }

def gmtime_r (x : Int) : Option Tm :=
  if -2147483648 ≤ (civil x).tm_year ∧ (civil x).tm_year ≤ 2147483647 then some (civil x) else none

/-- The seconds since the epoch of a `struct tm` in UTC, its fields in any range. -/
def timegm (tm : Tm) : Int :=
  let year := tm.tm_year + 1900 + tm.tm_mon / 12
  let days := toDays ⟨year, tm.tm_mon % 12 + 1, 1⟩ + (tm.tm_mday - 1) - epochDays
  days * 86400 + tm.tm_hour * 3600 + tm.tm_min * 60 + tm.tm_sec

theorem timegm_civil (x : Int) : timegm (civil x) = x := by
  have hvalid := ofDays_valid (x / 86400 + epochDays)
  have hcount := toDays_ofDays (x / 86400 + epochDays)
  simp only [timegm, civil]
  generalize ofDays (x / 86400 + epochDays) = t at hvalid hcount ⊢
  obtain ⟨hlow, hhigh⟩ := hvalid.month
  have hyear : t.year - 1900 + 1900 + (t.month - 1) / 12 = t.year := by omega
  have hmonth : (t.month - 1) % 12 + 1 = t.month := by omega
  have hday : toDays ⟨t.year, t.month, 1⟩ + (t.day - 1) = toDays t := by
    simp only [toDays, Date.dayOfYear, Date.marchYear, Date.marchMonth]
    omega
  rw [hyear, hmonth, hday, hcount]
  omega

theorem civil_clock_bounds (x : Int) : (0 ≤ (civil x).tm_sec ∧ (civil x).tm_sec ≤ 59) ∧
    (0 ≤ (civil x).tm_min ∧ (civil x).tm_min ≤ 59) ∧
    (0 ≤ (civil x).tm_hour ∧ (civil x).tm_hour ≤ 23) := by
  dsimp only [civil]
  omega

/-- The clock of a time of day reads it back. -/
theorem civil_clock {x hour minute seconds : Int}
    (h : x % 86400 = hour * 3600 + minute * 60 + seconds) (hminute : 0 ≤ minute ∧ minute ≤ 59)
    (hseconds : 0 ≤ seconds ∧ seconds ≤ 59) :
    (civil x).tm_hour = hour ∧ (civil x).tm_min = minute ∧ (civil x).tm_sec = seconds := by
  dsimp only [civil]
  omega

theorem gmtime_r_eq {x : Int} {tm : Tm} (h : gmtime_r x = some tm) : tm = civil x := by
  unfold gmtime_r at h
  split at h
  · exact (Option.some.inj h).symm
  · cases h

/-- A date lies in the year that began on its first of January. -/
theorem yearDay_bounds {t : Gregorian.Date} (h : t.Valid) :
    toDays ⟨t.year, 1, 1⟩ ≤ toDays t ∧ toDays t ≤ toDays ⟨t.year, 1, 1⟩ + 365 := by
  obtain ⟨hlow, hhigh, hmonth, hyear⟩ := h.march
  obtain ⟨hstart, hnext, hend⟩ := h.dayOfYear_lt
  have hfirst : toDays ⟨t.year, 1, 1⟩ = daysBeforeYear (t.year - 1) + 306 := rfl
  have hlength := daysBeforeYear_succ (t.year - 1)
  have hfeb : 28 ≤ daysOfMonth t.year 2 ∧ daysOfMonth t.year 2 ≤ 29 := by
    unfold daysOfMonth
    split <;> split <;> omega
  rw [Int.sub_add_cancel] at hlength
  rw [hfirst]
  unfold toDays
  by_cases hm : t.marchMonth ≤ 9
  · have hsame : t.marchYear = t.year := by omega
    have hmono := daysBeforeMonth_mono (show t.marchMonth < 10 by omega)
    have hten : daysBeforeMonth 10 = 306 := rfl
    have hpos := daysBeforeMonth_nonneg hlow
    have := hnext (by omega)
    rw [hsame]
    omega
  · have hprev : t.marchYear = t.year - 1 := by omega
    have hten : 306 ≤ daysBeforeMonth t.marchMonth := by
      unfold daysBeforeMonth
      omega
    rw [hprev] at hend ⊢
    rw [Int.sub_add_cancel] at hend
    omega

theorem civil_date_bounds (x : Int) : (0 ≤ (civil x).tm_mon ∧ (civil x).tm_mon ≤ 11) ∧
    (1 ≤ (civil x).tm_mday ∧ (civil x).tm_mday ≤ 31) := by
  have hvalid := ofDays_valid (x / 86400 + epochDays)
  have hmonth := hvalid.month
  obtain ⟨hday, hday'⟩ := hvalid.day
  have hlast : daysOfMonth (ofDays (x / 86400 + epochDays)).year
      (ofDays (x / 86400 + epochDays)).month ≤ 31 := by
    unfold daysOfMonth
    split <;> split <;> omega
  dsimp only [civil]
  omega

/-- What `gmtime_r` writes are `int`s. -/
theorem gmtime_r_fits {x : Int} {tm : Tm} (h : gmtime_r x = some tm) : tm.Fits := by
  obtain rfl := gmtime_r_eq h
  have hvalid := ofDays_valid (x / 86400 + epochDays)
  have hcount := toDays_ofDays (x / 86400 + epochDays)
  have hyear : -2147483648 ≤ (civil x).tm_year ∧ (civil x).tm_year ≤ 2147483647 := by
    by_contra hout
    exact absurd h (by simp [gmtime_r, hout])
  have hbounds := yearDay_bounds hvalid
  have hdate := civil_date_bounds x
  simp only [Tm.Fits, List.forall_mem_cons, List.not_mem_nil, false_implies, implies_true, and_true]
  refine ⟨?_, ?_, ?_, ?_, ?_, hyear, ?_, ?_, ?_⟩
  all_goals
    dsimp only [civil] at hdate ⊢
    omega

/-- The years 1901 to 2106. -/
theorem civil_year_bounds {x : Int} (h : -2147483648 ≤ x) (h' : x ≤ 4294967296) :
    1 ≤ (civil x).tm_year ∧ (civil x).tm_year ≤ 206 := by
  have hvalid := ofDays_valid (x / 86400 + epochDays)
  have hcount := toDays_ofDays (x / 86400 + epochDays)
  obtain ⟨hlow, hhigh⟩ := hvalid.toDays_bounds
  obtain ⟨hm, hm', -, hyear⟩ := hvalid.march
  rw [hcount] at hlow hhigh
  unfold epochDays daysBeforeYear at *
  dsimp only [civil]
  unfold epochDays
  omega

theorem gmtime_r_some {x : Int} (h : -2147483648 ≤ x) (h' : x ≤ 4294967296) :
    gmtime_r x = some (civil x) := by
  obtain ⟨hlow, hhigh⟩ := civil_year_bounds h h'
  exact if_pos ⟨by omega, by omega⟩

end Posix

/-- A process whose zone is `P` seconds east of UTC. -/
def Libc.zoned (P : Int) : Libc where
  gmtime_r := Posix.gmtime_r
  mktime tm := Posix.timegm tm - P

theorem Libc.zoned_exact : (Libc.zoned 0).Exact where
  inverse x tm h := by
    simp only [zoned, Posix.gmtime_r] at h ⊢
    split at h
    · obtain rfl := Option.some.inj h
      rw [Posix.timegm_civil, Int.sub_zero]
    · cases h
  ignores _ _ _ _ := rfl

end Leanet

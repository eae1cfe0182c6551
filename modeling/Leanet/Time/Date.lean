import Leanet.Foundation.Gregorian

/-! Julian day numbers.

`Date` keeps a day as its Julian day number, an `int`. The two functions that translate
between the number and the calendar compute in `int`s, so that each operation may
overflow (`int32`), and divide by truncation. On the days from -4800-03-01 to the one
where `4 * a + 3` reaches the largest `int`, no operation does, and they are the calendar's
count of days and its inverse (`getJulianDayNumber_eq`, `getYearMonthDay_eq`). -/
namespace Leanet.Date
open Gregorian

/-- The value of an operation on `int`s; `none`: it overflows. -/
def int32 (x : Int) : Option Int := if -2147483648 ≤ x ∧ x ≤ 2147483647 then some x else none

/-- `Date::YearMonthDay`. -/
abbrev YearMonthDay := Gregorian.Date

def getJulianDayNumber (year month day : Int) : Option Int := do
  let a := (← int32 (14 - month)).tdiv 12
  let y ← int32 ((← int32 (year + 4800)) - a)
  let m ← int32 ((← int32 (month + (← int32 (12 * a)))) - 3)
  let sum ← int32 (day + (← int32 ((← int32 (153 * m)) + 2)).tdiv 5)
  let sum ← int32 (sum + (← int32 (y * 365)))
  let sum ← int32 (sum + y.tdiv 4)
  let sum ← int32 (sum - y.tdiv 100)
  let sum ← int32 (sum + y.tdiv 400)
  int32 (sum - 32045)

def getYearMonthDay (julianDayNumber : Int) : Option YearMonthDay := do
  let a ← int32 (julianDayNumber + 32044)
  let b := (← int32 ((← int32 (4 * a)) + 3)).tdiv 146097
  let c ← int32 (a - (← int32 (b * 146097)).tdiv 4)
  let d := (← int32 ((← int32 (4 * c)) + 3)).tdiv 1461
  let e ← int32 (c - (← int32 (1461 * d)).tdiv 4)
  let m := (← int32 ((← int32 (5 * e)) + 2)).tdiv 153
  let day ← int32 ((← int32 (e - (← int32 ((← int32 (153 * m)) + 2)).tdiv 5)) + 1)
  let month ← int32 ((← int32 (m + 3)) - (← int32 (12 * m.tdiv 10)))
  let year ← int32 ((← int32 ((← int32 ((← int32 (b * 100)) + d)) - 4800)) + m.tdiv 10)
  pure ⟨year, month, day⟩

/-! ### No overflow -/

variable {x y j : Int}

theorem int32_of (h : -2147483648 ≤ x) (h' : x ≤ 2147483647) : int32 x = some x :=
  if_pos ⟨h, h'⟩

theorem bind_int32 {β : Type} (h : -2147483648 ≤ x) (h' : x ≤ 2147483647) (f : Int → Option β) :
    (int32 x >>= f) = f x := by
  rw [int32_of h h']
  rfl

theorem tdiv_of (h : 0 ≤ x) (y : Int) : x.tdiv y = x / y := Int.tdiv_eq_ediv_of_nonneg h

theorem getYearMonthDay_eq (h : -32044 ≤ j) (h' : j ≤ 536838867) :
    getYearMonthDay j = some (ofDays (j - 1721120)) := by
  obtain ⟨n, rfl⟩ : ∃ n, j = n + 1721120 := ⟨j - 1721120, by omega⟩
  simp only [ofDays, Int.add_sub_cancel]
  generalize hb : (4 * n + 3) / 146097 = b
  generalize hc : n - 146097 * b / 4 = c
  generalize hd : (4 * c + 3) / 1461 = d
  generalize he : c - 1461 * d / 4 = e
  generalize hm : (5 * e + 2) / 153 = m
  obtain ⟨hc₀, hc₁, -⟩ := century_bounds hb.symm hc.symm
  obtain ⟨hd₀, hd₁, he₀, he₁, -, -⟩ := year_bounds hc₀ hc₁ hd.symm he.symm
  obtain ⟨hm₀, hm₁, hlow, hhigh⟩ := month_bounds he₀ he₁ hm.symm
  -- The source counts from -4800-03-01, which is twelve times 400 years earlier.
  have hb₀ : -48 ≤ b ∧ b ≤ 14651 := by clear hc; omega
  have hcode : (4 * (n + 1721120 + 32044) + 3).tdiv 146097 = b + 48 := by
    rw [tdiv_of (by omega)]
    clear hc
    omega
  have hcentury : ((b + 48) * 146097).tdiv 4 = 146097 * b / 4 + 1753164 := by
    rw [tdiv_of (by omega)]
    clear hc hb
    omega
  have hcday : n + 1721120 + 32044 - (146097 * b / 4 + 1753164) = c := by clear hb; omega
  have hyear : (4 * c + 3).tdiv 1461 = d := by rw [tdiv_of (by omega), hd]
  have hyday : (1461 * d).tdiv 4 = 1461 * d / 4 := tdiv_of (by omega) 4
  have hmonth : (5 * e + 2).tdiv 153 = m := by rw [tdiv_of (by omega), hm]
  have hmday : (153 * m + 2).tdiv 5 = daysBeforeMonth m := tdiv_of (by omega) 5
  have hnext : m.tdiv 10 = m / 10 := tdiv_of hm₀ 10
  have hpos := daysBeforeMonth_nonneg hm₀
  clear hb hc hd hm
  rw [getYearMonthDay]
  refine (bind_int32 (by omega) (by omega) _).trans ?_
  refine (bind_int32 (by omega) (by omega) _).trans ?_
  refine (bind_int32 (by omega) (by omega) _).trans ?_
  dsimp only
  rw [hcode]
  refine (bind_int32 (by omega) (by omega) _).trans ?_
  rw [hcentury, hcday]
  refine (bind_int32 (by omega) (by omega) _).trans ?_
  refine (bind_int32 (by omega) (by omega) _).trans ?_
  refine (bind_int32 (by omega) (by omega) _).trans ?_
  rw [hyear]
  refine (bind_int32 (by omega) (by omega) _).trans ?_
  rw [hyday, he]
  refine (bind_int32 (by omega) (by omega) _).trans ?_
  refine (bind_int32 (by omega) (by omega) _).trans ?_
  refine (bind_int32 (by omega) (by omega) _).trans ?_
  rw [hmonth]
  refine (bind_int32 (by omega) (by omega) _).trans ?_
  refine (bind_int32 (by omega) (by omega) _).trans ?_
  rw [hmday, hnext]
  refine (bind_int32 (by omega) (by omega) _).trans ?_
  refine (bind_int32 (by omega) (by omega) _).trans ?_
  refine (bind_int32 (by omega) (by omega) _).trans ?_
  refine (bind_int32 (by omega) (by omega) _).trans ?_
  refine (bind_int32 (by omega) (by omega) _).trans ?_
  refine (bind_int32 (by omega) (by omega) _).trans ?_
  refine (bind_int32 (by omega) (by omega) _).trans ?_
  refine (bind_int32 (by omega) (by omega) _).trans ?_
  refine (bind_int32 (by omega) (by omega) _).trans ?_
  have hyears : (b + 48) * 100 + d - 4800 + m / 10 = 100 * b + d + m / 10 := by omega
  rw [hyears]
  rfl

/-- The years in which no operation of `getJulianDayNumber` comes near the bounds. -/
theorem getJulianDayNumber_eq {t : YearMonthDay} (h : t.Valid) (hlow : -4800 ≤ t.marchYear)
    (hhigh : t.marchYear ≤ 5000000) :
    getJulianDayNumber t.year t.month t.day = some (toDays t + 1721120) := by
  obtain ⟨hm₀, hm₁, hmonth, hyear⟩ := h.march
  obtain ⟨hstart, -, hend⟩ := h.dayOfYear_lt
  obtain ⟨hday, -⟩ := h.day
  have hfeb : daysOfMonth (t.marchYear + 1) 2 ≤ 29 := by
    unfold daysOfMonth
    split <;> split <;> omega
  have hpos := daysBeforeMonth_nonneg hm₀
  have hdays : t.dayOfYear = daysBeforeMonth t.marchMonth + (t.day - 1) := rfl
  have ha : (14 - t.month).tdiv 12 = t.marchMonth / 10 := by
    rw [tdiv_of (by omega)]
    omega
  have hy : t.year + 4800 - t.marchMonth / 10 = t.marchYear + 4800 := by omega
  have hm : t.month + 12 * (t.marchMonth / 10) - 3 = t.marchMonth := by omega
  have hmday : (153 * t.marchMonth + 2).tdiv 5 = daysBeforeMonth t.marchMonth := tdiv_of (by omega) 5
  have hfour : (t.marchYear + 4800) / 4 = t.marchYear / 4 + 1200 := by omega
  have hcentury : (t.marchYear + 4800) / 100 = t.marchYear / 100 + 48 := by omega
  have hlong : (t.marchYear + 4800) / 400 = t.marchYear / 400 + 12 := by omega
  rw [getJulianDayNumber]
  refine (bind_int32 (by omega) (by omega) _).trans ?_
  dsimp only
  rw [ha]
  refine (bind_int32 (by omega) (by omega) _).trans ?_
  refine (bind_int32 (by omega) (by omega) _).trans ?_
  rw [hy]
  refine (bind_int32 (by omega) (by omega) _).trans ?_
  refine (bind_int32 (by omega) (by omega) _).trans ?_
  refine (bind_int32 (by omega) (by omega) _).trans ?_
  rw [hm]
  refine (bind_int32 (by omega) (by omega) _).trans ?_
  refine (bind_int32 (by omega) (by omega) _).trans ?_
  rw [hmday]
  refine (bind_int32 (by omega) (by omega) _).trans ?_
  refine (bind_int32 (by omega) (by omega) _).trans ?_
  rw [tdiv_of (by omega), tdiv_of (by omega), tdiv_of (by omega), hfour, hcentury, hlong]
  refine (bind_int32 (by omega) (by omega) _).trans ?_
  refine (bind_int32 (by omega) (by omega) _).trans ?_
  refine (bind_int32 (by omega) (by omega) _).trans ?_
  refine (bind_int32 (by omega) (by omega) _).trans ?_
  rw [int32_of (by omega) (by omega)]
  refine congrArg some ?_
  rw [toDays, daysBeforeYear]
  omega

/-! ### The codec -/

/-- The years of the days that `getYearMonthDay` can read. -/
theorem marchYear_bounds {t : YearMonthDay} (h : t.Valid) (hlow : -1753164 ≤ toDays t)
    (hhigh : toDays t ≤ 535117747) : -4800 ≤ t.marchYear ∧ t.marchYear ≤ 5000000 := by
  obtain ⟨hstart, hend⟩ := h.toDays_bounds
  unfold daysBeforeYear at hstart hend
  omega

theorem getJulianDayNumber_of_toDays {t : YearMonthDay} (h : t.Valid) (hlow : -1753164 ≤ toDays t)
    (hhigh : toDays t ≤ 535117747) :
    getJulianDayNumber t.year t.month t.day = some (toDays t + 1721120) :=
  let ⟨hlow', hhigh'⟩ := marchYear_bounds h hlow hhigh
  getJulianDayNumber_eq h hlow' hhigh'

/-- The same, told by the last of these days. -/
theorem toDays_bounds {last t : YearMonthDay} (hlast : getYearMonthDay 536838867 = some last)
    (h : t.Valid) (hfirst : ⟨-4800, 3, 1⟩ ≤ t) (hle : t ≤ last) :
    -1753164 ≤ toDays t ∧ toDays t ≤ 535117747 := by
  rw [getYearMonthDay_eq (by omega) (by omega)] at hlast
  obtain rfl := Option.some.inj hlast
  have hlow : -1753164 ≤ toDays t := toDays_le (by decide) h hfirst
  have hhigh := toDays_le h (ofDays_valid _) hle
  rw [toDays_ofDays] at hhigh
  exact ⟨hlow, hhigh⟩

/-- **The date is an exact calendar codec.** Every number from -32044 to 536838867 is read
without overflow as a valid date, which is written as that number again; and every valid
date from -4800-03-01 to the last of these is written without overflow as such a number,
which is read as that date again. -/
theorem date_codec :
    (∀ j, -32044 ≤ j → j ≤ 536838867 → ∃ t, getYearMonthDay j = some t ∧ t.Valid ∧
      getJulianDayNumber t.year t.month t.day = some j) ∧
    ∀ last t, getYearMonthDay 536838867 = some last → t.Valid → ⟨-4800, 3, 1⟩ ≤ t → t ≤ last →
      ∃ j, -32044 ≤ j ∧ j ≤ 536838867 ∧ getJulianDayNumber t.year t.month t.day = some j ∧
        getYearMonthDay j = some t := by
  constructor
  · intro j hlow hhigh
    have hcount := toDays_ofDays (j - 1721120)
    refine ⟨_, getYearMonthDay_eq hlow hhigh, ofDays_valid _, ?_⟩
    rw [getJulianDayNumber_of_toDays (ofDays_valid _) (by omega) (by omega), hcount,
      Int.sub_add_cancel]
  · intro last t hlast hvalid hfirst hle
    obtain ⟨hlow, hhigh⟩ := toDays_bounds hlast hvalid hfirst hle
    refine ⟨toDays t + 1721120, by omega, by omega,
      getJulianDayNumber_of_toDays hvalid hlow hhigh, ?_⟩
    rw [getYearMonthDay_eq (by omega) (by omega), Int.add_sub_cancel, ofDays_toDays hvalid]

/-- The leap day of 2000. -/
theorem date_codec_leap :
    (∃ t, getYearMonthDay 2451604 = some t ∧ t.Valid ∧
      getJulianDayNumber t.year t.month t.day = some 2451604) ∧
    ∃ j, -32044 ≤ j ∧ j ≤ 536838867 ∧ getJulianDayNumber 2000 2 29 = some j ∧
      getYearMonthDay j = some ⟨2000, 2, 29⟩ :=
  ⟨date_codec.1 2451604 (by decide) (by decide),
    date_codec.2 ⟨1465102, 10, 18⟩ ⟨2000, 2, 29⟩ (by decide) (by decide) (by decide) (by decide)⟩

end Leanet.Date

import Leanet.Log.LogTime
import Leanet.Time.DayNumber

/-! The texts of times and dates.

A `Timestamp` and a `Date` are written by `snprintf` into 32 bytes, which would cut off what is too
long, and the array is returned as a C string. Whatever `int64_t` a timestamp holds, its texts fit,
and they tell it (`timestamp_texts`); the same goes for every date that can be read
(`date_texts`). The year alone has no fixed width, so that the order of the texts is that of the
times as long as it has four digits. -/
namespace Leanet
open Logger (percentD dateTime snprintf kMicroSecondsPerSecond)
open Numeral (numeral padded append_lt_append_iff)
open detail (spellDecimal)
open Posix (civil)

/-- `snprintf(buf, n, …)`, and `buf` as a C string. -/
def formatBuf (buf : List UInt8) (n : Nat) (text : List UInt8) : List UInt8 :=
  (snprintf (buf.take n) text ++ buf.drop n).takeWhile (· ≠ 0)

namespace Timestamp

def secondsFromEpoch (microSecondsFromEpoch_ : Int64) : Int :=
  microSecondsFromEpoch_.toInt.tdiv kMicroSecondsPerSecond

/-- The first `%` is `PRId64`, with no width. -/
def toString (microSecondsFromEpoch_ : Int64) : List UInt8 :=
  let seconds := microSecondsFromEpoch_.toInt.tdiv kMicroSecondsPerSecond
  let microseconds := microSecondsFromEpoch_.toInt.tmod kMicroSecondsPerSecond
  formatBuf (List.replicate 32 0) (32 - 1)
    (percentD false 0 seconds ++ [46] ++ percentD true 6 microseconds)

/-- A time that `gmtime_r` refuses leaves `tmt` as it was, not initialized. -/
def toFormattedString (libc : Libc) (microSecondsFromEpoch_ : Int64) (showMicroSeconds : Bool) :
    Except Fault (List UInt8) := do
  let seconds := secondsFromEpoch microSecondsFromEpoch_
  let tmt ← deref (libc.gmtime_r seconds)
  let buf := List.replicate 32 0
  if showMicroSeconds then
    let microseconds :=
      TimeZone.toInt (microSecondsFromEpoch_.toInt.tmod kMicroSecondsPerSecond)
    pure (formatBuf buf 32 (dateTime tmt ++ [46] ++ percentD true 6 microseconds))
  else pure (formatBuf buf 32 (dateTime tmt))

/-! ### What is to be read -/

def microSeconds (x : Int64) : Int := x.toInt.tmod kMicroSecondsPerSecond

/-- The part of a timestamp that a text shows. -/
def shown (showMicroSeconds : Bool) (x : Int64) : Int :=
  if showMicroSeconds then x.toInt else secondsFromEpoch x

/-- `<seconds>.<micro-seconds>`. -/
def plain (x : Int64) : List UInt8 :=
  percentD false 0 (secondsFromEpoch x) ++ [46] ++ percentD true 6 (microSeconds x)

/-- The calendar's reading of the second, and the microseconds if they are shown. -/
def formatted (showMicroSeconds : Bool) (x : Int64) : List UInt8 :=
  dateTime (civil (secondsFromEpoch x)) ++
    if showMicroSeconds then [46] ++ percentD true 6 (microSeconds x) else []

/-- From 1970 to the end of 9999. -/
def FourDigits (x : Int64) : Prop := 0 ≤ x.toInt ∧ x.toInt < 253402300800000000

end Timestamp

namespace Date

/-- `Date(const struct tm&)`. -/
def ofTm (t : Tm) : Option Int := do
  getJulianDayNumber (← int32 (t.tm_year + 1900)) (← int32 (t.tm_mon + 1)) t.tm_mday

/-- `"%4d-%02d-%02d"`. -/
def isoText (ymd : YearMonthDay) : List UInt8 :=
  percentD false 4 ymd.year ++ [45] ++ percentD true 2 ymd.month ++ [45] ++ percentD true 2 ymd.day

/-- `buf` is not initialized. -/
def toIsoString (buf : List UInt8) (julianDateNumber_ : Int) : Option (List UInt8) := do
  let ymd ← getYearMonthDay julianDateNumber_
  pure (formatBuf buf 32 (isoText ymd))

end Date

/-! ### One number -/

variable {z : Bool} {w k : Nat} {m n : Int} {c : UInt8} {text buf : List UInt8}

theorem spell_lt : ∀ d < 10, ∀ d' < 10, spellDecimal d < spellDecimal d' ↔ d < d' := by decide

theorem numeral_digits (n : Nat) : ∀ d ∈ numeral 10 n, d < 10 := fun _ =>
  Numeral.numeral_lt (by decide)

theorem padded_digits (w n : Nat) : ∀ d ∈ padded w (numeral 10 n), d < 10 := by
  intro d hd
  obtain hd | hd := List.mem_append.mp hd
  · rw [List.eq_of_mem_replicate hd]
    decide
  · exact numeral_digits n d hd

/-- A number is written with digits, a sign and blanks. -/
theorem mem_percentD (h : c ∈ percentD z w n) : c = 45 ∨ c = 32 ∨ 48 ≤ c ∧ c ≤ 57 := by
  have hdigit : ∀ d < 10, 48 ≤ spellDecimal d ∧ spellDecimal d ≤ 57 := by decide
  have hnumeral (hc : c ∈ (numeral 10 n.natAbs).map spellDecimal) : 48 ≤ c ∧ c ≤ 57 := by
    obtain ⟨d, hd, rfl⟩ := List.mem_map.mp hc
    exact hdigit d (numeral_digits _ d hd)
  have hsign (hc : c ∈ if n < 0 then [(45 : UInt8)] else []) : c = 45 := by
    split at hc
    · exact List.mem_singleton.mp hc
    · cases hc
  unfold percentD at h
  dsimp only at h
  split at h <;> obtain h | hc := List.mem_append.mp h
  · obtain hc | hc := List.mem_append.mp h
    · exact .inl (hsign hc)
    · rw [List.eq_of_mem_replicate hc]
      exact .inr (.inr (by decide))
  · exact .inr (.inr (hnumeral hc))
  · obtain hc | hc := List.mem_append.mp h
    · exact .inr (.inl (List.eq_of_mem_replicate hc))
    · exact .inl (hsign hc)
  · exact .inr (.inr (hnumeral hc))

/-- Its digits are worth its absolute value. -/
theorem value_digits (z : Bool) (w : Nat) (n : Int) : ∃ l : List Nat,
    (percentD z w n).filter (48 ≤ ·) = l.map spellDecimal ∧ (∀ d ∈ l, d < 10) ∧
      Numeral.value 10 l = n.natAbs := by
  have hdigit : ∀ d < 10, 48 ≤ spellDecimal d := by decide
  have hkeep : ((numeral 10 n.natAbs).map spellDecimal).filter (48 ≤ ·) =
      (numeral 10 n.natAbs).map spellDecimal := by
    refine List.filter_eq_self.mpr fun c hc => ?_
    obtain ⟨d, hd, rfl⟩ := List.mem_map.mp hc
    exact decide_eq_true (hdigit d (numeral_digits _ d hd))
  have hsign : (if n < 0 then [(45 : UInt8)] else []).filter (48 ≤ ·) = [] := by
    split <;> decide
  unfold percentD
  dsimp only
  generalize w - _ = fill
  split
  · refine ⟨List.replicate fill 0 ++ numeral 10 n.natAbs, ?_, ?_, ?_⟩
    · rw [List.filter_append, List.filter_append, hsign, hkeep, List.nil_append,
        List.filter_replicate_of_pos (by decide), List.map_append, List.map_replicate]
      rfl
    · intro d hd
      obtain hd | hd := List.mem_append.mp hd
      · rw [List.eq_of_mem_replicate hd]
        decide
      · exact numeral_digits _ d hd
    · rw [Numeral.value_replicate_append, Numeral.value_numeral]
  · refine ⟨numeral 10 n.natAbs, ?_, numeral_digits _, Numeral.value_numeral 10 _⟩
    rw [List.filter_append, List.filter_append, hsign, hkeep,
      List.filter_replicate_of_neg (by decide), List.nil_append, List.nil_append]

/-- Its sign tells whether it is negative. -/
theorem sign_mem_iff (z : Bool) (w : Nat) (n : Int) : 45 ∈ percentD z w n ↔ n < 0 := by
  have hdigit : ∀ d < 10, spellDecimal d ≠ 45 := by decide
  have hnumeral : 45 ∉ (numeral 10 n.natAbs).map spellDecimal := by
    intro hc
    obtain ⟨d, hd, heq⟩ := List.mem_map.mp hc
    exact hdigit d (numeral_digits _ d hd) heq
  have hfill (fill : Nat) (c : UInt8) (hc : c ≠ 45) : 45 ∉ List.replicate fill c :=
    fun hmem => hc (List.eq_of_mem_replicate hmem).symm
  unfold percentD
  dsimp only
  split <;> split <;> simp only [List.mem_append, List.mem_singleton, List.not_mem_nil, hnumeral,
    hfill _ 48 (by decide), hfill _ 32 (by decide), false_or, or_false, true_iff, false_iff] <;>
    assumption

/-- The text tells the number, whatever its width. -/
theorem percentD_eq_iff : percentD z w m = percentD z w n ↔ m = n := by
  refine ⟨fun h => ?_, congrArg _⟩
  obtain ⟨l, hl, hdigits, hvalue⟩ := value_digits z w m
  obtain ⟨l', hl', hdigits', hvalue'⟩ := value_digits z w n
  have hsame : l = l' := Numeral.eq_of_spell detail.read_spellDecimal hdigits hdigits'
    (by rw [← hl, ← hl', h])
  have habs : m.natAbs = n.natAbs := by rw [← hvalue, ← hvalue', hsame]
  have hsign : m < 0 ↔ n < 0 := by rw [← sign_mem_iff z w, ← sign_mem_iff z w, h]
  omega

theorem length_percentD_le (hk : 0 < k) (h : n.natAbs < 10 ^ k) :
    (percentD z w n).length ≤ max w (k + 1) := by
  have hlength := Numeral.length_numeral_le (by decide) hk h
  have hsign : (if n < 0 then [(45 : UInt8)] else []).length ≤ 1 := by split <;> simp
  unfold percentD
  dsimp only
  generalize (if n < 0 then [(45 : UInt8)] else []) = sign at hsign ⊢
  split <;> simp only [List.length_append, List.length_replicate, List.length_map] <;> omega

/-- Numbers of one width are ordered as their texts are. -/
theorem percentD_lt_iff (hw : 0 < w) (hm : 0 ≤ m ∧ m < 10 ^ w) (hn : 0 ≤ n ∧ n < 10 ^ w) :
    percentD true w m < percentD true w n ↔ m < n := by
  have hlength {n : Int} (h : 0 ≤ n ∧ n < 10 ^ w) :
      (padded w (numeral 10 n.natAbs)).length = w := by
    have hlength := Logger.length_percentD hw h.1 h.2
    rwa [Logger.percentD_zeros h.1, List.length_map] at hlength
  rw [Logger.percentD_zeros hm.1, Logger.percentD_zeros hn.1,
    Numeral.spell_lt_iff detail.read_spellDecimal spell_lt (padded_digits _ _) (padded_digits _ _),
    Numeral.lt_iff_value_lt (by decide) (padded_digits _ _) (padded_digits _ _)
      ((hlength hm).trans (hlength hn).symm),
    Numeral.value_padded, Numeral.value_padded, Numeral.value_numeral, Numeral.value_numeral]
  omega

/-! ### The array -/

/-- A text that fits is there with its `NUL`. -/
theorem take_snprintf (h : text.length < buf.length) :
    (snprintf buf text).take (text.length + 1) = text ++ [0] := by
  have hall : text.take (buf.length - 1) = text := List.take_of_length_le (by omega)
  have hlength : (text ++ [0]).length = text.length + 1 := by simp
  have hstore : (Bytes.store buf 0 (text ++ [0])).take (0 + (text ++ [0]).length) =
      buf.take 0 ++ (text ++ [0]).take (text ++ [0]).length :=
    Bytes.take_store buf (text ++ [0]) (by omega) (Nat.le_refl _)
  rw [Nat.zero_add, List.take_length, hlength] at hstore
  rw [snprintf, hall, hstore, List.take_zero, List.nil_append]

theorem formatBuf_eq {n : Nat} (hbuf : n ≤ buf.length) (htext : text.length < n) (hnul : 0 ∉ text) :
    formatBuf buf n text = text := by
  have hlength : text.length < (buf.take n).length := by rwa [List.length_take_of_le hbuf]
  rw [formatBuf, ← List.take_append_drop (text.length + 1) (snprintf _ _), take_snprintf hlength,
    List.append_assoc, List.append_assoc, List.takeWhile_append_of_pos]
  · simp
  · intro c hc
    simpa using fun heq : c = 0 => hnul (heq ▸ hc)

/-! ### The calendar -/

variable {x y : Int} {tm tm' : Tm}

/-- A year is before another exactly if its days are. -/
theorem year_lt_iff {t : Gregorian.Date} (h : t.Valid) (year : Int) :
    t.year < year ↔ Gregorian.toDays t < Gregorian.toDays ⟨year, 1, 1⟩ := by
  have hfirst : (⟨year, 1, 1⟩ : Gregorian.Date).Valid :=
    ⟨(by decide : (1 : Int) ≤ 1 ∧ (1 : Int) ≤ 12), le_rfl, Gregorian.daysOfMonth_pos year 1⟩
  have hmonth := h.month
  have hday := h.day
  rw [Gregorian.toDays_lt_iff h hfirst, Gregorian.Date.lt_def]
  dsimp only
  omega

theorem civil_year_lt_iff (x year : Int) : (civil x).tm_year + 1900 < year ↔
    x / 86400 + Posix.epochDays < Gregorian.toDays ⟨year, 1, 1⟩ := by
  have hcount := Gregorian.toDays_ofDays (x / 86400 + Posix.epochDays)
  rw [← hcount, ← year_lt_iff (Gregorian.ofDays_valid _), ← TimeZone.dateOf_civil]
  rfl

/-- All fields but the year have two digits. -/
structure TwoDigits (tm : Tm) : Prop where
  mon : 0 ≤ tm.tm_mon + 1 ∧ tm.tm_mon + 1 < 10 ^ 2
  mday : 0 ≤ tm.tm_mday ∧ tm.tm_mday < 10 ^ 2
  hour : 0 ≤ tm.tm_hour ∧ tm.tm_hour < 10 ^ 2
  min : 0 ≤ tm.tm_min ∧ tm.tm_min < 10 ^ 2
  sec : 0 ≤ tm.tm_sec ∧ tm.tm_sec < 10 ^ 2

theorem twoDigits_civil (x : Int) : TwoDigits (civil x) := by
  have hdate := Posix.civil_date_bounds x
  have hclock := Posix.civil_clock_bounds x
  constructor <;> omega

theorem length_two (h : 0 ≤ n ∧ n < 10 ^ 2) : (percentD true 2 n).length = 2 :=
  Logger.length_percentD (by decide) h.1 h.2

/-- What follows the year has 13 bytes. -/
theorem TwoDigits.length_dateTime (h : TwoDigits tm) :
    (dateTime tm).length = (percentD false 4 (tm.tm_year + 1900)).length + 13 := by
  simp only [dateTime, List.length_append, length_two h.mon, length_two h.mday, length_two h.hour,
    length_two h.min, length_two h.sec, List.length_singleton]

/-- A text tells the second, whatever the width of its year. -/
theorem dateTime_civil_eq_iff : dateTime (civil x) = dateTime (civil y) ↔ x = y := by
  refine ⟨fun h => ?_, fun h => by rw [h]⟩
  have hx := twoDigits_civil x
  have hy := twoDigits_civil y
  obtain ⟨h, hsec⟩ := List.append_inj' h (by rw [length_two hx.sec, length_two hy.sec])
  obtain ⟨h, hmin⟩ := List.append_inj' (List.append_cancel_right h)
    (by rw [length_two hx.min, length_two hy.min])
  obtain ⟨h, hhour⟩ := List.append_inj' (List.append_cancel_right h)
    (by rw [length_two hx.hour, length_two hy.hour])
  obtain ⟨h, hmday⟩ := List.append_inj' (List.append_cancel_right h)
    (by rw [length_two hx.mday, length_two hy.mday])
  obtain ⟨hyear, hmon⟩ := List.append_inj' h (by rw [length_two hx.mon, length_two hy.mon])
  rw [percentD_eq_iff] at hyear hmon hmday hhour hmin hsec
  rw [← Posix.timegm_civil x, ← Posix.timegm_civil y]
  simp only [Posix.timegm, hyear, add_right_cancel hmon, hmday, hhour, hmin, hsec]

/-- A year of four digits. -/
def YearFits (year : Int) : Prop := 1000 ≤ year ∧ year < 10 ^ 4

theorem percentD_year_lt_iff {year year' : Int} (h : YearFits year) (h' : YearFits year') :
    percentD false 4 year < percentD false 4 year' ↔ year < year' := by
  rw [Logger.percentD_year h.1, Logger.percentD_year h'.1]
  exact percentD_lt_iff (by decide) ⟨by have := h.1; omega, h.2⟩ ⟨by have := h'.1; omega, h'.2⟩

theorem length_year {year : Int} (h : YearFits year) : (percentD false 4 year).length = 4 := by
  rw [Logger.percentD_year h.1]
  exact Logger.length_percentD (by decide) (by have := h.1; omega) h.2

/-- Fields of four and of two digits are compared before what follows them. -/
theorem year_append_lt_iff {year year' : Int} {s s' : List UInt8} (h : YearFits year)
    (h' : YearFits year') : percentD false 4 year ++ s < percentD false 4 year' ++ s' ↔
      year < year' ∨ year = year' ∧ s < s' := by
  rw [append_lt_append_iff (by rw [length_year h, length_year h']), percentD_year_lt_iff h h',
    percentD_eq_iff]

theorem two_append_lt_iff {s s' : List UInt8} (hm : 0 ≤ m ∧ m < 10 ^ 2) (hn : 0 ≤ n ∧ n < 10 ^ 2) :
    percentD true 2 m ++ s < percentD true 2 n ++ s' ↔ m < n ∨ m = n ∧ s < s' := by
  rw [append_lt_append_iff (by rw [length_two hm, length_two hn]), percentD_lt_iff (by decide) hm hn,
    percentD_eq_iff]

/-- The days are ordered as their dates. -/
theorem dateOf_civil_lt_iff :
    TimeZone.dateOf (civil x) < TimeZone.dateOf (civil y) ↔ x / 86400 < y / 86400 := by
  rw [TimeZone.dateOf_civil, TimeZone.dateOf_civil,
    ← Gregorian.toDays_lt_iff (Gregorian.ofDays_valid _) (Gregorian.ofDays_valid _),
    Gregorian.toDays_ofDays, Gregorian.toDays_ofDays]
  omega

theorem dateOf_civil_eq_iff :
    TimeZone.dateOf (civil x) = TimeZone.dateOf (civil y) ↔ x / 86400 = y / 86400 := by
  rw [TimeZone.dateOf_civil, TimeZone.dateOf_civil]
  refine ⟨fun h => ?_, fun h => by rw [h]⟩
  have hcount := congrArg Gregorian.toDays h
  rw [Gregorian.toDays_ofDays, Gregorian.toDays_ofDays] at hcount
  omega

/-- What counts first, and what counts where it agrees: the quotient and the remainder. -/
theorem div_lex_iff (m n : Int) {k : Int} (hk : 0 < k) (p : Prop) :
    (m / k < n / k ∨ m / k = n / k ∧ (m % k < n % k ∨ m % k = n % k ∧ p)) ↔ m < n ∨ m = n ∧ p := by
  have hm := Int.mul_ediv_add_emod m k
  have hn := Int.mul_ediv_add_emod n k
  have hmod := Int.emod_nonneg m hk.ne'
  have hmod' := Int.emod_lt_of_pos m hk
  have hnmod := Int.emod_nonneg n hk.ne'
  have hnmod' := Int.emod_lt_of_pos n hk
  rcases lt_trichotomy (m / k) (n / k) with hlt | heq | hgt
  · have hstep : k * (m / k + 1) ≤ k * (n / k) := Int.mul_le_mul_of_nonneg_left hlt hk.le
    rw [Int.mul_add, Int.mul_one] at hstep
    exact iff_of_true (.inl hlt) (.inl (by omega))
  · rw [heq] at hm
    have hless : m < n ↔ m % k < n % k := by omega
    have hsame : m = n ↔ m % k = n % k := by omega
    rw [hless, hsame, heq]
    simp
  · have hstep : k * (n / k + 1) ≤ k * (m / k) := Int.mul_le_mul_of_nonneg_left hgt hk.le
    rw [Int.mul_add, Int.mul_one] at hstep
    exact iff_of_false (by omega) (by omega)

/-- The texts of seconds, and what follows them, are ordered as the seconds are, as long as the
years have four digits. -/
theorem dateTime_append_lt_iff {s s' : List UInt8} (hx : YearFits ((civil x).tm_year + 1900))
    (hy : YearFits ((civil y).tm_year + 1900)) :
    dateTime (civil x) ++ s < dateTime (civil y) ++ s' ↔ x < y ∨ x = y ∧ s < s' := by
  have fx := twoDigits_civil x
  have fy := twoDigits_civil y
  have hdate := dateOf_civil_lt_iff (x := x) (y := y)
  have hsame := dateOf_civil_eq_iff (x := x) (y := y)
  simp only [TimeZone.dateOf, Gregorian.Date.lt_def, Gregorian.Date.mk.injEq] at hdate hsame
  simp only [dateTime, List.append_assoc, List.cons_append, List.nil_append]
  rw [year_append_lt_iff hx hy, two_append_lt_iff fx.mon fy.mon, two_append_lt_iff fx.mday fy.mday,
    List.cons_lt_cons_self, two_append_lt_iff fx.hour fy.hour, List.cons_lt_cons_self,
    two_append_lt_iff fx.min fy.min, List.cons_lt_cons_self, two_append_lt_iff fx.sec fy.sec]
  have hhour (x : Int) : (civil x).tm_hour = x % 86400 / 60 / 60 := by
    dsimp only [civil]
    omega
  have hclock := div_lex_iff (x % 86400 / 60) (y % 86400 / 60) (by decide : (0 : Int) < 60)
    ((civil x).tm_sec < (civil y).tm_sec ∨ (civil x).tm_sec = (civil y).tm_sec ∧ s < s')
  have hday := div_lex_iff x y (by decide : (0 : Int) < 86400) (s < s')
  rw [hhour, hhour, show (civil x).tm_min = x % 86400 / 60 % 60 from rfl,
    show (civil y).tm_min = y % 86400 / 60 % 60 from rfl, hclock,
    show (civil x).tm_sec = x % 86400 % 60 from rfl, show (civil y).tm_sec = y % 86400 % 60 from rfl,
    div_lex_iff _ _ (by decide), ← hday, ← hdate, ← hsame]
  simp only [and_or_left, and_assoc, or_assoc]

/-- A byte that is no digit, sign, blank or colon. -/
def Foreign (c : UInt8) : Prop := c ≠ 45 ∧ c ≠ 32 ∧ c ≠ 58 ∧ (c < 48 ∨ 57 < c)

theorem Foreign.not_mem_percentD (h : Foreign c) : c ∉ percentD z w n := by
  obtain ⟨hsign, hblank, -, hdigit⟩ := h
  intro hc
  obtain rfl | rfl | ⟨hlow, hhigh⟩ := mem_percentD hc
  · exact hsign rfl
  · exact hblank rfl
  · rcases hdigit with hlt | hgt
    · exact absurd hlow (UInt8.not_le.mpr hlt)
    · exact absurd hhigh (UInt8.not_le.mpr hgt)

theorem Foreign.not_mem_dateTime (h : Foreign c) : c ∉ dateTime tm := by
  simp only [dateTime, List.mem_append, h.not_mem_percentD, List.mem_singleton, h.2.1, h.2.2.1,
    or_self, not_false_eq_true]

theorem foreign_nul : Foreign 0 := by
  unfold Foreign
  decide

theorem foreign_dot : Foreign 46 := by
  unfold Foreign
  decide

/-! ### Timestamps -/

namespace Timestamp
variable {x y : Int64} {showMicroSeconds : Bool}

/-- A timestamp is its seconds and its microseconds, both towards zero. -/
theorem toInt_eq (x : Int64) : x.toInt = secondsFromEpoch x * 1000000 + microSeconds x :=
  (Int.tdiv_mul_add_tmod ..).symm

theorem microSeconds_bounds (x : Int64) : -1000000 < microSeconds x ∧ microSeconds x < 1000000 :=
  ⟨Int.lt_tmod_of_pos _ (by decide), Int.tmod_lt_of_pos _ (by decide)⟩

theorem seconds_bounds (x : Int64) :
    -9223372036855 ≤ secondsFromEpoch x ∧ secondsFromEpoch x ≤ 9223372036855 := by
  have hlow : -2 ^ 63 ≤ x.toInt := x.le_toInt
  have hhigh : x.toInt < 2 ^ 63 := x.toInt_lt
  have hsum := toInt_eq x
  have hmicro := microSeconds_bounds x
  omega

/-- From 1970 on the division is the one of the calendar. -/
theorem of_nonneg (h : 0 ≤ x.toInt) :
    secondsFromEpoch x = x.toInt / 1000000 ∧ microSeconds x = x.toInt % 1000000 :=
  ⟨Int.tdiv_eq_ediv_of_nonneg h, Int.tmod_eq_emod_of_nonneg h⟩

theorem shown_eq_iff : shown showMicroSeconds x = shown showMicroSeconds y ↔
    secondsFromEpoch x = secondsFromEpoch y ∧
      (showMicroSeconds = true → microSeconds x = microSeconds y) := by
  have hx := toInt_eq x
  have hy := toInt_eq y
  cases showMicroSeconds with
  | false => simp [shown]
  | true =>
    have hseconds (h : x.toInt = y.toInt) : secondsFromEpoch x = secondsFromEpoch y :=
      congrArg (Int.tdiv · kMicroSecondsPerSecond) h
    simp only [shown, if_true, true_implies]
    exact ⟨fun h => ⟨hseconds h, by have := hseconds h; omega⟩, fun h => by omega⟩

/-- The year of a timestamp has six digits at most. -/
theorem year_bounds (x : Int64) : -300000 ≤ (civil (secondsFromEpoch x)).tm_year + 1900 ∧
    (civil (secondsFromEpoch x)).tm_year + 1900 < 300000 := by
  have hseconds := seconds_bounds x
  have hepoch : Posix.epochDays = 719468 := rfl
  have hfirst : Gregorian.toDays ⟨-300000, 1, 1⟩ = -109572810 := rfl
  have hlast : Gregorian.toDays ⟨300000, 1, 1⟩ = 109572690 := rfl
  have hlow := civil_year_lt_iff (secondsFromEpoch x) (-300000)
  have hhigh := civil_year_lt_iff (secondsFromEpoch x) 300000
  omega

theorem gmtime_r_seconds (x : Int64) :
    Posix.gmtime_r (secondsFromEpoch x) = some (civil (secondsFromEpoch x)) := by
  have hyear := year_bounds x
  exact if_pos ⟨by omega, by omega⟩

theorem FourDigits.year (h : FourDigits x) :
    YearFits ((civil (secondsFromEpoch x)).tm_year + 1900) := by
  obtain ⟨hlow, hhigh⟩ := h
  have hseconds := (of_nonneg hlow).1
  have hepoch : Posix.epochDays = 719468 := rfl
  have hfirst : Gregorian.toDays ⟨1000, 1, 1⟩ = 365183 := rfl
  have hlast : Gregorian.toDays ⟨10 ^ 4, 1, 1⟩ = 3652365 := rfl
  have hafter := civil_year_lt_iff (secondsFromEpoch x) 1000
  have hbefore := civil_year_lt_iff (secondsFromEpoch x) (10 ^ 4)
  unfold YearFits
  omega

/-! ### What is written -/

theorem length_microSeconds (x : Int64) : (percentD true 6 (microSeconds x)).length ≤ 7 := by
  have hmicro := microSeconds_bounds x
  have hdigits : (microSeconds x).natAbs < 10 ^ 6 := by omega
  exact length_percentD_le (by decide) hdigits

theorem toString_eq (x : Int64) : toString x = plain x := by
  have hseconds := seconds_bounds x
  have hdigits : (secondsFromEpoch x).natAbs < 10 ^ 13 := by omega
  have hlength : (percentD false 0 (secondsFromEpoch x)).length ≤ 14 :=
    length_percentD_le (by decide) hdigits
  have hmicro := length_microSeconds x
  refine formatBuf_eq (by decide) ?_ ?_
  · simp only [List.length_append, List.length_singleton]
    unfold secondsFromEpoch at hlength
    unfold microSeconds at hmicro
    omega
  · simp [foreign_nul.not_mem_percentD]

theorem length_formatted (showMicroSeconds : Bool) (x : Int64) :
    (formatted showMicroSeconds x).length < 32 := by
  have hyear := year_bounds x
  have hdigits : ((civil (secondsFromEpoch x)).tm_year + 1900).natAbs < 10 ^ 6 := by omega
  have hlength : (percentD false 4 ((civil (secondsFromEpoch x)).tm_year + 1900)).length ≤ 7 :=
    length_percentD_le (by decide) hdigits
  have hmicro := length_microSeconds x
  rw [formatted, List.length_append, (twoDigits_civil _).length_dateTime]
  split
  · simp only [List.length_append, List.length_singleton]
    omega
  · simp only [List.length_nil]
    omega

theorem toFormattedString_eq (P : Int) (x : Int64) :
    toFormattedString (Libc.zoned P) x showMicroSeconds = .ok (formatted showMicroSeconds x) := by
  have hgm : (Libc.zoned P).gmtime_r (secondsFromEpoch x) = some (civil (secondsFromEpoch x)) :=
    gmtime_r_seconds x
  have hlength := length_formatted showMicroSeconds x
  have hmicro := microSeconds_bounds x
  have hcast : TimeZone.toInt (x.toInt.tmod kMicroSecondsPerSecond) = microSeconds x :=
    TimeZone.toInt_of (by unfold microSeconds at hmicro; omega)
      (by unfold microSeconds at hmicro; omega)
  have hnul : 0 ∉ formatted showMicroSeconds x := by
    unfold formatted
    split <;> simp [foreign_nul.not_mem_percentD, foreign_nul.not_mem_dateTime]
  rw [toFormattedString, hgm, deref_some, ok_bind, hcast]
  cases showMicroSeconds with
  | false =>
    have hwhole : formatted false x = dateTime (civil (secondsFromEpoch x)) := List.append_nil _
    rw [hwhole] at hlength hnul ⊢
    exact congrArg Except.ok (formatBuf_eq (by decide) hlength hnul)
  | true =>
    rw [if_pos rfl]
    dsimp only
    rw [List.append_assoc]
    exact congrArg Except.ok (formatBuf_eq (by decide) hlength hnul)

/-! ### What is told -/

theorem plain_eq_iff : plain x = plain y ↔ x = y := by
  refine ⟨fun h => ?_, fun h => by rw [h]⟩
  simp only [plain, List.append_assoc, List.cons_append, List.nil_append] at h
  obtain ⟨hseconds, -, hmicro⟩ := (List.append_cons_inj_of_notMem foreign_dot.not_mem_percentD
    foreign_dot.not_mem_percentD).mp h
  rw [percentD_eq_iff] at hseconds hmicro
  exact Int64.toInt_inj.mp (by rw [toInt_eq, toInt_eq y, hseconds, hmicro])

theorem formatted_eq_iff : formatted showMicroSeconds x = formatted showMicroSeconds y ↔
    shown showMicroSeconds x = shown showMicroSeconds y := by
  rw [shown_eq_iff]
  cases showMicroSeconds with
  | false => simp [formatted, dateTime_civil_eq_iff]
  | true =>
    simp only [formatted, if_true, List.cons_append, List.nil_append, true_implies]
    rw [List.append_cons_inj_of_notMem foreign_dot.not_mem_dateTime foreign_dot.not_mem_percentD,
      dateTime_civil_eq_iff, percentD_eq_iff, eq_self, true_and]

theorem formatted_lt_iff (hx : FourDigits x) (hy : FourDigits y) :
    formatted showMicroSeconds x < formatted showMicroSeconds y ↔
      shown showMicroSeconds x < shown showMicroSeconds y := by
  obtain ⟨hsx, hmx⟩ := of_nonneg hx.1
  obtain ⟨hsy, hmy⟩ := of_nonneg hy.1
  rw [formatted, formatted, dateTime_append_lt_iff hx.year hy.year]
  cases showMicroSeconds with
  | false => simp [shown]
  | true =>
    simp only [if_true, List.cons_append, List.nil_append, List.cons_lt_cons_self, shown]
    rw [percentD_lt_iff (by decide) (by omega) (by omega), hsx, hsy, hmx, hmy]
    omega

/-- **Every timestamp is written in full, its text tells it, and from 1970 to the end of 9999 the
texts sort as the timestamps do.** A text without microseconds tells the second. -/
theorem timestamp_texts (P : Int) (x y : Int64) :
    (toString x = plain x ∧ (toString x = toString y ↔ x = y)) ∧
    ∀ showMicroSeconds, ∃ s t,
      toFormattedString (Libc.zoned P) x showMicroSeconds = .ok s ∧
      toFormattedString (Libc.zoned P) y showMicroSeconds = .ok t ∧
      s = formatted showMicroSeconds x ∧
      (s = t ↔ shown showMicroSeconds x = shown showMicroSeconds y) ∧
      (FourDigits x → FourDigits y →
        (s < t ↔ shown showMicroSeconds x < shown showMicroSeconds y)) :=
  ⟨⟨toString_eq x, by rw [toString_eq, toString_eq, plain_eq_iff]⟩, fun _ =>
    ⟨_, _, toFormattedString_eq P x, toFormattedString_eq P y, rfl, formatted_eq_iff,
      formatted_lt_iff⟩⟩

end Timestamp

/-! ### Dates -/

namespace Date
open Gregorian (ofDays toDays)
variable {j k : Int} {a b : YearMonthDay} {x : Int64} {showMicroSeconds : Bool}

/-- The numbers of the dates from -4800-03-01 on, as far as `getYearMonthDay` reads them without
overflow. -/
def Readable (j : Int) : Prop := -32044 ≤ j ∧ j ≤ 536838867

theorem Readable.eq (h : Readable j) : getYearMonthDay j = some (ofDays (j - 1721120)) :=
  getYearMonthDay_eq h.1 h.2

theorem Readable.year (h : Readable j) :
    -10000 ≤ (ofDays (j - 1721120)).year ∧ (ofDays (j - 1721120)).year < 2000000 := by
  obtain ⟨hlow, hhigh⟩ := h
  have hcount := Gregorian.toDays_ofDays (j - 1721120)
  have hfirst : toDays ⟨-10000, 1, 1⟩ = -3652485 := rfl
  have hlast : toDays ⟨2000000, 1, 1⟩ = 730484940 := rfl
  have hbefore := year_lt_iff (Gregorian.ofDays_valid (j - 1721120)) (-10000)
  have hafter := year_lt_iff (Gregorian.ofDays_valid (j - 1721120)) 2000000
  omega

/-- The month and the day of a valid date have two digits. -/
theorem twoDigits_date (h : a.Valid) : (0 ≤ a.month ∧ a.month < 10 ^ 2) ∧
    (0 ≤ a.day ∧ a.day < 10 ^ 2) := by
  obtain ⟨⟨hmonth, hmonth'⟩, hday, hday'⟩ := h
  have hlast : Gregorian.daysOfMonth a.year a.month ≤ 31 := by
    unfold Gregorian.daysOfMonth
    split <;> split <;> omega
  omega

theorem toIsoString_eq (hbuf : buf.length = 32) (h : Readable j) :
    toIsoString buf j = some (isoText (ofDays (j - 1721120))) := by
  have hyear := h.year
  have hdigits : (ofDays (j - 1721120)).year.natAbs < 10 ^ 7 := by omega
  have hlength : (percentD false 4 (ofDays (j - 1721120)).year).length ≤ 8 :=
    length_percentD_le (by decide) hdigits
  obtain ⟨hmonth, hday⟩ := twoDigits_date (Gregorian.ofDays_valid (j - 1721120))
  rw [toIsoString, h.eq]
  refine congrArg some (formatBuf_eq (by rw [hbuf]) ?_ ?_)
  · simp only [isoText, List.length_append, List.length_singleton, length_two hmonth,
      length_two hday]
    omega
  · simp [isoText, foreign_nul.not_mem_percentD]

theorem isoText_eq_iff (ha : a.Valid) (hb : b.Valid) : isoText a = isoText b ↔ a = b := by
  refine ⟨fun h => ?_, fun h => by rw [h]⟩
  obtain ⟨hmonth, hday⟩ := twoDigits_date ha
  obtain ⟨hmonth', hday'⟩ := twoDigits_date hb
  obtain ⟨h, hd⟩ := List.append_inj' h (by rw [length_two hday, length_two hday'])
  obtain ⟨h, hm⟩ := List.append_inj' (List.append_cancel_right h)
    (by rw [length_two hmonth, length_two hmonth'])
  have hy := List.append_cancel_right h
  rw [percentD_eq_iff] at hy hm hd
  obtain ⟨year, month, day⟩ := a
  obtain ⟨year', month', day'⟩ := b
  exact Gregorian.Date.mk.injEq .. ▸ ⟨hy, hm, hd⟩

theorem isoText_lt_iff (ha : a.Valid) (hb : b.Valid) (hy : YearFits a.year) (hy' : YearFits b.year) :
    isoText a < isoText b ↔ a < b := by
  obtain ⟨hmonth, hday⟩ := twoDigits_date ha
  obtain ⟨hmonth', hday'⟩ := twoDigits_date hb
  simp only [isoText, List.append_assoc, List.cons_append, List.nil_append]
  rw [year_append_lt_iff hy hy', List.cons_lt_cons_self, two_append_lt_iff hmonth hmonth',
    List.cons_lt_cons_self, percentD_lt_iff (by decide) hday hday', Gregorian.Date.lt_def]

/-- **A date is written in full, its text tells it, and from 1000 to 9999 the texts sort as the
dates do.** -/
theorem date_texts (hbuf : buf.length = 32) (hj : Readable j) (hk : Readable k) : ∃ a b,
    getYearMonthDay j = some a ∧ getYearMonthDay k = some b ∧
    toIsoString buf j = some (isoText a) ∧ toIsoString buf k = some (isoText b) ∧
    (isoText a = isoText b ↔ j = k) ∧
    (YearFits a.year → YearFits b.year → (isoText a < isoText b ↔ less j k = true)) := by
  have hvalid := Gregorian.ofDays_valid
  refine ⟨_, _, hj.eq, hk.eq, toIsoString_eq hbuf hj, toIsoString_eq hbuf hk, ?_, fun hy hy' => ?_⟩
  · rw [isoText_eq_iff (hvalid _) (hvalid _)]
    refine ⟨fun h => ?_, fun h => by rw [h]⟩
    have hcount := congrArg toDays h
    rw [Gregorian.toDays_ofDays, Gregorian.toDays_ofDays] at hcount
    omega
  · rw [isoText_lt_iff (hvalid _) (hvalid _) hy hy',
      ← Gregorian.toDays_lt_iff (hvalid _) (hvalid _), Gregorian.toDays_ofDays,
      Gregorian.toDays_ofDays, less, decide_eq_true_iff]
    omega

/-- From the epoch to the year 2000. -/
theorem date_texts_years : ∃ a b, getYearMonthDay 2440588 = some a ∧ getYearMonthDay 2451545 = some b ∧
    toIsoString (List.replicate 32 255) 2440588 = some (isoText a) ∧
    toIsoString (List.replicate 32 255) 2451545 = some (isoText b) ∧
    (isoText a = isoText b ↔ (2440588 : Int) = 2451545) ∧
    (YearFits a.year → YearFits b.year → (isoText a < isoText b ↔ less 2440588 2451545 = true)) :=
  date_texts (by decide) ⟨by decide, by decide⟩ ⟨by decide, by decide⟩

/-! ### The day of a timestamp -/

/-- The number of the day of a second, from the broken-down time. -/
theorem ofTm_civil {s : Int} (hlow : 0 ≤ s) (hhigh : s ≤ 9223372036855) :
    ofTm (civil s) = some (s / 86400 + 2440588) := by
  have hepoch : Posix.epochDays = 719468 := rfl
  have hcount := Gregorian.toDays_ofDays (s / 86400 + Posix.epochDays)
  have hvalid := Gregorian.ofDays_valid (s / 86400 + Posix.epochDays)
  have hmonth := hvalid.month
  obtain ⟨hfirst, hlast⟩ := marchYear_bounds hvalid (by omega) (by omega)
  obtain ⟨hmarch, hmarch', -, hyear⟩ := hvalid.march
  have hnumber := getJulianDayNumber_eq hvalid hfirst hlast
  have hday : ofDays (s / 86400 + Posix.epochDays) = TimeZone.dateOf (civil s) :=
    (TimeZone.dateOf_civil s).symm
  have hy : (ofDays (s / 86400 + Posix.epochDays)).year = (civil s).tm_year + 1900 := by rw [hday]; rfl
  have hm : (ofDays (s / 86400 + Posix.epochDays)).month = (civil s).tm_mon + 1 := by rw [hday]; rfl
  have hd : (ofDays (s / 86400 + Posix.epochDays)).day = (civil s).tm_mday := by rw [hday]; rfl
  rw [hcount, hy, hm, hd] at hnumber
  rw [ofTm, bind_int32 (by omega) (by omega), bind_int32 (by omega) (by omega), hnumber]
  exact congrArg some (by omega)

theorem blank_not_mem {n : Int} (h : 0 ≤ n) : 32 ∉ percentD true w n := by
  have hdigit : ∀ d < 10, spellDecimal d ≠ 32 := by decide
  rw [Logger.percentD_zeros h]
  intro hc
  obtain ⟨d, hd, heq⟩ := List.mem_map.mp hc
  exact hdigit d (padded_digits _ _ d hd) heq

/-- A number that is not negative has no sign. -/
theorem filter_sign {n : Int} (h : 0 ≤ n) : (percentD z w n).filter (· ≠ 45) = percentD z w n :=
  List.filter_eq_self.mpr fun _ hc => decide_eq_true fun heq =>
    absurd ((sign_mem_iff z w n).mp (heq ▸ hc)) (Int.not_lt.mpr h)

/-- The day of a broken-down time, as both texts show it. -/
def dayText (tm : Tm) : List UInt8 :=
  percentD true 4 (tm.tm_year + 1900) ++ percentD true 2 (tm.tm_mon + 1) ++ percentD true 2 tm.tm_mday

theorem takeWhile_dateTime {rest : List UInt8} (h : 1000 ≤ tm.tm_year + 1900) (ht : TwoDigits tm) :
    (dateTime tm ++ rest).takeWhile (· ≠ 32) = dayText tm := by
  have hblank : 32 ∉ dayText tm := by
    simp only [dayText, List.mem_append, blank_not_mem ht.mon.1, blank_not_mem ht.mday.1,
      blank_not_mem (by omega : 0 ≤ tm.tm_year + 1900), or_self, not_false_eq_true]
  have hsplit : dateTime tm ++ rest = dayText tm ++ 32 :: (percentD true 2 tm.tm_hour ++ [58] ++
      percentD true 2 tm.tm_min ++ [58] ++ percentD true 2 tm.tm_sec ++ rest) := by
    simp only [dateTime, dayText, Logger.percentD_year h, List.append_assoc, List.cons_append,
      List.nil_append]
  rw [hsplit, List.takeWhile_append_of_pos]
  · simp
  · intro c hc
    exact decide_eq_true fun heq => hblank (heq ▸ hc)

theorem filter_isoText (h : 1000 ≤ tm.tm_year + 1900) (ht : TwoDigits tm) :
    (isoText (TimeZone.dateOf tm)).filter (· ≠ 45) = dayText tm := by
  have hdash : ([45] : List UInt8).filter (· ≠ 45) = [] := by decide
  have hyear : 0 ≤ tm.tm_year + 1900 := by omega
  rw [isoText, TimeZone.dateOf, List.filter_append, List.filter_append, List.filter_append,
    List.filter_append, hdash, filter_sign hyear, filter_sign ht.mon.1, filter_sign ht.mday.1,
    List.append_nil, List.append_nil, Logger.percentD_year h, dayText]

/-- **The text of a timestamp begins with the day of the `Date` of its broken-down time**, without
the dashes, and the day of the week is the same. -/
theorem timestamp_date (P : Int) (hbuf : buf.length = 32) (h : 0 ≤ x.toInt) : ∃ tmt j s t,
    (Libc.zoned P).gmtime_r (Timestamp.secondsFromEpoch x) = some tmt ∧ ofTm tmt = some j ∧
    toIsoString buf j = some s ∧
    Timestamp.toFormattedString (Libc.zoned P) x showMicroSeconds = .ok t ∧
    t.takeWhile (· ≠ 32) = s.filter (· ≠ 45) ∧ weekDay j = some tmt.tm_wday := by
  have hseconds := Timestamp.seconds_bounds x
  have hepoch : Posix.epochDays = 719468 := rfl
  have hsec : 0 ≤ Timestamp.secondsFromEpoch x := by
    rw [(Timestamp.of_nonneg h).1]
    omega
  have hread : Readable (Timestamp.secondsFromEpoch x / 86400 + 2440588) := ⟨by omega, by omega⟩
  refine ⟨_, _, _, _, Timestamp.gmtime_r_seconds x, ofTm_civil hsec hseconds.2,
    toIsoString_eq hbuf hread, Timestamp.toFormattedString_eq P x, ?_, ?_⟩
  · have hyear : 1000 ≤ (civil (Timestamp.secondsFromEpoch x)).tm_year + 1900 := by
      have hfirst : toDays ⟨1000, 1, 1⟩ = 365183 := rfl
      have hafter := civil_year_lt_iff (Timestamp.secondsFromEpoch x) 1000
      omega
    have hdate : Timestamp.secondsFromEpoch x / 86400 + 2440588 - 1721120 =
        Timestamp.secondsFromEpoch x / 86400 + Posix.epochDays := by omega
    rw [Timestamp.formatted, takeWhile_dateTime hyear (twoDigits_civil _), hdate,
      ← TimeZone.dateOf_civil, filter_isoText hyear (twoDigits_civil _)]
  · rw [weekDay_eq (by omega) (by omega)]
    exact congrArg some (by dsimp only [civil]; omega)

/-- The first second of the year 2000, a Saturday. -/
theorem timestamp_date_saturday : ∃ tmt j s t,
    (Libc.zoned 0).gmtime_r (Timestamp.secondsFromEpoch 946684800000000) = some tmt ∧
    ofTm tmt = some j ∧ toIsoString (List.replicate 32 255) j = some s ∧
    Timestamp.toFormattedString (Libc.zoned 0) 946684800000000 true = .ok t ∧
    t.takeWhile (· ≠ 32) = s.filter (· ≠ 45) ∧ weekDay j = some tmt.tm_wday :=
  timestamp_date 0 (by decide) (by decide)

end Date
end Leanet

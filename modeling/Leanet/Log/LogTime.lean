import Leanet.Foundation.Machine
import Leanet.Log.Rendering
import Leanet.Time.TimeZone
import Leanet.Time.Utc

/-! The time of a log message.

`formatTime` keeps the text of the last second it has formatted, under that second alone. The text
is the one that formatting afresh would give exactly if the zone in force shows the same time as
the zone in which the second was formatted; nothing was, before the first call, although second 0
is taken for formatted (`log_time`).

The lengths it gives to the microseconds are one more than there are: a debug build stops there,
a release build lets the terminating `NUL` out as well. -/
namespace Leanet.Logger
open Bytes (store)
open Numeral (numeral padded)
open detail (spellDecimal)

def kMicroSecondsPerSecond : Int := 1000 * 1000

/-! ### `snprintf` -/

/-- `%<width>d`, or `%0<width>d`. -/
def percentD (zeros : Bool) (width : Nat) (n : Int) : List UInt8 :=
  let sign : List UInt8 := if n < 0 then [45] else []
  let digits := (numeral 10 n.natAbs).map spellDecimal
  let fill := width - (sign.length + digits.length)
  if zeros then sign ++ List.replicate fill 48 ++ digits else List.replicate fill 32 ++ sign ++ digits

/-- `"%4d%02d%02d %02d:%02d:%02d"`. -/
def dateTime (tmt : Tm) : List UInt8 :=
  percentD false 4 (tmt.tm_year + 1900) ++ percentD true 2 (tmt.tm_mon + 1) ++
    percentD true 2 tmt.tm_mday ++ [32] ++ percentD true 2 tmt.tm_hour ++ [58] ++
    percentD true 2 tmt.tm_min ++ [58] ++ percentD true 2 tmt.tm_sec

/-- What `snprintf` leaves in an array: the text as far as it fits, and a `NUL`. -/
def snprintf (buf text : List UInt8) : List UInt8 := store buf 0 (text.take (buf.length - 1) ++ [0])

/-! ### `formatTime` -/

structure State where
  g_timezone : TimeZone
  t_time : List UInt8
  t_lastSecond : Int
  /-- The zone in which `t_time` was formatted; no variable of the source. -/
  formatted : Option TimeZone

def initial : State := ⟨⟨none⟩, List.replicate 32 0, 0, none⟩

/-- The broken-down time of a second in a zone. -/
def breakDown (libc : Libc) (tz : TimeZone) (seconds : Int) : Except Fault Tm :=
  if tz.valid then tz.toLocalTime libc seconds else deref (libc.gmtime_r seconds)

/-- `StringHelper(str, len)`, of an array that holds `str`. -/
def stringHelper (build : Build) (str : List UInt8) (len : Nat) : Except Fault (List UInt8) := do
  build.assert ((str.takeWhile (· ≠ 0)).length = len)
  if len ≤ str.length then pure (str.take len) else .error .dangling

variable {SIZE : Nat}

/-- `formatTime`, up to the text of the second. -/
def cacheTime (build : Build) (libc : Libc) (s : State) (seconds : Int) : Except Fault State :=
  -- if output log message in one second, we use t_time
  if seconds ≠ s.t_lastSecond then do
    let tmt ← breakDown libc s.g_timezone seconds
    build.assert ((dateTime tmt).length = 17)
    pure { s with
      t_time := snprintf s.t_time (dateTime tmt)
      t_lastSecond := seconds
      formatted := some s.g_timezone }
  else pure s

/-- `us`, and what is streamed. -/
def streamTime (build : Build) (t_time us : List UInt8) (len : Nat) (stream_ : FixedBuffer SIZE) :
    Except Fault (FixedBuffer SIZE) := do
  build.assert (us.length < 32)
  build.assert (us.length = len)
  let stream_ ← stream_.append (← stringHelper build t_time 17)
  stream_.append (← stringHelper build (us ++ [0]) len)

def formatTime (build : Build) (libc : Libc) (s : State) (time_ : Int) (stream_ : FixedBuffer SIZE) :
    Except Fault (FixedBuffer SIZE × State) := do
  let seconds := TimeZone.toInt (time_.tdiv kMicroSecondsPerSecond)
  let microseconds := TimeZone.toInt (time_.tmod kMicroSecondsPerSecond)
  let s ← cacheTime build libc s seconds
  if s.g_timezone.valid then
    pure (← streamTime build s.t_time (percentD true 6 microseconds ++ [32]) 8 stream_, s)
  else
    pure (← streamTime build s.t_time (percentD true 6 microseconds ++ [90, 32]) 9 stream_, s)

/-! ### Calls on one thread -/

inductive Action where
  | setTimeZone (tz : TimeZone)
  /-- Of a `Logger` constructed at `time_`. -/
  | formatTime (time_ : Int) (stream_ : FixedBuffer kSmallBufferSize)

/-- The offsets of a zone are `int`s: its constructors have them from one. -/
def Ints (tz : TimeZone) : Prop :=
  ∀ data ∈ tz.data, ∀ l ∈ data.localtimes, -2147483648 ≤ l.gmtOffset ∧ l.gmtOffset ≤ 2147483647

/-- The seconds of a timestamp are below `2^31`; its stream is new. -/
def may : Action → Prop
  | .setTimeZone tz => Ints tz
  | .formatTime time_ stream_ => 0 ≤ time_ ∧ time_ / 1000000 < 2147483648 ∧ stream_.length = 0

def step (build : Build) (libc : Libc) (s : State) :
    Action → Except Fault (Option (FixedBuffer kSmallBufferSize) × State)
  | .setTimeZone tz => pure (none, { s with g_timezone := tz })
  | .formatTime time_ stream_ => do
    let (stream_, s) ← formatTime build libc s time_ stream_
    pure (some stream_, s)

def machine (build : Build) (libc : Libc) :
    Machine State Action (Option (FixedBuffer kSmallBufferSize)) Fault where
  may _ := may
  step := step build libc

instance (tz : TimeZone) : Decidable (Ints tz) :=
  match h : tz.data with
  | none => .isTrue fun data hdata => by simp [h] at hdata
  | some data => decidable_of_iff
    (∀ l ∈ data.localtimes, -2147483648 ≤ l.gmtOffset ∧ l.gmtOffset ≤ 2147483647)
    (by simp [Ints, h])

instance : (l : Action) → Decidable (may l)
  | .setTimeZone tz => inferInstanceAs (Decidable (Ints tz))
  | .formatTime .. => inferInstanceAs (Decidable (_ ∧ _))

instance (build : Build) (libc : Libc) (s : State) (l : Action) :
    Decidable ((machine build libc).may s l) := inferInstanceAs (Decidable (may l))

/-! ### What is to be emitted -/

/-- The text of a second, formatted afresh. -/
def afresh (libc : Libc) (tz : TimeZone) (seconds : Int) : Except Fault (List UInt8) := do
  pure (dateTime (← breakDown libc tz seconds))

def suffix (tz : TimeZone) : List UInt8 := if tz.valid then [32] else [90, 32]

/-- The microseconds and the suffix of the mode. -/
def micros (tz : TimeZone) (time_ : Int) : List UInt8 :=
  percentD true 6 (time_ % 1000000) ++ suffix tz

/-- A call at `time_` has let out the text of its second, formatted afresh, the microseconds and
the suffix, and then `more`. -/
def Emits (libc : Libc) (s : State) (time_ : Int) (more : List UInt8)
    (b : FixedBuffer kSmallBufferSize) : Prop :=
  ∃ text, afresh libc s.g_timezone (time_ / 1000000) = .ok text ∧
    b.content = text ++ micros s.g_timezone time_ ++ more

/-- A call lets out the text that it is to let out, and a `NUL`. -/
def EmitsNul (libc : Libc) (s : State) (l : Action) (o : Option (FixedBuffer kSmallBufferSize)) : Prop :=
  ∀ time_ stream_, l = .formatTime time_ stream_ → ∃ b, o = some b ∧ Emits libc s time_ [0] b

/-- Seconds east of UTC that a zone shows at an instant. -/
def offset (libc : Libc) (tz : TimeZone) (seconds : Int) : Except Fault Int := do
  pure (← breakDown libc tz seconds).tm_gmtoff

/-- The second is a new one, or was formatted in a zone that shows the same time at it. -/
def Current (libc : Libc) (s : State) : Action → Prop
  | .formatTime time_ _ => time_ / 1000000 ≠ s.t_lastSecond ∨
    ∃ tz, s.formatted = some tz ∧
      offset libc tz (time_ / 1000000) = offset libc s.g_timezone (time_ / 1000000)
  | .setTimeZone _ => True

instance (libc : Libc) (s : State) : (l : Action) → Decidable (Current libc s l)
  | .formatTime time_ _ => decidable_of_iff
    (time_ / 1000000 ≠ s.t_lastSecond ∨ ∃ tz ∈ s.formatted,
      offset libc tz (time_ / 1000000) = offset libc s.g_timezone (time_ / 1000000)) Iff.rfl
  | .setTimeZone _ => inferInstanceAs (Decidable True)

/-! ### The text -/

variable {w : Nat} {m n : Int} {tm tm' : Tm}

theorem percentD_zeros (h : 0 ≤ n) :
    percentD true w n = (padded w (numeral 10 n.natAbs)).map spellDecimal := by
  have hsign : ¬ n < 0 := Int.not_lt.mpr h
  simp [percentD, hsign, padded, spellDecimal]

theorem length_percentD (hw : 0 < w) (h : 0 ≤ n) (h' : n < 10 ^ w) : (percentD true w n).length = w := by
  have hlt : n.natAbs < 10 ^ w := by
    zify
    rwa [abs_of_nonneg h]
  rw [percentD_zeros h, List.length_map,
    Numeral.length_padded (Numeral.length_numeral_le (by decide) hw hlt)]

theorem percentD_inj (hm : 0 ≤ m) (hn : 0 ≤ n) (h : percentD true w m = percentD true w n) : m = n := by
  have hdigits (k : Nat) : ∀ d ∈ padded w (numeral 10 k), d < 10 := by
    intro d hd
    obtain hd | hd := List.mem_append.mp hd
    · rw [List.eq_of_mem_replicate hd]
      decide
    · exact Numeral.numeral_lt (by decide) hd
  rw [percentD_zeros hm, percentD_zeros hn] at h
  have hvalue := congrArg (Numeral.value 10)
    (Numeral.eq_of_spell detail.read_spellDecimal (hdigits _) (hdigits _) h)
  simp only [Numeral.value_padded, Numeral.value_numeral] at hvalue
  omega

/-- A year of four digits needs no padding. -/
theorem percentD_year (h : 1000 ≤ n) : percentD false 4 n = percentD true 4 n := by
  have hlong : 3 < (numeral 10 n.natAbs).length := Numeral.lt_length_numeral (by decide) (by omega)
  have hfill : 4 - (numeral 10 n.natAbs).length = 0 := by omega
  have hsign : ¬ n < 0 := by omega
  simp [percentD, hsign, hfill]

/-- The fields have as many digits as the format gives them. -/
structure Fits (tm : Tm) : Prop where
  year : 1000 ≤ tm.tm_year + 1900 ∧ tm.tm_year + 1900 < 10000
  mon : 0 ≤ tm.tm_mon + 1 ∧ tm.tm_mon + 1 < 100
  mday : 0 ≤ tm.tm_mday ∧ tm.tm_mday < 100
  hour : 0 ≤ tm.tm_hour ∧ tm.tm_hour < 100
  min : 0 ≤ tm.tm_min ∧ tm.tm_min < 100
  sec : 0 ≤ tm.tm_sec ∧ tm.tm_sec < 100

theorem two_digits (h : 0 ≤ n ∧ n < 100) : (percentD true 2 n).length = 2 :=
  length_percentD (by decide) h.1 h.2

theorem Fits.length_year (h : Fits tm) : (percentD false 4 (tm.tm_year + 1900)).length = 4 := by
  rw [percentD_year h.year.1]
  exact length_percentD (by decide) (by have := h.year; omega) h.year.2

theorem Fits.length_dateTime (h : Fits tm) : (dateTime tm).length = 17 := by
  simp only [dateTime, List.length_append, h.length_year, two_digits h.mon, two_digits h.mday,
    two_digits h.hour, two_digits h.min, two_digits h.sec, List.length_singleton]

/-- The text tells the fields. -/
theorem Fits.dateTime_inj (h : Fits tm) (h' : Fits tm') (heq : dateTime tm = dateTime tm') :
    (tm.tm_year = tm'.tm_year ∧ tm.tm_mon = tm'.tm_mon ∧ tm.tm_mday = tm'.tm_mday) ∧
      tm.tm_hour = tm'.tm_hour ∧ tm.tm_min = tm'.tm_min ∧ tm.tm_sec = tm'.tm_sec := by
  simp only [dateTime, List.append_assoc] at heq
  obtain ⟨hyear, heq⟩ := List.append_inj heq (by rw [h.length_year, h'.length_year])
  obtain ⟨hmon, heq⟩ := List.append_inj heq (by rw [two_digits h.mon, two_digits h'.mon])
  obtain ⟨hmday, heq⟩ := List.append_inj heq (by rw [two_digits h.mday, two_digits h'.mday])
  have heq := List.append_cancel_left heq
  obtain ⟨hhour, heq⟩ := List.append_inj heq (by rw [two_digits h.hour, two_digits h'.hour])
  have heq := List.append_cancel_left heq
  obtain ⟨hmin, heq⟩ := List.append_inj heq (by rw [two_digits h.min, two_digits h'.min])
  have hsec := List.append_cancel_left heq
  rw [percentD_year h.year.1, percentD_year h'.year.1] at hyear
  have hy := percentD_inj (by have := h.year; omega) (by have := h'.year; omega) hyear
  have hm := percentD_inj h.mon.1 h'.mon.1 hmon
  exact ⟨⟨by omega, by omega, percentD_inj h.mday.1 h'.mday.1 hmday⟩,
    percentD_inj h.hour.1 h'.hour.1 hhour, percentD_inj h.min.1 h'.min.1 hmin,
    percentD_inj h.sec.1 h'.sec.1 hsec⟩

theorem fits_civil {x : Int} (h : -2147483648 ≤ x) (h' : x ≤ 4294967296) : Fits (Posix.civil x) := by
  have hyear := Posix.civil_year_bounds h h'
  have hdate := Posix.civil_date_bounds x
  have hclock := Posix.civil_clock_bounds x
  constructor <;> omega

/-- The text tells the second. -/
theorem dateTime_civil_inj {x y : Int} (hx : -2147483648 ≤ x ∧ x ≤ 4294967296)
    (hy : -2147483648 ≤ y ∧ y ≤ 4294967296)
    (h : dateTime (Posix.civil x) = dateTime (Posix.civil y)) : x = y := by
  obtain ⟨⟨hyear, hmon, hmday⟩, hhour, hmin, hsec⟩ :=
    (fits_civil hx.1 hx.2).dateTime_inj (fits_civil hy.1 hy.2) h
  rw [← Posix.timegm_civil x, ← Posix.timegm_civil y]
  simp only [Posix.timegm, hyear, hmon, hmday, hhour, hmin, hsec]

/-! ### One second in one zone -/

variable {P seconds : Int} {tz tz' : TimeZone}

theorem findLocaltime_mem {data : Data} {sentry : Transition} {comp : Comp} {l : Localtime}
    (h : findLocaltime data sentry comp = .ok l) : l ∈ data.localtimes := by
  have hindex {i : Nat} (h : deref data.localtimes[i]? = .ok l) : l ∈ data.localtimes :=
    List.mem_of_getElem? (deref_eq_ok.mp h)
  unfold findLocaltime at h
  split at h
  · exact List.mem_of_head? (deref_eq_ok.mp h)
  · split at h
    · exact List.mem_of_head? (deref_eq_ok.mp h)
    · dsimp only at h
      split at h
      · split at h
        · obtain ⟨-, -, h⟩ := bind_eq_ok.mp h
          obtain ⟨t, -, h⟩ := bind_eq_ok.mp h
          exact hindex h
        · exact hindex h
      · obtain ⟨back, -, h⟩ := bind_eq_ok.mp h
        exact hindex h

/-- A second that a zone shows is written as the calendar reads it, so many seconds later. -/
theorem breakDown_eq_ok (hz : Ints tz) (hs : 0 ≤ seconds ∧ seconds < 2147483648)
    (h : breakDown (Libc.zoned P) tz seconds = .ok tm) :
    dateTime tm = dateTime (Posix.civil (seconds + tm.tm_gmtoff)) ∧
      -2147483648 ≤ tm.tm_gmtoff ∧ tm.tm_gmtoff ≤ 2147483647 := by
  unfold breakDown at h
  split at h
  · obtain ⟨-, -, h⟩ := bind_eq_ok.mp h
    obtain ⟨data, hdata, h⟩ := bind_eq_ok.mp h
    obtain ⟨l, hl, h⟩ := bind_eq_ok.mp h
    obtain ⟨zone, -, h⟩ := bind_eq_ok.mp h
    cases h
    have hoff := hz data (deref_eq_ok.mp hdata) l (findLocaltime_mem hl)
    have hgm : (Libc.zoned P).gmtime_r (seconds + l.gmtOffset) =
        some (Posix.civil (seconds + l.gmtOffset)) := Posix.gmtime_r_some (by omega) (by omega)
    rw [hgm]
    exact ⟨rfl, hoff⟩
  · have hgm : (Libc.zoned P).gmtime_r seconds = some (Posix.civil seconds) :=
      Posix.gmtime_r_some (by omega) (by omega)
    rw [hgm] at h
    cases h
    have hoff : (Posix.civil seconds).tm_gmtoff = 0 := rfl
    rw [hoff, Int.add_zero]
    exact ⟨rfl, by decide⟩

theorem afresh_eq_ok {text : List UInt8} (h : afresh (Libc.zoned P) tz seconds = .ok text) :
    ∃ tm, breakDown (Libc.zoned P) tz seconds = .ok tm ∧ dateTime tm = text := by
  obtain ⟨tm, htm, h⟩ := bind_eq_ok.mp h
  exact ⟨tm, htm, Except.ok.inj h⟩

theorem length_afresh {text : List UInt8} (hz : Ints tz) (hs : 0 ≤ seconds ∧ seconds < 2147483648)
    (h : afresh (Libc.zoned P) tz seconds = .ok text) : text.length = 17 := by
  obtain ⟨tm, htm, rfl⟩ := afresh_eq_ok h
  obtain ⟨heq, hlow, hhigh⟩ := breakDown_eq_ok hz hs htm
  rw [heq]
  exact (fits_civil (by omega) (by omega)).length_dateTime

/-- Two zones write a second alike exactly if they are as far from UTC at it. -/
theorem afresh_eq_iff {text : List UInt8} (hz : Ints tz) (hz' : Ints tz')
    (hs : 0 ≤ seconds ∧ seconds < 2147483648) (h : afresh (Libc.zoned P) tz seconds = .ok text) :
    afresh (Libc.zoned P) tz' seconds = .ok text ↔
      offset (Libc.zoned P) tz seconds = offset (Libc.zoned P) tz' seconds := by
  obtain ⟨tm, htm, rfl⟩ := afresh_eq_ok h
  obtain ⟨heq, hlow, hhigh⟩ := breakDown_eq_ok hz hs htm
  cases htm' : breakDown (Libc.zoned P) tz' seconds with
  | error fault => simp [afresh, offset, htm, htm']
  | ok tm' =>
    obtain ⟨heq', hlow', hhigh'⟩ := breakDown_eq_ok hz' hs htm'
    simp only [afresh, offset, htm, htm', ok_bind, pure_eq_ok, Except.ok.injEq]
    rw [heq, heq']
    constructor
    · intro htext
      have hsame := dateTime_civil_inj (by omega) (by omega) htext
      omega
    · intro hoff
      rw [hoff]

/-- A text has no `NUL`. -/
theorem afresh_ne_zeros : afresh (Libc.zoned P) tz seconds ≠ .ok (List.replicate 17 0) := by
  intro h
  obtain ⟨tm, -, heq⟩ := afresh_eq_ok h
  have hcolon : (58 : UInt8) ∈ dateTime tm := by simp [dateTime]
  rw [heq] at hcolon
  exact absurd (List.eq_of_mem_replicate hcolon) (by decide)

/-! ### The cached text -/

/-- What is known of the cached text before the first call, and what after one. -/
structure Cached (libc : Libc) (s : State) : Prop where
  zone : Ints s.g_timezone
  length : s.t_time.length = 32
  unformatted : s.formatted = none → s.t_lastSecond = 0 ∧ s.t_time = List.replicate 32 0
  formatted : ∀ tz, s.formatted = some tz →
    Ints tz ∧ afresh libc tz s.t_lastSecond = .ok (s.t_time.take 17)

variable {build : Build} {libc : Libc} {s s' : State}

theorem cached_initial : Cached libc initial where
  zone := by simp [Ints, initial]
  length := rfl
  unformatted _ := ⟨rfl, rfl⟩
  formatted := nofun

theorem cacheTime_eq_ok (h : cacheTime build libc s seconds = .ok s') :
    seconds = s.t_lastSecond ∧ s' = s ∨
      seconds ≠ s.t_lastSecond ∧ ∃ tm, breakDown libc s.g_timezone seconds = .ok tm ∧
        s' = { s with
          t_time := snprintf s.t_time (dateTime tm)
          t_lastSecond := seconds
          formatted := some s.g_timezone } := by
  unfold cacheTime at h
  split at h
  · next hnew =>
    obtain ⟨tm, htm, h⟩ := bind_eq_ok.mp h
    obtain ⟨-, -, h⟩ := bind_eq_ok.mp h
    exact .inr ⟨hnew, tm, htm, (Except.ok.inj h).symm⟩
  · next hold => exact .inl ⟨not_not.mp hold, (Except.ok.inj h).symm⟩

theorem take_snprintf {buf text : List UInt8} (hbuf : buf.length = 32) (htext : text.length = 17) :
    (snprintf buf text).take 17 = text := by
  have hall : text.take (buf.length - 1) = text := List.take_of_length_le (by omega)
  have hstore : (store buf 0 (text ++ [0])).take (0 + 17) = buf.take 0 ++ (text ++ [0]).take 17 :=
    Bytes.take_store buf (text ++ [0]) (by simp [hbuf, htext]) (by simp [htext])
  rw [Nat.zero_add, List.take_zero, List.nil_append] at hstore
  rw [snprintf, hall, hstore, List.take_append_of_le_length (Nat.le_of_eq htext.symm),
    List.take_of_length_le (Nat.le_of_eq htext)]

/-- The cache is kept, and now holds the text of the second as the zone in force writes it exactly
if it was current. -/
theorem Cached.cacheTime (hs : Cached (Libc.zoned P) s) (hsec : 0 ≤ seconds ∧ seconds < 2147483648)
    (h : cacheTime build (Libc.zoned P) s seconds = .ok s') :
    Cached (Libc.zoned P) s' ∧ s'.g_timezone = s.g_timezone ∧
      (afresh (Libc.zoned P) s.g_timezone seconds = .ok (s'.t_time.take 17) ↔
        seconds ≠ s.t_lastSecond ∨ ∃ tz, s.formatted = some tz ∧
          offset (Libc.zoned P) tz seconds = offset (Libc.zoned P) s.g_timezone seconds) := by
  obtain ⟨rfl, rfl⟩ | ⟨hnew, tm, htm, rfl⟩ := cacheTime_eq_ok h
  · refine ⟨hs, rfl, ?_⟩
    rw [or_iff_right (not_not.mpr rfl)]
    cases hf : s'.formatted with
    | none =>
      rw [(hs.unformatted hf).2]
      exact iff_of_false (by simpa using afresh_ne_zeros) (by simp)
    | some tz =>
      obtain ⟨hz, htext⟩ := hs.formatted tz hf
      rw [afresh_eq_iff hz hs.zone hsec htext]
      simp
  · have hfresh : afresh (Libc.zoned P) s.g_timezone seconds = .ok (dateTime tm) := by
      rw [afresh, htm, ok_bind, pure_eq_ok]
    have htext := take_snprintf hs.length (length_afresh hs.zone hsec hfresh)
    refine ⟨⟨hs.zone, ?_, nofun, fun tz heq => ?_⟩, rfl, ?_⟩
    · rw [snprintf, Bytes.length_store, hs.length]
    · obtain rfl := Option.some.inj heq
      exact ⟨hs.zone, by rw [htext, hfresh]⟩
    · exact iff_of_true (by rw [htext, hfresh]) (.inl hnew)

/-! ### What is streamed -/

variable {stream_ b : FixedBuffer SIZE}

theorem append_content (stream_ : FixedBuffer SIZE) (data : List UInt8)
    (hfits : stream_.cur_ + data.length ≤ SIZE) (hless : data.length < SIZE) :
    ∃ c, stream_.append data = .ok c ∧ c.content = stream_.content ++ data ∧
      c.cur_ = stream_.cur_ + data.length := by
  have hmoves : (Operation.append data).advances SIZE = data.length := if_pos hless
  have hextent : (Operation.append data).extent SIZE = data.length := if_pos hless
  obtain ⟨-, c, hc, hcur⟩ | ⟨hlt, -⟩ := reaches_perform (b := stream_) (by omega) (.append data)
  · refine ⟨c, hc, ?_, by rw [hcur, hmoves]⟩
    rw [content_perform hc, Operation.taken_append hless]
  · omega

/-- A release build streams the `NUL` after `us` as well. -/
theorem streamTime_release {t_time us : List UInt8} {len : Nat} (ht : t_time.length = 32)
    (hus : us.length + 1 = len) (hnew : stream_.length = 0) (hsize : 17 + len < SIZE) :
    ∃ b, streamTime .release t_time us len stream_ = .ok b ∧
      b.content = t_time.take 17 ++ us ++ [0] := by
  have hcur : stream_.cur_ = 0 := hnew
  have hnone : stream_.content = [] := by rw [FixedBuffer.content, hnew, List.take_zero]
  have htake : (t_time.take 17).length = 17 := by rw [List.length_take, ht]; rfl
  have hnul : (us ++ [0]).length = len := by rw [List.length_append, List.length_singleton, hus]
  obtain ⟨c, hc, hcontent, hc'⟩ := append_content stream_ (t_time.take 17) (by omega) (by omega)
  obtain ⟨b, hb, hcontent', -⟩ := append_content c (us ++ [0]) (by omega) (by omega)
  refine ⟨b, ?_, by rw [hcontent', hcontent, hnone, List.nil_append, List.append_assoc]⟩
  have htext : stringHelper .release t_time 17 = .ok (t_time.take 17) := by
    rw [stringHelper, Build.assert_release, ok_bind, if_pos (by omega), pure_eq_ok]
  have hrest : stringHelper .release (us ++ [0]) len = .ok (us ++ [0]) := by
    rw [stringHelper, Build.assert_release, ok_bind, if_pos (Nat.le_of_eq hnul.symm), pure_eq_ok,
      List.take_of_length_le (Nat.le_of_eq hnul)]
  simp only [streamTime, Build.assert_release, ok_bind, htext, hc, hrest, hb]

/-- A debug build does not. -/
theorem streamTime_build {t_time us : List UInt8} {len : Nat} (hus : us.length + 1 = len)
    (h : streamTime build t_time us len stream_ = .ok b) : build = .release := by
  obtain ⟨-, -, h⟩ := bind_eq_ok.mp h
  obtain ⟨u, hassert, -⟩ := bind_eq_ok.mp h
  by_contra hdebug
  rw [Build.assert, if_neg (by simp only [hdebug, false_or]; omega)] at hassert
  cases hassert

theorem length_micros (n : Int) : (percentD true 6 (n % 1000000)).length = 6 :=
  length_percentD (by decide) (by omega) (by omega)

/-! ### Every call -/

variable {time_ : Int} {stream_ b : FixedBuffer kSmallBufferSize}

/-- The truncating division and the casts lose nothing. -/
theorem split_time (h : 0 ≤ time_) (h' : time_ / 1000000 < 2147483648) :
    TimeZone.toInt (time_.tdiv kMicroSecondsPerSecond) = time_ / 1000000 ∧
      TimeZone.toInt (time_.tmod kMicroSecondsPerSecond) = time_ % 1000000 := by
  have hmega : kMicroSecondsPerSecond = 1000000 := rfl
  rw [hmega, Int.tdiv_eq_ediv_of_nonneg h, Int.tmod_eq_emod_of_nonneg h]
  exact ⟨TimeZone.toInt_of (by omega) (by omega), TimeZone.toInt_of (by omega) (by omega)⟩

/-- A call that returns has let out the cached text and the rest, with a `NUL`. -/
theorem formatTime_eq_ok (hs : Cached (Libc.zoned P) s) (hm : may (.formatTime time_ stream_))
    (h : formatTime build (Libc.zoned P) s time_ stream_ = .ok (b, s')) :
    cacheTime build (Libc.zoned P) s (time_ / 1000000) = .ok s' ∧
      b.content = s'.t_time.take 17 ++ micros s'.g_timezone time_ ++ [0] := by
  obtain ⟨hnonneg, hsec, hnew⟩ := hm
  obtain ⟨hseconds, hmicro⟩ := split_time hnonneg hsec
  have hsix := length_micros time_
  have hsize : kSmallBufferSize = 4000 := rfl
  rw [formatTime, hseconds, hmicro] at h
  obtain ⟨u, hu, h⟩ := bind_eq_ok.mp h
  have hlen := (hs.cacheTime ⟨by omega, hsec⟩ hu).1.length
  unfold micros suffix
  split at h
  · next hvalid =>
    obtain ⟨c, hc, h⟩ := bind_eq_ok.mp h
    cases h
    refine ⟨hu, ?_⟩
    have hus : (percentD true 6 (time_ % 1000000) ++ [32]).length + 1 = 8 := by simp [hsix]
    obtain rfl := streamTime_build hus hc
    obtain ⟨b, hb, hcontent⟩ := streamTime_release hlen hus hnew (by omega)
    rw [if_pos hvalid, Except.ok.inj (hc.symm.trans hb)]
    exact hcontent
  · next hvalid =>
    obtain ⟨c, hc, h⟩ := bind_eq_ok.mp h
    cases h
    refine ⟨hu, ?_⟩
    have hus : (percentD true 6 (time_ % 1000000) ++ [90, 32]).length + 1 = 9 := by simp [hsix]
    obtain rfl := streamTime_build hus hc
    obtain ⟨b, hb, hcontent⟩ := streamTime_release hlen hus hnew (by omega)
    rw [if_neg hvalid, Except.ok.inj (hc.symm.trans hb)]
    exact hcontent

/-- The lengths decide on the `NUL`, and the first 17 bytes on the rest. -/
theorem emits_iff (hs : Cached (Libc.zoned P) s) (hm : may (.formatTime time_ stream_))
    (h : formatTime build (Libc.zoned P) s time_ stream_ = .ok (b, s')) :
    ¬ Emits (Libc.zoned P) s time_ [] b ∧
      (Emits (Libc.zoned P) s time_ [0] b ↔ Current (Libc.zoned P) s (.formatTime time_ stream_)) ∧
      Cached (Libc.zoned P) s' := by
  have hsec : 0 ≤ time_ / 1000000 ∧ time_ / 1000000 < 2147483648 := by
    have := hm.1
    exact ⟨by omega, hm.2.1⟩
  obtain ⟨hcache, hcontent⟩ := formatTime_eq_ok hs hm h
  obtain ⟨hs', hzone, hiff⟩ := hs.cacheTime hsec hcache
  rw [hzone] at hcontent
  have htake : (s'.t_time.take 17).length = 17 := by rw [List.length_take, hs'.length]; rfl
  refine ⟨?_, ?_, hs'⟩
  · rintro ⟨text, htext, heq⟩
    have hlength := congrArg List.length (hcontent.symm.trans heq)
    simp only [List.length_append, htake, length_afresh hs.zone hsec htext, List.length_singleton,
      List.length_nil] at hlength
    omega
  · rw [Current, ← hiff]
    constructor
    · rintro ⟨text, htext, heq⟩
      rw [hcontent, List.append_assoc, List.append_assoc] at heq
      obtain ⟨rfl, -⟩ := List.append_inj heq (by rw [htake, length_afresh hs.zone hsec htext])
      exact htext
    · exact fun htext => ⟨_, htext, hcontent⟩

variable {l : Action} {o : Option (FixedBuffer kSmallBufferSize)}

theorem cached_step (hs : Cached (Libc.zoned P) s) (hm : may l)
    (h : step build (Libc.zoned P) s l = .ok (o, s')) :
    Cached (Libc.zoned P) s' ∧ (EmitsNul (Libc.zoned P) s l o ↔ Current (Libc.zoned P) s l) := by
  cases l with
  | setTimeZone tz =>
    cases h
    exact ⟨⟨hm, hs.length, hs.unformatted, hs.formatted⟩, iff_of_true nofun trivial⟩
  | formatTime time_ stream_ =>
    obtain ⟨⟨b, u⟩, hb, h⟩ := bind_eq_ok.mp h
    cases h
    obtain ⟨-, hiff, hs'⟩ := emits_iff hs hm hb
    refine ⟨hs', ⟨fun hemits => ?_, fun hcurrent t st heq => ?_⟩⟩
    · obtain ⟨b', heq, hb'⟩ := hemits time_ stream_ rfl
      obtain rfl := Option.some.inj heq
      exact hiff.mp hb'
    · cases heq
      exact ⟨b, rfl, hiff.mpr hcurrent⟩

theorem cached_run {tr : List (Action × Option (FixedBuffer kSmallBufferSize))}
    (h : (machine build (Libc.zoned P)).Run initial tr s) : Cached (Libc.zoned P) s :=
  h.preserves (fun _ _ _ _ hs hm hstep => (cached_step hs hm hstep).1) cached_initial

/-- **No call lets out what it is to let out**, in either build. Up to a `NUL` at the end, every
call of a run does exactly if in each of them the second is a new one or was formatted in a zone
that shows the same time at it. -/
theorem log_time {tr : List (Action × Option (FixedBuffer kSmallBufferSize))}
    (h : (machine build (Libc.zoned P)).Run initial tr s) :
    (∀ time_ stream_ b s', may (.formatTime time_ stream_) →
      formatTime build (Libc.zoned P) s time_ stream_ = .ok (b, s') →
      ¬ Emits (Libc.zoned P) s time_ [] b) ∧
    ((∀ tr₁ l o tr₂ u v, tr = tr₁ ++ (l, o) :: tr₂ →
      (machine build (Libc.zoned P)).Run initial tr₁ u →
      (machine build (Libc.zoned P)).step u l = .ok (o, v) → EmitsNul (Libc.zoned P) u l o) ↔
      ((machine build (Libc.zoned P)).only (Current (Libc.zoned P))).Run initial tr s) :=
  ⟨fun _ _ _ _ hm hb => (emits_iff (cached_run h) hm hb).1,
    h.each_step_iff cached_initial fun _ _ _ _ hs hm hstep => cached_step hs hm hstep⟩

/-- The stream of a new `Logger`. -/
def empty : FixedBuffer kSmallBufferSize := ⟨List.replicate kSmallBufferSize 0, 0, List.length_replicate⟩

/-- Two calls in a second, `"19700101 00:00:01"` each; in between the zone is set to one that is as
far from UTC. -/
theorem log_time_cached : ∃ tr s, (machine .release (Libc.zoned 0)).Run initial tr s ∧
    tr.map (fun e => e.2.map fun b => b.content.take 17) =
      [some [49, 57, 55, 48, 48, 49, 48, 49, 32, 48, 48, 58, 48, 48, 58, 48, 49], none,
        some [49, 57, 55, 48, 48, 49, 48, 49, 32, 48, 48, 58, 48, 48, 58, 48, 49]] ∧
    ∀ tr₁ l o tr₂ u v, tr = tr₁ ++ (l, o) :: tr₂ →
      (machine .release (Libc.zoned 0)).Run initial tr₁ u →
      (machine .release (Libc.zoned 0)).step u l = .ok (o, v) → EmitsNul (Libc.zoned 0) u l o := by
  obtain ⟨tr, s, h, -, hcontent⟩ :=
    ((machine .release (Libc.zoned 0)).only (Current (Libc.zoned 0))).exists_run_of_replay
      (s := initial) (P := fun tr _ => tr.map (fun e => e.2.map fun b => b.content.take 17) =
        [some [49, 57, 55, 48, 48, 49, 48, 49, 32, 48, 48, 58, 48, 48, 58, 48, 49], none,
          some [49, 57, 55, 48, 48, 49, 48, 49, 32, 48, 48, 58, 48, 48, 58, 48, 49]])
      [.formatTime 1000000 empty, .setTimeZone (.fixed 0 []), .formatTime 1500000 empty]
      (by decide +kernel)
  exact ⟨tr, s, h.of_only, hcontent, (log_time h.of_only).2.mpr h⟩

/-- One call in UTC; then the zone is set eight hours east, and a call in the same second lets out
`"19700101 00:00:01000000 "` and a `NUL`, at eight in the morning. -/
theorem log_time_stale : ∃ tr s b s', (machine .release (Libc.zoned 0)).Run initial tr s ∧
    s.g_timezone = .fixed 28800 [] ∧ may (.formatTime 1000000 empty) ∧
    formatTime .release (Libc.zoned 0) s 1000000 empty = .ok (b, s') ∧
    b.content = [49, 57, 55, 48, 48, 49, 48, 49, 32, 48, 48, 58, 48, 48, 58, 48, 49] ++
      [48, 48, 48, 48, 48, 48, 32] ++ [0] ∧
    afresh (Libc.zoned 0) s.g_timezone 1 =
      .ok [49, 57, 55, 48, 48, 49, 48, 49, 32, 48, 56, 58, 48, 48, 58, 48, 49] ∧
    ∀ more, ¬ Emits (Libc.zoned 0) s 1000000 more b := by
  obtain ⟨tr, s, h, -, hzone, hcontent⟩ :=
    (machine .release (Libc.zoned 0)).exists_run_of_replay (s := initial)
      (P := fun _ s => s.g_timezone = .fixed 28800 [] ∧
        (formatTime .release (Libc.zoned 0) s 1000000 empty).toOption.map (fun r => r.1.content) =
          some ([49, 57, 55, 48, 48, 49, 48, 49, 32, 48, 48, 58, 48, 48, 58, 48, 49] ++
            [48, 48, 48, 48, 48, 48, 32] ++ [0]))
      [.formatTime 1000000 empty, .setTimeZone (.fixed 28800 [])] (by decide +kernel)
  obtain ⟨⟨b, s'⟩, hb, hcontent⟩ := Option.map_eq_some_iff.mp hcontent
  have hfresh : afresh (Libc.zoned 0) s.g_timezone 1 =
      .ok [49, 57, 55, 48, 48, 49, 48, 49, 32, 48, 56, 58, 48, 48, 58, 48, 49] := by
    rw [hzone]
    decide +kernel
  refine ⟨tr, s, b, s', h, hzone, by decide, ?_, hcontent, hfresh, ?_⟩
  · cases hr : formatTime .release (Libc.zoned 0) s 1000000 empty with
    | error fault => simp [hr, Except.toOption] at hb
    | ok r => simpa [hr, Except.toOption] using hb
  · rintro more ⟨text, htext, heq⟩
    obtain rfl := Except.ok.inj (htext.symm.trans hfresh)
    rw [hcontent, List.append_assoc, List.append_assoc] at heq
    exact absurd (List.append_inj heq rfl).1 (by decide)

end Leanet.Logger

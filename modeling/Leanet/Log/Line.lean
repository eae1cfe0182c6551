import Leanet.Time.Text

/-! The log.

A log statement is a temporary `Logger`. Its constructor streams the time, the thread, the level and
the error, the statement streams its message, and the destructor ends the line, hands the buffer to
the output and aborts after a fatal one. Over a run this makes one line of each statement that its
macro lets through, in order (`log_lines`).

The error is shown by the text in `t_errnobuf`. `strerror_r` may return another text and leave the
array alone: then the line shows what an earlier error has left there. -/
namespace Leanet.Log
open Logger (formatTime afresh micros Ints Cached percentD stringHelper snprintf)

inductive LogLevel where
  | TRACE
  | DEBUG
  | INFO
  | WARN
  | ERROR
  | FATAL
  deriving DecidableEq, Repr

/-- The values of the enumeration. -/
def LogLevel.value : LogLevel → Nat
  | TRACE => 0
  | DEBUG => 1
  | INFO => 2
  | WARN => 3
  | ERROR => 4
  | FATAL => 5

/-- `"TRACE "`, `"DEBUG "`, `"INFO  "`, `"WARN  "`, `"ERROR "`, `"FATAL "`. -/
def LogLevelNames : LogLevel → List UInt8
  | .TRACE => [84, 82, 65, 67, 69, 32]
  | .DEBUG => [68, 69, 66, 85, 71, 32]
  | .INFO => [73, 78, 70, 79, 32, 32]
  | .WARN => [87, 65, 82, 78, 32, 32]
  | .ERROR => [69, 82, 82, 79, 82, 32]
  | .FATAL => [70, 65, 84, 65, 76, 32]

inductive Macro where
  | LOG_TRACE
  | LOG_DEBUG
  | LOG_INFO
  | LOG_WARN
  | LOG_ERROR
  | LOG_FATAL
  | LOG_SYSERR
  | LOG_SYSFATAL
  deriving DecidableEq, Repr

namespace Macro

/-- The level that the constructor is given, or chooses by `to_abort`. -/
def level : Macro → LogLevel
  | LOG_TRACE => .TRACE
  | LOG_DEBUG => .DEBUG
  | LOG_INFO => .INFO
  | LOG_WARN => .WARN
  | LOG_ERROR | LOG_SYSERR => .ERROR
  | LOG_FATAL | LOG_SYSFATAL => .FATAL

/-- The first three ask `logLevel()`. -/
def enabled (m : Macro) (g_logLevel : LogLevel) : Bool :=
  match m with
  | LOG_TRACE | LOG_DEBUG | LOG_INFO => g_logLevel.value ≤ m.level.value
  | _ => true

/-- The first two give `__func__`. -/
def hasFunc : Macro → Bool
  | LOG_TRACE | LOG_DEBUG => true
  | _ => false

/-- The last two have the constructor take `errno`. -/
def savedErrno (errno : Int32) : Macro → Int32
  | LOG_SYSERR | LOG_SYSFATAL => errno
  | _ => 0

end Macro

/-- `strrchr(str, c) - str`. -/
def strrchr (str : List UInt8) (c : UInt8) : Option Nat :=
  (str.reverse.findIdx? (· = c)).map fun i => str.length - 1 - i

/-- `SourceFile`, from an array or from a C string: `size` bytes from `data` on. -/
def sourceFile (filename : List UInt8) : List UInt8 :=
  match strrchr filename 47 with
  | some slash => filename.drop (slash + 1)
  | none => filename

/-- A statement, with what its constructor finds. -/
structure Statement where
  name : Macro
  file : List UInt8
  line : Int32
  func : List UInt8
  message : List (Insertion kSmallBufferSize)
  time_ : Int
  errno : Int32
  /-- `LogStream()`. -/
  stream_ : FixedBuffer kSmallBufferSize

/-- The process and the thread that a run is about. -/
structure Env where
  /-- Seconds east of UTC, of the zone of the process. -/
  P : Int
  gettid : Int
  /-- The text that `strerror_r` stores; `none`: it returns another one. -/
  strerror_r : Int32 → Option (List UInt8)

structure State where
  time : Logger.State
  t_cachedTid : Int
  t_tidString : List UInt8
  t_tidStringLength : Nat
  /-- As a C string. -/
  t_errnobuf : List UInt8
  g_logLevel : LogLevel
  /-- What `g_output` has been handed. -/
  output : List (List UInt8)
  /-- What had been handed out when `g_flush` was last called. -/
  flushed : List (List UInt8)
  aborted : Bool

def initial (tz : TimeZone) (g_logLevel : LogLevel) : State where
  time := { Logger.initial with g_timezone := tz }
  t_cachedTid := 0
  t_tidString := List.replicate 32 0
  t_tidStringLength := 6
  t_errnobuf := []
  g_logLevel := g_logLevel
  output := []
  flushed := []
  aborted := false

/-! ### One statement -/

/-- `currentThread::tid()`. -/
def tid (env : Env) (s : State) : State :=
  if s.t_cachedTid = 0 then
    let text := percentD false 5 env.gettid ++ [32]
    { s with
      t_cachedTid := env.gettid
      t_tidString := snprintf s.t_tidString text
      t_tidStringLength := text.length }
  else s

def strerror_tl (env : Env) (t_errnobuf : List UInt8) (save_errno : Int32) : List UInt8 :=
  (env.strerror_r save_errno).getD t_errnobuf

/-- `" (errno = "`. -/
def errnoOpen : List UInt8 := [32, 40, 101, 114, 114, 110, 111, 32, 61, 32]

/-- What is streamed of an error, and the array after it. -/
def errnoPart (env : Env) (t_errnobuf : List UInt8) (savedErrno : Int32) :
    List (Insertion kSmallBufferSize) × List UInt8 :=
  if savedErrno ≠ 0 then
    let text := strerror_tl env t_errnobuf savedErrno
    ([.cstring (some text), .cstring (some errnoOpen), .int savedErrno, .cstring (some [41, 32])], text)
  else ([], t_errnobuf)

def funcPart (st : Statement) : List (Insertion kSmallBufferSize) :=
  if st.name.hasFunc then [.cstring (some st.func), .char 32] else []

/-- `Logger::Logger`. -/
def construct (build : Build) (env : Env) (s : State) (st : Statement) :
    Except Fault (FixedBuffer kSmallBufferSize × State) := do
  let (stream_, time) ← formatTime build (Libc.zoned env.P) s.time st.time_ st.stream_
  let s := tid env { s with time }
  let tidString ← stringHelper build s.t_tidString s.t_tidStringLength
  let name ← stringHelper build (LogLevelNames st.name.level ++ [0]) 6
  let (error, t_errnobuf) := errnoPart env s.t_errnobuf (st.name.savedErrno st.errno)
  let stream_ ← (Insertion.append tidString :: .append name :: (error ++ funcPart st)).foldlM
    LogStream.insert stream_
  pure (stream_, { s with t_errnobuf })

def finishPart (st : Statement) : List (Insertion kSmallBufferSize) :=
  [.cstring (some [32, 45, 32]), .append (sourceFile st.file), .char 58, .int st.line, .char 10]

/-- `Impl::finish`. -/
def finish (st : Statement) (stream_ : FixedBuffer kSmallBufferSize) :
    Except Fault (FixedBuffer kSmallBufferSize) :=
  (finishPart st).foldlM LogStream.insert stream_

/-- `Logger::~Logger`. -/
def destruct (s : State) (st : Statement) (stream_ : FixedBuffer kSmallBufferSize) :
    Except Fault State := do
  let stream_ ← finish st stream_
  let s := { s with output := s.output ++ [stream_.content] }
  if st.name.level = .FATAL then pure { s with flushed := s.output, aborted := true } else pure s

inductive Action where
  | setLogLevel (level : LogLevel)
  | log (st : Statement)

def step (build : Build) (env : Env) (s : State) : Action → Except Fault (Unit × State)
  | .setLogLevel level => pure ((), { s with g_logLevel := level })
  | .log st =>
    if st.name.enabled s.g_logLevel then do
      let (stream_, s) ← construct build env s st
      let stream_ ← st.message.foldlM LogStream.insert stream_
      pure ((), ← destruct s st stream_)
    else pure ((), s)

/-! ### What is to be read -/

/-- The part of a line between the time and the message. -/
def heading (env : Env) (t_errnobuf : List UInt8) (st : Statement) : List UInt8 :=
  percentD false 5 env.gettid ++ [32] ++ LogLevelNames st.name.level ++
    (if st.name.savedErrno st.errno = 0 then []
      else strerror_tl env t_errnobuf (st.name.savedErrno st.errno) ++ errnoOpen ++
        detail.decimal (st.name.savedErrno st.errno).toInt ++ [41, 32]) ++
    if st.name.hasFunc then st.func ++ [32] else []

/-- The part after the message. -/
def ending (st : Statement) : List UInt8 :=
  [32, 45, 32] ++ sourceFile st.file ++ [58] ++ detail.decimal st.line.toInt ++ [10]

/-- The second as the zone in force writes it. -/
def stamp (env : Env) (tz : TimeZone) (time_ : Int) : List UInt8 :=
  (afresh (Libc.zoned env.P) tz (time_ / 1000000)).toOption.getD []

/-- A line: its fourth part is a `NUL`. -/
def line (env : Env) (tz : TimeZone) (t_errnobuf : List UInt8) (st : Statement) : List UInt8 :=
  stamp env tz st.time_ ++ micros tz st.time_ ++ [0] ++ heading env t_errnobuf st ++
    LogStream.taken st.message ++ ending st

/-- The log as its reader and its writers know it. -/
structure View where
  g_logLevel : LogLevel
  t_errnobuf : List UInt8
  output : List (List UInt8)
  flushed : List (List UInt8)
  aborted : Bool

def State.view (s : State) : View := ⟨s.g_logLevel, s.t_errnobuf, s.output, s.flushed, s.aborted⟩

/-- The error that a statement takes is the last whose text the array can have. -/
def View.next (env : Env) (tz : TimeZone) (v : View) : Action → View
  | .setLogLevel level => { v with g_logLevel := level }
  | .log st =>
    if st.name.enabled v.g_logLevel then
      let output := v.output ++ [line env tz v.t_errnobuf st]
      let t_errnobuf := if st.name.savedErrno st.errno = 0 then v.t_errnobuf
        else strerror_tl env v.t_errnobuf (st.name.savedErrno st.errno)
      if st.name.level = .FATAL then { v with t_errnobuf, output, flushed := output, aborted := true }
      else { v with t_errnobuf, output }
    else v

/-- The time is after the first second of the epoch and below `2^31` seconds, the zone can show it,
and the line leaves a byte of the buffer. -/
structure Fits (env : Env) (tz : TimeZone) (t_errnobuf : List UInt8) (st : Statement) : Prop where
  time : 1 ≤ st.time_ / 1000000 ∧ st.time_ / 1000000 < 2147483648
  shown : (afresh (Libc.zoned env.P) tz (st.time_ / 1000000)).isOk = true
  new : st.stream_.length = 0
  room : 26 + (heading env t_errnobuf st).length + (LogStream.rendering st.message).length +
    (ending st).length < kSmallBufferSize

instance (env : Env) (tz : TimeZone) (t_errnobuf : List UInt8) (st : Statement) :
    Decidable (Fits env tz t_errnobuf st) :=
  decidable_of_iff (_ ∧ _ ∧ _ ∧ _) ⟨fun h => ⟨h.1, h.2.1, h.2.2.1, h.2.2.2⟩,
    fun h => ⟨h.time, h.shown, h.new, h.room⟩⟩

/-- Until the process aborts, a statement that is let through fits. -/
def may (env : Env) (s : State) : Action → Prop
  | .setLogLevel _ => s.aborted = false
  | .log st => s.aborted = false ∧ (st.name.enabled s.g_logLevel = true →
      Fits env s.time.g_timezone s.t_errnobuf st)

instance (env : Env) (s : State) : (l : Action) → Decidable (may env s l)
  | .setLogLevel _ => inferInstanceAs (Decidable (_ = _))
  | .log _ => inferInstanceAs (Decidable (_ ∧ (_ → _)))

def machine (build : Build) (env : Env) : Machine State Action Unit Fault where
  may := may env
  step := step build env

instance (build : Build) (env : Env) (s : State) (l : Action) :
    Decidable ((machine build env).may s l) := inferInstanceAs (Decidable (may env s l))

/-! ### The parts -/

variable {env : Env} {tz : TimeZone} {s s' : State} {st : Statement}
  {stream_ b : FixedBuffer kSmallBufferSize} {text : List UInt8}

/-- The number of the thread is not zero, and an `int`. -/
def Numbered (env : Env) : Prop := 0 < env.gettid ∧ env.gettid < 2147483648

theorem length_tid (h : Numbered env) : (percentD false 5 env.gettid ++ [32]).length < 32 := by
  have hdigits : env.gettid.natAbs < 10 ^ 10 := by
    have := h.2
    have := h.1
    omega
  have hlength : (percentD false 5 env.gettid).length ≤ 11 := length_percentD_le (by decide) hdigits
  rw [List.length_append, List.length_singleton]
  omega

/-- The number of the thread has not been asked for, or is in the array. -/
structure Sound (env : Env) (tz : TimeZone) (s : State) : Prop where
  cached : Cached (Libc.zoned env.P) s.time
  zone : s.time.g_timezone = tz
  own : ∀ z, s.time.formatted = some z → z = tz
  tid : s.t_cachedTid = 0 ∧ s.t_tidString.length = 32 ∨ s.t_cachedTid = env.gettid ∧
    stringHelper .release s.t_tidString s.t_tidStringLength = .ok (percentD false 5 env.gettid ++ [32])

theorem stringHelper_release {str : List UInt8} {len : Nat} (h : len ≤ str.length) :
    stringHelper .release str len = .ok (str.take len) := by
  rw [stringHelper, Build.assert_release, ok_bind, if_pos h, pure_eq_ok]

theorem tid_spec (henv : Numbered env) (hs : Sound env tz s) :
    stringHelper .release (tid env s).t_tidString (tid env s).t_tidStringLength =
      .ok (percentD false 5 env.gettid ++ [32]) ∧ Sound env tz (tid env s) ∧
      (tid env s).view = s.view := by
  have hpos : env.gettid ≠ 0 := by
    have := henv.1
    omega
  unfold tid
  split
  · next hzero =>
    obtain ⟨-, hlength⟩ | ⟨hcached, -⟩ := hs.tid
    · have hfits := length_tid henv
      generalize htext : percentD false 5 env.gettid ++ [32] = text at hfits ⊢
      have htake : (snprintf s.t_tidString text).take (text.length + 1) = text ++ [0] :=
        take_snprintf (by omega)
      have hall : (snprintf s.t_tidString text).take text.length = text := by
        have hcut := congrArg (List.take text.length) htake
        rwa [List.take_take, Nat.min_eq_left (Nat.le_succ _), List.take_left] at hcut
      have hstring : stringHelper .release (snprintf s.t_tidString text) text.length = .ok text := by
        rw [stringHelper_release, hall]
        rw [snprintf, Bytes.length_store]
        omega
      exact ⟨hstring, ⟨hs.cached, hs.zone, hs.own, .inr ⟨rfl, by rw [htext]; exact hstring⟩⟩, rfl⟩
    · exact absurd (hcached.symm.trans hzero) hpos
  · next hne =>
    obtain ⟨hzero, -⟩ | ⟨-, hstring⟩ := hs.tid
    · exact absurd hzero hne
    · exact ⟨hstring, hs, rfl⟩

/-- What is streamed has all of its rendering. -/
theorem taken_whole {l : List (Insertion kSmallBufferSize)} (h : ∀ i ∈ l, i.Whole)
    (hroom : (LogStream.rendering l).length < kSmallBufferSize) :
    LogStream.taken l = LogStream.rendering l :=
  LogStream.taken_eq_rendering (by decide) hroom h

theorem rendering_heading (env : Env) (t_errnobuf : List UInt8) (st : Statement) :
    LogStream.rendering (.append (percentD false 5 env.gettid ++ [32]) ::
      .append (LogLevelNames st.name.level) ::
        ((errnoPart env t_errnobuf (st.name.savedErrno st.errno)).1 ++ funcPart st)) =
      heading env t_errnobuf st := by
  unfold errnoPart funcPart heading
  split_ifs <;> simp_all [LogStream.rendering, Insertion.rendering, Insertion.cstringText]

theorem rendering_ending (st : Statement) : LogStream.rendering (finishPart st) = ending st := by
  simp [finishPart, ending, LogStream.rendering, Insertion.rendering, Insertion.cstringText]

theorem whole_heading (t_errnobuf t₁ t₂ : List UInt8) (st : Statement) :
    ∀ i ∈ Insertion.append t₁ :: .append t₂ ::
      ((errnoPart env t_errnobuf (st.name.savedErrno st.errno)).1 ++ funcPart st), i.Whole := by
  unfold errnoPart funcPart
  split_ifs <;> simp [Insertion.Whole]

theorem whole_ending (st : Statement) : ∀ i ∈ finishPart st, i.Whole := by
  simp [finishPart, Insertion.Whole]

theorem errnoPart_snd (env : Env) (t_errnobuf : List UInt8) (savedErrno : Int32) :
    (errnoPart env t_errnobuf savedErrno).2 =
      if savedErrno = 0 then t_errnobuf else strerror_tl env t_errnobuf savedErrno := by
  unfold errnoPart
  split_ifs <;> simp_all

/-! ### The time -/

theorem cacheTime_release {P seconds : Int} {u : Logger.State}
    (h : afresh (Libc.zoned P) u.g_timezone seconds = .ok text) :
    ∃ u', Logger.cacheTime .release (Libc.zoned P) u seconds = .ok u' := by
  obtain ⟨tm, htm, -⟩ := Logger.afresh_eq_ok h
  unfold Logger.cacheTime
  rw [htm, ok_bind, Build.assert_release, ok_bind]
  split <;> exact ⟨_, pure_eq_ok _⟩

/-- The zone is the one of the run, so that the cached text is always current. -/
theorem Sound.current (hs : Sound env tz s) (ht : 1 ≤ st.time_ / 1000000) :
    st.time_ / 1000000 ≠ s.time.t_lastSecond ∨ ∃ z, s.time.formatted = some z ∧
      Logger.offset (Libc.zoned env.P) z (st.time_ / 1000000) =
        Logger.offset (Libc.zoned env.P) s.time.g_timezone (st.time_ / 1000000) := by
  cases hf : s.time.formatted with
  | none =>
    left
    rw [(hs.cached.unformatted hf).1]
    omega
  | some z => exact .inr ⟨z, rfl, by rw [hs.own z hf, hs.zone]⟩

/-- A release build that has formatted the second returns. -/
theorem formatTime_of_cacheTime {P time_ : Int} {u u' : Logger.State} (hs : Cached (Libc.zoned P) u)
    (hm : Logger.may (.formatTime time_ stream_))
    (hu : Logger.cacheTime .release (Libc.zoned P) u (time_ / 1000000) = .ok u') :
    ∃ b, formatTime .release (Libc.zoned P) u time_ stream_ = .ok (b, u') := by
  obtain ⟨hnonneg, hsec, hnew⟩ := hm
  obtain ⟨hseconds, hmicro⟩ := Logger.split_time hnonneg hsec
  have hsix := Logger.length_micros time_
  have hsize : kSmallBufferSize = 4000 := rfl
  have hlength := (hs.cacheTime ⟨by omega, hsec⟩ hu).1.length
  rw [formatTime, hseconds, hmicro, hu, ok_bind]
  split
  · obtain ⟨b, hb, -⟩ := Logger.streamTime_release hlength
      (by simp [hsix] : (percentD true 6 (time_ % 1000000) ++ [32]).length + 1 = 8) hnew (by omega)
    exact ⟨b, by rw [hb, ok_bind, pure_eq_ok]⟩
  · obtain ⟨b, hb, -⟩ := Logger.streamTime_release hlength
      (by simp [hsix] : (percentD true 6 (time_ % 1000000) ++ [90, 32]).length + 1 = 9) hnew (by omega)
    exact ⟨b, by rw [hb, ok_bind, pure_eq_ok]⟩

theorem length_micros_le (tz : TimeZone) (time_ : Int) : (micros tz time_).length ≤ 8 := by
  rw [micros, List.length_append, Logger.length_micros]
  unfold Logger.suffix
  split <;> simp

/-- The cursor of a buffer that is not full. -/
theorem cur_of_content (hb : b.content.length < kSmallBufferSize) : b.cur_ = b.content.length := by
  rw [FixedBuffer.content, List.length_take, b.size, FixedBuffer.length] at hb ⊢
  omega

/-- A new stream gets the time, afresh, and a `NUL`. -/
theorem formatTime_release (hs : Sound env tz s) {e : List UInt8} (h : Fits env tz e st) :
    ∃ b u, formatTime .release (Libc.zoned env.P) s.time st.time_ st.stream_ = .ok (b, u) ∧
      b.content = stamp env tz st.time_ ++ micros tz st.time_ ++ [0] ∧ b.cur_ ≤ 26 ∧
      Sound env tz { s with time := u } := by
  obtain ⟨ht, ht'⟩ := h.time
  have hmay : Logger.may (.formatTime st.time_ st.stream_) := ⟨by omega, ht', h.new⟩
  have hsec : 0 ≤ st.time_ / 1000000 ∧ st.time_ / 1000000 < 2147483648 := ⟨by omega, ht'⟩
  obtain ⟨text, htext⟩ : ∃ text, afresh (Libc.zoned env.P) tz (st.time_ / 1000000) = .ok text := by
    cases hshown : afresh (Libc.zoned env.P) tz (st.time_ / 1000000) with
    | ok text => exact ⟨text, rfl⟩
    | error fault =>
      have hfalse := h.shown
      rw [hshown] at hfalse
      cases hfalse
  obtain ⟨u, hu⟩ := cacheTime_release (hs.zone.symm ▸ htext)
  obtain ⟨hcached, hzone, hiff⟩ := hs.cached.cacheTime hsec hu
  have hcurrent := hiff.mpr (hs.current ht)
  obtain ⟨b, hb⟩ := formatTime_of_cacheTime hs.cached hmay hu
  obtain ⟨-, hcontent⟩ := Logger.formatTime_eq_ok hs.cached hmay hb
  rw [hs.zone, htext] at hcurrent
  have hstamp : stamp env tz st.time_ = u.t_time.take 17 := by
    rw [stamp, htext]
    exact Except.ok.inj hcurrent
  rw [← hstamp, hzone, hs.zone] at hcontent
  have hseventeen : (stamp env tz st.time_).length = 17 := by
    rw [hstamp, List.length_take, hcached.length]
    rfl
  have hmicros := length_micros_le tz st.time_
  have hlength : b.content.length ≤ 26 := by
    rw [hcontent, List.length_append, List.length_append, List.length_singleton, hseventeen]
    omega
  have hcur := cur_of_content (Nat.lt_of_le_of_lt hlength (by decide))
  refine ⟨b, u, hb, hcontent, by omega, hcached, hzone.trans hs.zone, fun z hz => ?_, hs.tid⟩
  obtain ⟨-, rfl⟩ | ⟨-, tm, -, rfl⟩ := Logger.cacheTime_eq_ok hu
  · exact hs.own z hz
  · exact (Option.some.inj hz).symm.trans hs.zone

/-! ### A statement -/

/-- The constructor leaves the time and the heading in the buffer, and the text of its error in the
array. -/
theorem construct_release (henv : Numbered env) (hs : Sound env tz s)
    (h : Fits env tz s.t_errnobuf st) :
    ∃ b s', construct .release env s st = .ok (b, s') ∧ Sound env tz s' ∧
      b.content = stamp env tz st.time_ ++ micros tz st.time_ ++ [0] ++ heading env s.t_errnobuf st ∧
      b.cur_ ≤ 26 + (heading env s.t_errnobuf st).length ∧
      s'.view = { s.view with
        t_errnobuf := if st.name.savedErrno st.errno = 0 then s.t_errnobuf
          else strerror_tl env s.t_errnobuf (st.name.savedErrno st.errno) } := by
  have hroom := h.room
  obtain ⟨b, u, hb, hcontent, hcur, hs₁⟩ := formatTime_release hs h
  obtain ⟨htid, hs₂, hview⟩ := tid_spec henv hs₁
  have hbuf : (tid env { s with time := u }).t_errnobuf = s.t_errnobuf := congrArg View.t_errnobuf hview
  have hname : stringHelper .release (LogLevelNames st.name.level ++ [0]) 6 =
      .ok (LogLevelNames st.name.level) := by
    cases st.name.level <;> rfl
  have hheading := rendering_heading env s.t_errnobuf st
  generalize hl : Insertion.append (percentD false 5 env.gettid ++ [32]) ::
    .append (LogLevelNames st.name.level) ::
      ((errnoPart env s.t_errnobuf (st.name.savedErrno st.errno)).1 ++ funcPart st) = l at hheading
  have hwhole : ∀ i ∈ l, i.Whole := hl ▸ whole_heading _ _ _ st
  have htaken := taken_whole hwhole (by rw [hheading]; omega)
  obtain ⟨c, hc, hcontent', hcur'⟩ := LogStream.foldlM_taken (b := b) (by decide) l
    (by rw [hheading]; omega)
  rw [htaken, hheading] at hcontent' hcur'
  refine ⟨c, { tid env { s with time := u } with
    t_errnobuf := (errnoPart env s.t_errnobuf (st.name.savedErrno st.errno)).2 }, ?_,
    ⟨hs₂.cached, hs₂.zone, hs₂.own, hs₂.tid⟩, by rw [hcontent', hcontent], by omega, ?_⟩
  · rw [construct, hb]
    simp only [ok_bind]
    rw [htid, ok_bind, hname, ok_bind, hbuf, hl, hc, ok_bind, pure_eq_ok]
  · rw [← errnoPart_snd]
    simp only [State.view, View.mk.injEq] at hview ⊢
    exact ⟨hview.1, trivial, hview.2.2⟩

/-- The destructor hands out what is in the buffer and the ending. -/
theorem destruct_spec (env : Env) (tz : TimeZone) (s : State)
    (hroom : b.cur_ + (ending st).length < kSmallBufferSize) : ∃ s',
    destruct s st b = .ok s' ∧ (Sound env tz s → Sound env tz s') ∧
      s'.view = if st.name.level = .FATAL then
          { s.view with
            output := s.output ++ [b.content ++ ending st]
            flushed := s.output ++ [b.content ++ ending st]
            aborted := true }
        else { s.view with output := s.output ++ [b.content ++ ending st] } := by
  have hending := rendering_ending st
  have htaken := taken_whole (whole_ending st) (by rw [hending]; omega)
  obtain ⟨c, hc, hcontent, -⟩ := LogStream.foldlM_taken (b := b) (by decide) (finishPart st)
    (by rw [hending]; omega)
  rw [htaken, hending] at hcontent
  rw [destruct, finish, hc, ok_bind, hcontent]
  dsimp only
  split
  · exact ⟨_, pure_eq_ok _, fun h => ⟨h.cached, h.zone, h.own, h.tid⟩, rfl⟩
  · exact ⟨_, pure_eq_ok _, fun h => ⟨h.cached, h.zone, h.own, h.tid⟩, rfl⟩

/-- In a release build every step that is allowed returns, and the log is as its reader knows it. -/
theorem step_spec (henv : Numbered env) (hs : Sound env tz s) {l : Action} (hm : may env s l) :
    ∃ s', step .release env s l = .ok ((), s') ∧ Sound env tz s' ∧
      s'.view = s.view.next env tz l := by
  cases l with
  | setLogLevel level => exact ⟨_, rfl, ⟨hs.cached, hs.zone, hs.own, hs.tid⟩, rfl⟩
  | log st =>
    cases hon : st.name.enabled s.g_logLevel with
    | false =>
      refine ⟨s, by rw [step, hon]; rfl, hs, ?_⟩
      rw [View.next, if_neg (by simp [State.view, hon])]
    | true =>
      have hfits := hm.2 hon
      rw [hs.zone] at hfits
      have hroom := hfits.room
      obtain ⟨b, s₁, hb, hs₁, hcontent, hcur, hview⟩ := construct_release henv hs hfits
      have hsize : kMaxNumericSize ≤ kSmallBufferSize := by decide
      have hle := LogStream.length_taken_le_rendering hsize st.message (by omega)
      obtain ⟨c, hc, hcontent', hcur'⟩ := LogStream.foldlM_taken (b := b) hsize st.message (by omega)
      obtain ⟨s', hs', hsound, hview'⟩ := destruct_spec env tz s₁
        (by omega : c.cur_ + (ending st).length < kSmallBufferSize)
      refine ⟨s', ?_, hsound hs₁, ?_⟩
      · rw [step, if_pos hon, hb, ok_bind]
        simp only [hc, hs', ok_bind, pure_eq_ok]
      · rw [hview', hview, hcontent', hcontent, View.next, if_pos (show st.name.enabled s.view.g_logLevel = true from hon)]
        have hout : s₁.output = s.output := congrArg View.output hview
        rw [hout]
        rfl

/-! ### A run -/

variable {tr : List (Action × Unit)} {t : State} {level : LogLevel}

theorem sound_initial (hz : Ints tz) (level : LogLevel) : Sound env tz (initial tz level) where
  cached := ⟨hz, rfl, fun _ => ⟨rfl, rfl⟩, nofun⟩
  zone := rfl
  own := nofun
  tid := .inl ⟨rfl, rfl⟩

theorem view_run (henv : Numbered env) (h : (machine .release env).Run s tr t)
    (hs : Sound env tz s) :
    Sound env tz t ∧ t.view = (tr.map Prod.fst).foldl (View.next env tz) s.view := by
  induction h with
  | nil => exact ⟨hs, rfl⟩
  | cons hm hstep _ ih =>
    obtain ⟨s', hs', hsound, hview⟩ := step_spec henv hs hm
    obtain ⟨-, rfl⟩ := Prod.mk.inj (Except.ok.inj (hstep.symm.trans hs'))
    rw [List.map_cons, List.foldl_cons, ← hview]
    exact ih hsound

theorem fatal_enabled {m : Macro} (h : m.level = .FATAL) (l : LogLevel) : m.enabled l = true := by
  cases m <;> first | rfl | cases h

/-- Where a fatal statement has been executed, and what has been flushed then. -/
structure Ended (tr : List (Action × Unit)) (s : State) : Prop where
  aborted_iff : s.aborted = true ↔ ∃ st, (.log st, ()) ∈ tr ∧ st.name.level = .FATAL
  flushed : s.aborted = true → s.flushed = s.output

theorem ended_run (henv : Numbered env) (hz : Ints tz)
    (h : (machine .release env).Run (initial tz level) tr s) : Ended tr s := by
  refine h.snoc_induction ⟨by simp [initial], nofun⟩ fun tr u l o v hrun ih hm hstep => ?_
  obtain ⟨hsound, -⟩ := view_run henv hrun (sound_initial hz level)
  obtain ⟨v', hv, -, hview⟩ := step_spec henv hsound hm
  obtain ⟨-, rfl⟩ := Prod.mk.inj (Except.ok.inj (hstep.symm.trans hv))
  have haborted : v.aborted = (u.view.next env tz l).aborted := congrArg View.aborted hview
  have hflushed : v.flushed = (u.view.next env tz l).flushed := congrArg View.flushed hview
  have houtput : v.output = (u.view.next env tz l).output := congrArg View.output hview
  have hlive : u.aborted = false := by
    cases l with
    | setLogLevel => exact hm
    | log => exact hm.1
  have hnone : ¬ ∃ st, (Action.log st, ()) ∈ tr ∧ st.name.level = .FATAL := fun hst => by
    rw [ih.aborted_iff.mpr hst] at hlive
    cases hlive
  by_cases hfatal : ∃ st, l = .log st ∧ st.name.level = .FATAL
  · obtain ⟨st, rfl, hst⟩ := hfatal
    have hnext : u.view.next env tz (.log st) = _ :=
      if_pos (show st.name.enabled u.view.g_logLevel = true from fatal_enabled hst _)
    rw [hnext] at haborted hflushed houtput
    simp only [hst, if_true] at haborted hflushed houtput
    exact ⟨iff_of_true haborted ⟨st, by simp, hst⟩, fun _ => hflushed.trans houtput.symm⟩
  · have hstill : v.aborted = false := by
      rw [haborted]
      cases l with
      | setLogLevel => exact hlive
      | log st =>
        have hst : st.name.level ≠ .FATAL := fun hst => hfatal ⟨st, rfl, hst⟩
        rw [View.next]
        split <;> exact hlive
    refine ⟨iff_of_false (by simp [hstill]) ?_, fun h => by simp [hstill] at h⟩
    rintro ⟨st, hmem, hst⟩
    rcases List.mem_append.mp hmem with hmem | hmem
    · exact hnone ⟨st, hmem, hst⟩
    · exact hfatal ⟨st, (Prod.mk.inj (List.mem_singleton.mp hmem)).1.symm, hst⟩

/-! ### One line each -/

/-- Nothing in the statement breaks the line. -/
structure OneLine (st : Statement) : Prop where
  file : 10 ∉ st.file
  func : 10 ∉ st.func
  message : 10 ∉ LogStream.taken st.message

theorem foreign_newline : Foreign 10 := by
  unfold Foreign
  decide

theorem newline_not_mem_decimal (v : Int) : 10 ∉ detail.decimal v := by
  have hdecimal : detail.decimal v = percentD false 0 v := by simp [detail.decimal, percentD]
  rw [hdecimal]
  exact foreign_newline.not_mem_percentD

theorem newline_not_mem_stamp (time_ : Int) : 10 ∉ stamp env tz time_ := by
  unfold stamp
  cases htext : afresh (Libc.zoned env.P) tz (time_ / 1000000) with
  | error fault => exact List.not_mem_nil
  | ok text =>
    obtain ⟨tm, -, rfl⟩ := Logger.afresh_eq_ok htext
    exact foreign_newline.not_mem_dateTime

theorem newline_not_mem_micros (time_ : Int) : 10 ∉ micros tz time_ := by
  unfold micros Logger.suffix
  split <;> simp [foreign_newline.not_mem_percentD]

theorem OneLine.newline_not_mem (h : OneLine st) {e : List UInt8} (he : 10 ∉ e)
    (herror : ∀ code text, env.strerror_r code = some text → 10 ∉ text) :
    10 ∉ heading env e st ∧ ∀ code, 10 ∉ strerror_tl env e code := by
  have htext (code : Int32) : 10 ∉ strerror_tl env e code := by
    unfold strerror_tl
    cases hcode : env.strerror_r code with
    | none => exact he
    | some text => exact herror code text hcode
  have hname : 10 ∉ LogLevelNames st.name.level := by cases st.name.level <;> decide
  have hopen : 10 ∉ errnoOpen := by decide
  refine ⟨?_, htext⟩
  unfold heading
  split_ifs <;> simp [foreign_newline.not_mem_percentD, hname, htext, hopen, newline_not_mem_decimal,
    h.func]

theorem sourceFile_subset (filename : List UInt8) : sourceFile filename ⊆ filename := by
  unfold sourceFile
  split
  · exact List.drop_subset _ _
  · exact List.Subset.refl _

/-- The newline of a line is its last byte. -/
theorem OneLine.count (h : OneLine st) {e : List UInt8} (he : 10 ∉ heading env e st) :
    (line env tz e st).count 10 = 1 := by
  have hfile : 10 ∉ sourceFile st.file := fun hmem => h.file (sourceFile_subset _ hmem)
  simp [line, ending, List.count_eq_zero_of_not_mem, newline_not_mem_stamp, newline_not_mem_micros,
    he, h.message, hfile, newline_not_mem_decimal]

theorem count_foldl (herror : ∀ code text, env.strerror_r code = some text → 10 ∉ text)
    {ls : List Action} {v : View} (hls : ∀ st, .log st ∈ ls → OneLine st) (hv : 10 ∉ v.t_errnobuf)
    (hout : ∀ m ∈ v.output, m.count 10 = 1) :
    ∀ m ∈ (ls.foldl (View.next env tz) v).output, m.count 10 = 1 := by
  induction ls generalizing v with
  | nil => exact hout
  | cons l ls ih =>
    have hrest (st : Statement) (hst : Action.log st ∈ ls) : OneLine st :=
      hls st (List.mem_cons_of_mem _ hst)
    cases l with
    | setLogLevel level => exact ih hrest hv hout
    | log st =>
      have hst := hls st List.mem_cons_self
      obtain ⟨hheading, htext⟩ := hst.newline_not_mem hv herror
      have hbuf : 10 ∉ if st.name.savedErrno st.errno = 0 then v.t_errnobuf
          else strerror_tl env v.t_errnobuf (st.name.savedErrno st.errno) := by
        split
        · exact hv
        · exact htext _
      have hlines : ∀ m ∈ v.output ++ [line env tz v.t_errnobuf st], m.count 10 = 1 := by
        intro m hm
        rcases List.mem_append.mp hm with hm | hm
        · exact hout m hm
        · rw [List.mem_singleton.mp hm]
          exact hst.count hheading
      rw [List.foldl_cons, View.next]
      split
      · dsimp only
        split
        · exact ih hrest hbuf hlines
        · exact ih hrest hbuf hlines
      · exact ih hrest hv hout

/-- **Over a run of a release build the log is, in order, one line of each statement that its macro
lets through**: the time as the zone shows it, a `NUL`, the thread, the level, the error as the array
has it, the message, the file and the number of the line. A fatal statement is the last one, and the
log is flushed up to it. No statement that fits fails. -/
theorem log_lines (henv : Numbered env) (hz : Ints tz)
    (h : (machine .release env).Run (initial tz level) tr s) :
    s.view = (tr.map Prod.fst).foldl (View.next env tz) ⟨level, [], [], [], false⟩ ∧
    ((s.aborted = true ↔ ∃ st, (.log st, ()) ∈ tr ∧ st.name.level = .FATAL) ∧
      (s.aborted = true → s.flushed = s.output ∧ ∀ l, ¬ may env s l)) ∧
    ((∀ code text, env.strerror_r code = some text → 10 ∉ text) →
      (∀ st, (.log st, ()) ∈ tr → OneLine st) → ∀ m ∈ s.output, m.count 10 = 1) ∧
    ∀ l, may env s l → ∃ s', step .release env s l = .ok ((), s') := by
  obtain ⟨hsound, hview⟩ := view_run henv h (sound_initial hz level)
  have hended := ended_run henv hz h
  refine ⟨hview, ⟨hended.aborted_iff, fun haborted => ⟨hended.flushed haborted, fun l hm => ?_⟩⟩,
    fun herror hlines => ?_, fun l hm => ?_⟩
  · have hlive : s.aborted = false := by
      cases l with
      | setLogLevel => exact hm
      | log => exact hm.1
    rw [haborted] at hlive
    cases hlive
  · have houtput : s.output = _ := congrArg View.output hview
    rw [houtput]
    refine count_foldl herror (fun st hst => ?_) List.not_mem_nil nofun
    obtain ⟨e, he, heq⟩ := List.mem_map.mp hst
    exact hlines st (by rw [← heq]; exact he)
  · obtain ⟨s', hs', -⟩ := step_spec henv hsound hm
    exact ⟨s', hs'⟩

/-- A process in UTC; only error 7 is stored by `strerror_r`, as `"E7"`. -/
def sample : Env := ⟨0, 1234, fun code => if code = 7 then some [69, 55] else none⟩

/-- `"hi"`, from line 12 of `"/src/a.cc"`, one second after the epoch. -/
def hi (name : Macro) (errno : Int32) : Statement :=
  ⟨name, [47, 115, 114, 99, 47, 97, 46, 99, 99], 12, [102], [.cstring (some [104, 105])], 1000000,
    errno, Logger.empty⟩

/-- A trace statement that is not let through, an error 7, and a fatal error 3 that shows its text:
`" 1234 ERROR E7 (errno = 7) hi - a.cc:12"`, `" 1234 FATAL E7 (errno = 3) hi - a.cc:12"`. -/
theorem log_lines_stale : ∃ tr s, (machine .release sample).Run (initial ⟨none⟩ .INFO) tr s ∧
    s.output.map (List.drop 26) =
      [[32, 49, 50, 51, 52, 32, 69, 82, 82, 79, 82, 32, 69, 55, 32, 40, 101, 114, 114, 110, 111, 32,
          61, 32, 55, 41, 32, 104, 105, 32, 45, 32, 97, 46, 99, 99, 58, 49, 50, 10],
        [32, 49, 50, 51, 52, 32, 70, 65, 84, 65, 76, 32, 69, 55, 32, 40, 101, 114, 114, 110, 111, 32,
          61, 32, 51, 41, 32, 104, 105, 32, 45, 32, 97, 46, 99, 99, 58, 49, 50, 10]] ∧
    (s.view = (tr.map Prod.fst).foldl (View.next sample ⟨none⟩) ⟨.INFO, [], [], [], false⟩ ∧
    ((s.aborted = true ↔ ∃ st, (.log st, ()) ∈ tr ∧ st.name.level = .FATAL) ∧
      (s.aborted = true → s.flushed = s.output ∧ ∀ l, ¬ may sample s l)) ∧
    ((∀ code text, sample.strerror_r code = some text → 10 ∉ text) →
      (∀ st, (.log st, ()) ∈ tr → OneLine st) → ∀ m ∈ s.output, m.count 10 = 1) ∧
    ∀ l, may sample s l → ∃ s', step .release sample s l = .ok ((), s')) := by
  obtain ⟨tr, s, h, -, houtput⟩ := (machine .release sample).exists_run_of_replay
    (s := initial ⟨none⟩ .INFO) (P := fun _ s => s.output.map (List.drop 26) =
      [[32, 49, 50, 51, 52, 32, 69, 82, 82, 79, 82, 32, 69, 55, 32, 40, 101, 114, 114, 110, 111, 32,
          61, 32, 55, 41, 32, 104, 105, 32, 45, 32, 97, 46, 99, 99, 58, 49, 50, 10],
        [32, 49, 50, 51, 52, 32, 70, 65, 84, 65, 76, 32, 69, 55, 32, 40, 101, 114, 114, 110, 111, 32,
          61, 32, 51, 41, 32, 104, 105, 32, 45, 32, 97, 46, 99, 99, 58, 49, 50, 10]])
    [.log (hi .LOG_TRACE 0), .log (hi .LOG_SYSERR 7), .log (hi .LOG_SYSFATAL 3)] (by decide +kernel)
  exact ⟨tr, s, h, houtput, log_lines ⟨by decide, by decide⟩ (by decide) h⟩

end Leanet.Log

import Leanet.Foundation.Fault
import Leanet.Foundation.Machine
import Leanet.Foundation.OrdSet
import Mathlib.Logic.Function.Basic

/-! The timer queue.

Timers live in a heap and are known by address: `timers` orders them by expiration,
`activeTimers` finds them by address and sequence number, and while their callbacks run
the expired ones are held by `handleRead` alone. Freed addresses come back, sequence
numbers do not. A step is one operation on the loop's thread: `handleRead` is cut before
each callback, so that what a callback adds and cancels are steps of their own.

Times are microseconds; an interval is known by its sign and by the microseconds that
`addTime` makes of it. The timerfd expires on its own; a value of zero disarms it and one
out of range is refused. -/
namespace Leanet.TimerQueue

/-- An interval in seconds, as `repeat_` and `addTime` see it. -/
structure Interval where
  positive : Bool
  micros : Int
  nonneg : positive = true → 0 ≤ micros
  deriving DecidableEq

/-- The interval of `addTimer(cb, when, 0.0)`. -/
def Interval.once : Interval := ⟨false, 0, nofun⟩

def Interval.every (micros : Nat) : Interval := ⟨true, micros, fun _ => Int.natCast_nonneg micros⟩

structure Timer where
  expiration : Int
  interval : Interval
  sequence : Nat
  deriving DecidableEq

/-- `repeat_`. -/
def Timer.repeats (t : Timer) : Bool := t.interval.positive

structure TimerId where
  timer : Nat
  sequence : Nat
  deriving DecidableEq, Repr

/-- `std::pair<Timestamp, Timer*>`. -/
abbrev Entry := Int ×ₗ Nat

/-- `std::pair<Timer*, int64_t>`. -/
abbrev ActiveTimer := Nat ×ₗ Nat

def entry (when : Int) (timer : Nat) : Entry := toLex (when, timer)
def activeTimer (timer sequence : Nat) : ActiveTimer := toLex (timer, sequence)

def Entry.expiration (e : Entry) : Int := (ofLex e).1
def Entry.timer (e : Entry) : Nat := (ofLex e).2

structure Timespec where
  tv_sec : Int
  tv_nsec : Int
  deriving DecidableEq, Repr

inductive Timerfd where
  | disarmed
  /-- Armed with `value` at the time `at_`. -/
  | armed (value : Timespec) (at_ : Int)
  /-- Readable. -/
  | expired
  deriving DecidableEq, Repr

/-- A `handleRead` in progress: `expired` is `done ++ waiting`, callbacks of `done`
have been started. -/
structure Batch where
  now : Int
  done : List Entry
  waiting : List Entry

structure State where
  heap : Nat → Option Timer
  numCreated : Nat
  timers : OrdSet Entry
  activeTimers : OrdSet ActiveTimer
  callingExpiredTimers : Bool
  cancelingTimers : OrdSet ActiveTimer
  timerfd : Timerfd
  /-- Constructed by `addTimer`, not yet seen by the loop. -/
  created : List Nat
  batch : Option Batch

/-- `TimerQueue(loop)`, which leaves `callingExpiredTimers_` as it finds it. -/
def initial (callingExpiredTimers : Bool) : State where
  heap := fun _ => none
  numCreated := 0
  timers := .empty
  activeTimers := .empty
  callingExpiredTimers
  cancelingTimers := .empty
  timerfd := .disarmed
  created := []
  batch := none

/-! ### The timerfd -/

def kMicroSecondsPerSecond : Int := 1000 * 1000

/-- `howMuchTimeFromNow(when)`, the clock reading `now`. -/
def howMuchTimeFromNow (now when : Int) : Timespec :=
  let microseconds := when - now
  let microseconds := if microseconds < 100 then 100 else microseconds
  ⟨microseconds.tdiv kMicroSecondsPerSecond, microseconds.tmod kMicroSecondsPerSecond * 1000⟩

/-- `timerfd_settime(fd, 0, {value, no interval})` at `now`. -/
def settime (fd : Timerfd) (now : Int) (value : Timespec) : Timerfd :=
  if value.tv_sec < 0 ∨ value.tv_nsec < 0 ∨ 1000000000 ≤ value.tv_nsec then fd
  else if value = ⟨0, 0⟩ then .disarmed
  else .armed value now

def resetTimerfd (s : State) (now expiration : Int) : State :=
  { s with timerfd := settime s.timerfd now (howMuchTimeFromNow now expiration) }

/-- A read takes the expirations, if there are any. -/
def readTimerfd (s : State) : State :=
  match s.timerfd with
  | .expired => { s with timerfd := .disarmed }
  | _ => s

/-! ### The operations -/

def UINTPTR_MAX : Nat := 0xffffffffffffffff

/-- `timer->restart(now)`. -/
def Timer.restart (t : Timer) (now : Int) : Timer :=
  if t.repeats then { t with expiration := now + t.interval.micros } else { t with expiration := 0 }

def insert (s : State) (timer : Nat) : Except Fault (Bool × State) := do
  let t ← deref (s.heap timer)
  let earliestChanged := match s.timers.first with
    | none => true
    | some e => decide (t.expiration < e.expiration)
  let s := { s with timers := s.timers.insert (entry t.expiration timer) }
  let s := { s with activeTimers := s.activeTimers.insert (activeTimer timer t.sequence) }
  pure (earliestChanged, s)

/-- `delete timer`. -/
def delete (s : State) (timer : Nat) : Except Fault State := do
  let _ ← deref (s.heap timer)
  pure { s with heap := Function.update s.heap timer none }

def addTimerInLoop (s : State) (clock : Int) (timer : Nat) : Except Fault State := do
  let (earliestChanged, s) ← insert s timer
  if earliestChanged then
    let t ← deref (s.heap timer)
    pure (resetTimerfd s clock t.expiration)
  else pure s

def cancelTimerInLoop (s : State) (timerid : TimerId) : Except Fault State := do
  let timer := activeTimer timerid.timer timerid.sequence
  if timer ∈ s.activeTimers then
    let t ← deref (s.heap timerid.timer)
    let e := entry t.expiration timerid.timer
    let n := s.timers.count e
    let s := { s with timers := s.timers.erase e }
    assert (n = 1)
    let s ← delete s timerid.timer
    pure { s with activeTimers := s.activeTimers.erase timer }
  else if s.callingExpiredTimers then
    pure { s with cancelingTimers := s.cancelingTimers.insert timer }
  else pure s

/-- The loop of `getExpired` over the timers it has moved out. -/
def deactivate (s : State) : List Entry → Except Fault State
  | [] => pure s
  | e :: rest => do
    let t ← deref (s.heap e.timer)
    let timer := activeTimer e.timer t.sequence
    let n := s.activeTimers.count timer
    let s := { s with activeTimers := s.activeTimers.erase timer }
    assert (n = 1)
    deactivate s rest

def getExpired (s : State) (now : Int) : Except Fault (List Entry × State) := do
  let sentry := entry now UINTPTR_MAX
  let expireEnd := (s.timers.notBelow sentry).first
  assert (∀ e ∈ expireEnd, now < e.expiration)
  let expired := s.timers.below sentry
  let s := { s with timers := s.timers.notBelow sentry }
  let s ← deactivate s expired
  pure (expired, s)

/-- `handleRead`, up to the first callback. -/
def beginRead (s : State) (now : Int) : Except Fault State := do
  let s := readTimerfd s
  let (expired, s) ← getExpired s now
  pure { s with
    callingExpiredTimers := true
    cancelingTimers := .empty
    batch := some ⟨now, [], expired⟩ }

/-- The loop of `reset` over the batch. -/
def readd (s : State) (now : Int) : List Entry → Except Fault State
  | [] => pure s
  | e :: rest => do
    let t ← deref (s.heap e.timer)
    let timer := activeTimer e.timer t.sequence
    if t.repeats ∧ timer ∉ s.cancelingTimers then
      let s := { s with heap := Function.update s.heap e.timer (some (t.restart now)) }
      let (_, s) ← insert s e.timer
      readd s now rest
    else
      let s ← delete s e.timer
      readd s now rest

def reset (s : State) (clock now : Int) (expired : List Entry) : Except Fault State := do
  let s ← readd s now expired
  let nextExpire ← match s.timers.first with
    | some e => do
      let t ← deref (s.heap e.timer)
      pure t.expiration
    | none => pure 0
  if 0 < nextExpire then pure (resetTimerfd s clock nextExpire) else pure s

/-- `handleRead`, after the last callback. -/
def endRead (s : State) (clock : Int) (b : Batch) : Except Fault State := do
  let s := { s with callingExpiredTimers := false, batch := none }
  reset s clock b.now (b.done ++ b.waiting)

/-! ### The machine -/

inductive Action where
  /-- `new Timer(cb, when, interval)` at `timer`, on any thread. -/
  | create (timer : Nat) (when : Int) (interval : Interval)
  /-- `clock`: what a reading of the clock would give. -/
  | addTimerInLoop (timer : Nat) (clock : Int)
  | cancelTimerInLoop (timerid : TimerId)
  | beginRead (now : Int)
  /-- The next callback of the batch starts. -/
  | run
  | endRead (clock : Int)
  /-- The timerfd expires. -/
  | expire
  deriving DecidableEq

inductive Event where
  /-- `TimerId(timer, timer->sequence())`. -/
  | issued (id : TimerId)
  | inserted (id : TimerId)
  | started (id : TimerId)
  deriving DecidableEq, Repr

/-- Code of the loop's clients runs: between the loop's own operations, or in a callback. -/
def State.inClient (s : State) : Bool :=
  match s.batch with
  | none => true
  | some b => !b.done.isEmpty

def may (s : State) : Action → Prop
  | .create timer _ _ => s.heap timer = none ∧ timer < UINTPTR_MAX
  | .addTimerInLoop timer _ => timer ∈ s.created ∧ s.inClient = true
  | .cancelTimerInLoop _ => s.inClient = true
  | .beginRead _ => s.batch.isNone = true
  | .run => ∃ b ∈ s.batch, b.waiting ≠ []
  | .endRead _ => ∃ b ∈ s.batch, b.waiting = []
  | .expire => ∃ value at_, s.timerfd = .armed value at_

/-- The id of a live timer. -/
def identify (s : State) (timer : Nat) : Except Fault TimerId := do
  let t ← deref (s.heap timer)
  pure ⟨timer, t.sequence⟩

def step (s : State) : Action → Except Fault (Option Event × State)
  | .create timer when interval =>
    let sequence := s.numCreated + 1
    pure (some (.issued ⟨timer, sequence⟩), { s with
      numCreated := sequence
      heap := Function.update s.heap timer (some ⟨when, interval, sequence⟩)
      created := s.created ++ [timer] })
  | .addTimerInLoop timer clock => do
    let s ← addTimerInLoop { s with created := s.created.erase timer } clock timer
    let id ← identify s timer
    pure (some (.inserted id), s)
  | .cancelTimerInLoop timerid => do
    let s ← cancelTimerInLoop s timerid
    pure (none, s)
  | .beginRead now => do
    let s ← beginRead s now
    pure (none, s)
  | .run =>
    match s.batch with
    | some ⟨now, done, e :: rest⟩ => do
      let id ← identify s e.timer
      pure (some (.started id), { s with batch := some ⟨now, done ++ [e], rest⟩ })
    | _ => .error .dangling
  | .endRead clock => do
    let b ← deref s.batch
    let s ← endRead s clock b
    pure (none, s)
  | .expire => pure (none, { s with timerfd := .expired })

def machine : Machine State Action (Option Event) Fault where
  may := may
  step := step

instance (fd : Timerfd) : Decidable (∃ value at_, fd = .armed value at_) :=
  match fd with
  | .armed value at_ => isTrue ⟨value, at_, rfl⟩
  | .disarmed | .expired => isFalse nofun

instance (s : State) : (l : Action) → Decidable (machine.may s l)
  | .create _ _ _ | .addTimerInLoop _ _ => inferInstanceAs (Decidable (_ ∧ _))
  | .cancelTimerInLoop _ | .beginRead _ => inferInstanceAs (Decidable (_ = _))
  | .run | .endRead _ => inferInstanceAs (Decidable (∃ _, _ ∧ _))
  | .expire => inferInstanceAs (Decidable (∃ value at_, s.timerfd = .armed value at_))

end Leanet.TimerQueue

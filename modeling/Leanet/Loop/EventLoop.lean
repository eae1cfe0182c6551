import Leanet.Foundation.Fault
import Leanet.Foundation.Machine
import Mathlib.Logic.Function.Basic

/-! The event loop and the threads around it.

One thread owns the loop (`threadId`) and is at one point of `loop()`; every other
thread is at one point of `queueInLoop` or `quit`. A step is one thread's next
action on what the threads share: a critical section of the mutex, a store to one
of the flags, a write or read of the wakeup eventfd. Channel callbacks, functors and
the destructors of a finished batch run client code on the loop's thread, which may
itself call `queueInLoop` and `quit`; outside `loop()` the owner may do so too. -/
namespace Leanet.EventLoop

/-- Where the owner is in `loop()`. -/
inductive Point (F : Type) where
  | outside
  /-- At `while (!quit_)`. -/
  | testing
  /-- About to block in `poller_->poll`. -/
  | polling
  /-- Handling the active channels; `wake`: `wakeupChannel_` is among them, not yet handled. -/
  | dispatching (wake : Bool)
  /-- In `doPendingFunctors`, before the critical section. -/
  | swapping
  /-- In the loop over the swapped batch, `rest` not started; `busy`: inside a functor. -/
  | running (rest : List F) (busy : Bool)
  /-- `doPendingFunctors` returns: the batch, a local vector, is destroyed. -/
  | leaving
  deriving DecidableEq

/-- Where a thread is in a call to the loop. -/
inductive Call where
  | none
  /-- In `queueInLoop`, past the critical section. -/
  | pushed
  /-- In `quit`, past `quit_ = true`. -/
  | quitting
  deriving DecidableEq

structure State (F T : Type) where
  looping : Bool
  quit : Bool
  callingPendingFunctors : Bool
  pendingFunctors : List F
  /-- The counter of the eventfd: readable when positive. -/
  wakeupFd : Nat
  point : Point F
  call : T → Call

inductive Action (F T : Type) where
  /-- `queueInLoop`, its critical section. -/
  | queueInLoop (t : T) (f : F)
  /-- `queueInLoop`, what follows the critical section. -/
  | notify (t : T)
  | quit (t : T)
  /-- `quit`, what follows the store. -/
  | quitNotify (t : T)
  | loop
  | test
  | poll
  | handleRead
  | doPendingFunctors
  | swap
  | run
  | return
  | finish
  | leave

variable {F T : Type}

/-- `EventLoop()`. -/
def initial : State F T where
  looping := false
  quit := false
  callingPendingFunctors := false
  pendingFunctors := []
  wakeupFd := 0
  point := .outside
  call := fun _ => .none

/-- An eventfd counts up to `2^64 - 2`; a write that does not fit is refused. -/
def eventfdMax : Nat := 0xfffffffffffffffe

def State.wakeup (s : State F T) : State F T :=
  { s with wakeupFd := min (s.wakeupFd + 1) eventfdMax }

@[simp] theorem wakeup_pendingFunctors (s : State F T) :
    s.wakeup.pendingFunctors = s.pendingFunctors := rfl

@[simp] theorem wakeup_point (s : State F T) : s.wakeup.point = s.point := rfl

@[simp] theorem wakeup_call (s : State F T) : s.wakeup.call = s.call := rfl

theorem wakeup_readable (s : State F T) : 0 < s.wakeup.wakeupFd := by
  simp only [State.wakeup, eventfdMax]
  omega

/-- Client code runs on the owner's thread. -/
def Point.inClient : Point F → Bool
  | .outside | .dispatching _ | .running _ true | .leaving => true
  | _ => false

def Point.isDispatching : Point F → Bool
  | .dispatching _ => true
  | _ => false

/-- Before a functor of the batch. -/
def Point.isReady : Point F → Bool
  | .running (_ :: _) false => true
  | _ => false

/-- Inside a functor of the batch. -/
def Point.isBusy : Point F → Bool
  | .running _ true => true
  | _ => false

theorem Point.isDispatching_iff {p : Point F} :
    p.isDispatching = true ↔ ∃ wake, p = .dispatching wake := by
  cases p <;> simp [isDispatching]

theorem Point.isReady_iff {p : Point F} :
    p.isReady = true ↔ ∃ f rest, p = .running (f :: rest) false := by
  unfold isReady
  split <;> simp_all

theorem Point.isBusy_iff {p : Point F} : p.isBusy = true ↔ ∃ rest, p = .running rest true := by
  unfold isBusy
  split <;> simp_all

/-- A thread takes its next action; the owner's actions follow the source order. -/
def may (threadId : T) (s : State F T) : Action F T → Prop
  | .queueInLoop t _ | .quit t => s.call t = .none ∧ (t = threadId → s.point.inClient = true)
  | .notify t => s.call t = .pushed
  | .quitNotify t => s.call t = .quitting
  | .loop => s.call threadId = .none ∧ s.point = .outside
  | .test => s.call threadId = .none ∧ s.point = .testing
  | .poll => s.call threadId = .none ∧ s.point = .polling
  | .handleRead => s.call threadId = .none ∧ s.point = .dispatching true
  | .doPendingFunctors => s.call threadId = .none ∧ s.point.isDispatching = true
  | .swap => s.call threadId = .none ∧ s.point = .swapping
  | .run => s.call threadId = .none ∧ s.point.isReady = true
  | .return => s.call threadId = .none ∧ s.point.isBusy = true
  | .finish => s.call threadId = .none ∧ s.point = .running [] false
  | .leave => s.call threadId = .none ∧ s.point = .leaving

/-- The functor that starts, if one does, and the next state. -/
def step [DecidableEq T] (threadId : T) (s : State F T) : Action F T → Except Fault (Option F × State F T)
  | .queueInLoop t f => pure (none, { s with
      pendingFunctors := s.pendingFunctors ++ [f]
      call := Function.update s.call t .pushed })
  | .notify t =>
    let s' := { s with call := Function.update s.call t .none }
    -- `if (!isInLoopThread() || callingPendingFunctors_)`
    if t ≠ threadId ∨ s.callingPendingFunctors then pure (none, s'.wakeup) else pure (none, s')
  | .quit t => pure (none, { s with
      quit := true
      call := Function.update s.call t .quitting })
  | .quitNotify t =>
    let s' := { s with call := Function.update s.call t .none }
    if t ≠ threadId then pure (none, s'.wakeup) else pure (none, s')
  | .loop => do
    assert (s.looping = false)
    -- a `quit` between the two stores counts as one before them
    pure (none, { s with looping := true, quit := false, point := .testing })
  | .test =>
    if s.quit then pure (none, { s with looping := false, point := .outside })
    else pure (none, { s with point := .polling })
  | .poll => pure (none, { s with point := .dispatching (decide (0 < s.wakeupFd)) })
  | .handleRead => pure (none, { s with wakeupFd := 0, point := .dispatching false })
  | .doPendingFunctors => pure (none, { s with
      callingPendingFunctors := true
      point := .swapping })
  | .swap => pure (none, { s with
      pendingFunctors := []
      point := .running s.pendingFunctors false })
  | .run =>
    match s.point with
    | .running (f :: rest) _ => pure (some f, { s with point := .running rest true })
    | _ => .error .dangling
  | .return =>
    match s.point with
    | .running rest _ => pure (none, { s with point := .running rest false })
    | _ => .error .dangling
  | .finish => pure (none, { s with callingPendingFunctors := false, point := .leaving })
  | .leave => pure (none, { s with point := .testing })

/-- The loop owned by `threadId`, among the threads `T`. -/
def machine (F : Type) [DecidableEq T] (threadId : T) :
    Machine (State F T) (Action F T) (Option F) Fault where
  may := may threadId
  step := step threadId

instance [DecidableEq F] [DecidableEq T] (threadId : T) (s : State F T) :
    (l : Action F T) → Decidable ((machine F threadId).may s l)
  | .queueInLoop .. | .quit _ | .loop | .test | .poll | .handleRead | .doPendingFunctors | .swap
  | .run | .return | .finish | .leave => inferInstanceAs (Decidable (_ ∧ _))
  | .notify _ | .quitNotify _ => inferInstanceAs (Decidable (_ = _))

/-- What is left of the batch being run. -/
def Point.rest : Point F → List F
  | .running rest _ => rest
  | _ => []

/-! ### What holds wherever the owner is -/

/-- The flags follow the owner's position. -/
structure Flags (s : State F T) : Prop where
  looping : s.looping = true ↔ s.point ≠ .outside
  calling : s.callingPendingFunctors = true ↔
    s.point = .swapping ∨ ∃ rest busy, s.point = .running rest busy

theorem flags_initial : Flags (initial : State F T) := ⟨by simp [initial], by simp [initial]⟩

variable [DecidableEq T] {threadId : T}

/-- Every admitted action is answered, and the flags keep following. -/
theorem flags_inductive : (machine F threadId).Inductive Flags := by
  rintro s l ⟨hlooping, hcalling⟩ hm
  cases l with
  | queueInLoop t f => exact ⟨_, _, rfl, hlooping, hcalling⟩
  | notify t =>
    simp only [machine, step]
    split
    · exact ⟨_, _, rfl, hlooping, hcalling⟩
    · exact ⟨_, _, rfl, hlooping, hcalling⟩
  | quit t => exact ⟨_, _, rfl, hlooping, hcalling⟩
  | quitNotify t =>
    simp only [machine, step]
    split
    · exact ⟨_, _, rfl, hlooping, hcalling⟩
    · exact ⟨_, _, rfl, hlooping, hcalling⟩
  | loop =>
    have hout : s.looping = false := by simpa [hm.2] using hlooping
    simp only [machine, step, assert_holds hout]
    exact ⟨_, _, rfl, by simp, by simpa [hm.2] using hcalling⟩
  | test =>
    simp only [machine, step]
    split
    · exact ⟨_, _, rfl, by simp, by simpa [hm.2] using hcalling⟩
    · exact ⟨_, _, rfl, by simpa [hm.2] using hlooping, by simpa [hm.2] using hcalling⟩
  | poll => exact ⟨_, _, rfl, by simpa [hm.2] using hlooping, by simpa [hm.2] using hcalling⟩
  | handleRead =>
    exact ⟨_, _, rfl, by simpa [hm.2] using hlooping, by simpa [hm.2] using hcalling⟩
  | doPendingFunctors =>
    obtain ⟨wake, hw⟩ := Point.isDispatching_iff.mp hm.2
    exact ⟨_, _, rfl, by simpa [hw] using hlooping, by simp⟩
  | swap => exact ⟨_, _, rfl, by simpa [hm.2] using hlooping, by simpa [hm.2] using hcalling⟩
  | run =>
    obtain ⟨f, rest, hp⟩ := Point.isReady_iff.mp hm.2
    simp only [machine, step, hp]
    exact ⟨_, _, rfl, by simpa [hp] using hlooping, by simpa [hp] using hcalling⟩
  | «return» =>
    obtain ⟨rest, hp⟩ := Point.isBusy_iff.mp hm.2
    simp only [machine, step, hp]
    exact ⟨_, _, rfl, by simpa [hp] using hlooping, by simpa [hp] using hcalling⟩
  | finish => exact ⟨_, _, rfl, by simpa [hm.2] using hlooping, by simp⟩
  | leave => exact ⟨_, _, rfl, by simpa [hm.2] using hlooping, by simpa [hm.2] using hcalling⟩

end Leanet.EventLoop

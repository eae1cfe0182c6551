import Leanet.Loop.Quit

/-! A thread with a loop of its own.

The new thread makes the loop and publishes it, and only then enters `loop()`. Whoever
holds the `EventLoopThread` may destroy it as soon as the loop is published: the destructor
quits the loop and joins the thread. Between the two steps of the thread its request is
lost, and the join waits for a loop that goes on (`quit_not_lost`). -/
namespace Leanet.EventLoopThread

/-- Where the new thread is. -/
inductive ThreadFunc where
  | unstarted
  /-- The loop is made, `callback_` may run. -/
  | constructed
  /-- `loop_` is set, `loop()` not entered. -/
  | published
  | looping
  /-- `loop_` is null again. -/
  | returned
  /-- The thread has ended, and the loop with it. -/
  | finished
  deriving DecidableEq

/-- Where the thread is that holds the `EventLoopThread`. -/
inductive User where
  | idle
  /-- In `startLoop`, waiting for `loop_`. -/
  | starting
  | started
  /-- In the destructor, before `loop_->quit()`. -/
  | quitting
  /-- In `quit`, past the store. -/
  | waking
  | joining
  | destroyed
  deriving DecidableEq

structure State (F T : Type) where
  loop_ : Bool
  exiting_ : Bool
  threadFunc : ThreadFunc
  user : User
  loop : EventLoop.State F T

inductive Action (F T : Type) where
  /-- `thread_.start()`. -/
  | start
  /-- `EventLoop loop;`. -/
  | construct
  | publish
  /-- `startLoop` returns. -/
  | startLoop
  /-- A step of a thread in the loop, or in a call to it. -/
  | act (a : EventLoop.Action F T)
  /-- `loop_ = NULL`. -/
  | reset
  | finish
  /-- The destructor, to its test of `loop_`. -/
  | destroy
  | quit
  | wakeup
  | join

variable {F T : Type}

def initial : State F T where
  loop_ := false
  exiting_ := false
  threadFunc := .unstarted
  user := .idle
  loop := EventLoop.initial

/-- `loop()` is called once. Others call the loop when they have seen it; the new thread
does from its callback, and from the loop itself. -/
def mayAct [DecidableEq T] (threadId user : T) (s : State F T) : EventLoop.Action F T → Prop
  | .loop => s.threadFunc = .published
  | .queueInLoop t _ | .quit t =>
    if t = threadId then s.loop.point = .outside → s.threadFunc = .constructed
    else s.threadFunc ≠ .unstarted ∧ s.threadFunc ≠ .constructed ∧ (t = user → s.user = .started)
  | .notify t | .quitNotify t => t = user → s.user = .started
  | _ => True

def may [DecidableEq T] (threadId user : T) (s : State F T) : Action F T → Prop
  | .start => s.user = .idle
  | .construct => s.threadFunc = .unstarted ∧ s.user ≠ .idle
  | .publish => s.threadFunc = .constructed ∧ s.loop.call threadId = .none
  | .startLoop => s.user = .starting ∧ s.loop_ = true
  | .act a => EventLoop.may threadId s.loop a ∧ mayAct threadId user s a
  | .reset => s.threadFunc = .looping ∧ s.loop.point = .outside
  | .finish => s.threadFunc = .returned
  | .destroy => s.user = .started ∧ s.loop.call user = .none
  | .quit => s.user = .quitting
  | .wakeup => s.user = .waking
  | .join => s.user = .joining ∧ s.threadFunc = .finished

/-- A call to the loop, which must be there. -/
def State.act [DecidableEq T] (threadId : T) (s : State F T) (a : EventLoop.Action F T) :
    Except Fault (Option F × State F T) := do
  let _ ← deref (if s.threadFunc = .finished then none else some ())
  let (o, loop) ← EventLoop.step threadId s.loop a
  pure (o, { s with loop })

def step [DecidableEq T] (threadId user : T) (s : State F T) :
    Action F T → Except Fault (Option F × State F T)
  | .start => pure (none, { s with user := .starting })
  | .construct => pure (none, { s with threadFunc := .constructed })
  | .publish => pure (none, { s with loop_ := true, threadFunc := .published })
  | .startLoop => pure (none, { s with user := .started })
  | .act a => do
    let (o, s) ← s.act threadId a
    pure (o, if a.isLoop then { s with threadFunc := .looping } else s)
  | .reset => pure (none, { s with loop_ := false, threadFunc := .returned })
  | .finish => pure (none, { s with threadFunc := .finished })
  | .destroy =>
    let s := { s with exiting_ := true }
    if s.loop_ then pure (none, { s with user := .quitting })
    else pure (none, { s with user := .destroyed })
  | .quit => do
    let (o, s) ← s.act threadId (.quit user)
    pure (o, { s with user := .waking })
  | .wakeup => do
    let (o, s) ← s.act threadId (.quitNotify user)
    pure (o, { s with user := .joining })
  | .join => pure (none, { s with user := .destroyed })

/-- The thread `threadId` of an `EventLoopThread` that `user` holds, among the threads `T`. -/
def machine (F : Type) [DecidableEq T] (threadId user : T) :
    Machine (State F T) (Action F T) (Option F) Fault where
  may := may threadId user
  step := step threadId user

instance [DecidableEq F] [DecidableEq T] (threadId user : T) (s : State F T) :
    (a : EventLoop.Action F T) → Decidable (mayAct threadId user s a)
  | .loop => inferInstanceAs (Decidable (_ = _))
  | .queueInLoop t _ | .quit t => inferInstanceAs (Decidable (if t = threadId then
      s.loop.point = .outside → s.threadFunc = .constructed
    else s.threadFunc ≠ .unstarted ∧ s.threadFunc ≠ .constructed ∧ (t = user → s.user = .started)))
  | .notify t | .quitNotify t => inferInstanceAs (Decidable (t = user → s.user = .started))
  | .test | .poll | .handleRead | .doPendingFunctors | .swap | .run | .return | .finish
  | .leave => inferInstanceAs (Decidable True)

instance [DecidableEq F] [DecidableEq T] (threadId user : T) (s : State F T) :
    (l : Action F T) → Decidable ((machine F threadId user).may s l)
  | .start | .finish | .quit | .wakeup => inferInstanceAs (Decidable (_ = _))
  | .construct | .publish | .startLoop | .reset | .destroy | .join =>
    inferInstanceAs (Decidable (_ ∧ _))
  | .act a => inferInstanceAs
    (Decidable ((EventLoop.machine F threadId).may s.loop a ∧ mayAct threadId user s a))

/-- The join waits for a loop that goes on. -/
def Stuck (s : State F T) : Prop :=
  s.user = .joining ∧ s.loop.point ≠ .outside ∧ s.loop.quit = false

variable [DecidableEq T] {threadId user : T} {s s' : State F T} {o : Option F}

theorem act_eq_ok {a : EventLoop.Action F T} : s.act threadId a = .ok (o, s') ↔
    s.threadFunc ≠ .finished ∧
      ∃ loop, EventLoop.step threadId s.loop a = .ok (o, loop) ∧ s' = { s with loop } := by
  unfold State.act
  by_cases hf : s.threadFunc = .finished
  · simp [hf, deref]
  · rw [if_neg hf, deref_some, ok_bind, bind_eq_ok]
    constructor
    · rintro ⟨⟨o', loop⟩, hs, heq⟩
      obtain ⟨rfl, rfl⟩ := Prod.mk.inj (Except.ok.inj heq)
      exact ⟨hf, loop, hs, rfl⟩
    · rintro ⟨-, loop, hs, rfl⟩
      exact ⟨(o, loop), hs, rfl⟩

/-! ### Calls to the loop -/

/-- The thread that is or comes to be in a call. -/
def caller : EventLoop.Action F T → Option T
  | .queueInLoop t _ | .notify t | .quit t | .quitNotify t => some t
  | _ => none

theorem call_step {loop loop' : EventLoop.State F T} {a : EventLoop.Action F T} {u : T}
    (hs : EventLoop.step threadId loop a = .ok (o, loop')) (hu : caller a ≠ some u) :
    loop'.call u = loop.call u := by
  have hother : ∀ {t : T} (c : EventLoop.Call), some t ≠ some u →
      Function.update loop.call t c u = loop.call u := fun c ht =>
    Function.update_of_ne (fun h => ht (congrArg some h.symm)) ..
  cases a with
  | queueInLoop | quit =>
    cases hs
    exact hother _ hu
  | notify | quitNotify =>
    simp only [EventLoop.step] at hs
    split at hs <;> cases hs <;> exact hother _ hu
  | loop =>
    obtain ⟨_, _, hs⟩ := bind_eq_ok.mp hs
    cases hs
    rfl
  | test =>
    simp only [EventLoop.step] at hs
    split at hs <;> cases hs <;> rfl
  | run | «return» =>
    simp only [EventLoop.step] at hs
    split at hs <;> cases hs
    rfl
  | poll | handleRead | doPendingFunctors | swap | finish | leave =>
    cases hs
    rfl

/-- Outside `loop()` only calls happen. -/
theorem outside_step {loop loop' : EventLoop.State F T} {a : EventLoop.Action F T}
    (hs : EventLoop.step threadId loop a = .ok (o, loop')) (hm : EventLoop.may threadId loop a)
    (hp : loop.point = .outside) (ha : a.isLoop = false) : loop'.point = .outside := by
  cases a with
  | queueInLoop | quit =>
    cases hs
    exact hp
  | notify | quitNotify =>
    simp only [EventLoop.step] at hs
    split at hs <;> cases hs <;> exact hp
  | loop => cases ha
  | test | poll | handleRead | doPendingFunctors | swap | run | «return» | finish | leave =>
    have := hm.2
    rw [hp] at this
    cases this

/-! ### Before `loop()` -/

/-- The destructor is in no call, or in its own. -/
structure Alone (user : T) (s : State F T) : Prop where
  quitting : s.user = .quitting → s.loop.call user = .none
  waking : s.user = .waking → s.loop.call user = .quitting

/-- Where the new thread is, the loop is. -/
structure Placed (threadId user : T) (s : State F T) : Prop where
  flags : EventLoop.Flags s.loop
  outside : s.threadFunc = .unstarted ∨ s.threadFunc = .constructed ∨ s.threadFunc = .published →
    s.loop.point = .outside
  free : s.threadFunc = .published → s.loop.call threadId = .none
  seen : s.loop_ = true ∨ s.user = .quitting →
    s.threadFunc ≠ .unstarted ∧ s.threadFunc ≠ .constructed
  alone : Alone user s

omit [DecidableEq T] in
theorem placed_initial (threadId user : T) : Placed threadId user (initial : State F T) :=
  ⟨EventLoop.flags_initial, fun _ => rfl, nofun, by simp [initial], ⟨nofun, nofun⟩⟩

/-- A step in the loop, not by a thread that is bound to its place. -/
theorem Placed.called (h : Placed threadId user s) {a : EventLoop.Action F T}
    {loop : EventLoop.State F T} (hm : EventLoop.may threadId s.loop a)
    (hs : EventLoop.step threadId s.loop a = .ok (o, loop)) (ha : a.isLoop = false)
    (hfree : s.threadFunc = .published → caller a ≠ some threadId)
    (halone : s.user ≠ .started → caller a ≠ some user) :
    Placed threadId user { s with loop } := by
  obtain ⟨o', loop', hs', hflags⟩ := EventLoop.flags_inductive s.loop a h.flags hm
  obtain ⟨rfl, rfl⟩ := Prod.mk.inj (Except.ok.inj (hs.symm.trans hs'))
  refine ⟨hflags, fun hp => outside_step hs hm (h.outside hp) ha, fun hp => ?_, h.seen,
    fun hu => ?_, fun hu => ?_⟩
  · exact (call_step hs (hfree hp)).trans (h.free hp)
  · exact (call_step hs (halone (by rw [hu]; nofun))).trans (h.alone.quitting hu)
  · exact (call_step hs (halone (by rw [hu]; nofun))).trans (h.alone.waking hu)

omit [DecidableEq T] in
theorem isLoop_iff {a : EventLoop.Action F T} : a.isLoop = true ↔ a = .loop := by
  cases a <;> simp [EventLoop.Action.isLoop]

/-- A step of a thread in the loop, by `mayAct`. -/
theorem Placed.act (hne : user ≠ threadId) (h : Placed threadId user s)
    {a : EventLoop.Action F T} (hm : EventLoop.may threadId s.loop a)
    (hmay : mayAct threadId user s a) (hact : s.act threadId a = .ok (o, s')) :
    Placed threadId user (if a.isLoop then { s' with threadFunc := .looping } else s') := by
  obtain ⟨-, loop, hs, rfl⟩ := act_eq_ok.mp hact
  by_cases ha : a.isLoop = true
  · obtain rfl := isLoop_iff.mp ha
    obtain ⟨o', loop', hs', hflags⟩ := EventLoop.flags_inductive s.loop .loop h.flags hm
    obtain ⟨-, rfl⟩ := Prod.mk.inj (Except.ok.inj (hs.symm.trans hs'))
    have hcall := call_step (u := user) hs (by simp [caller])
    rw [if_pos ha]
    exact ⟨hflags, by simp, by simp, by simp, fun hu => hcall.trans (h.alone.quitting hu),
      fun hu => hcall.trans (h.alone.waking hu)⟩
  · rw [if_neg ha]
    refine h.called hm hs (by simpa using ha) (fun hp hcaller => ?_)
      fun hu hcaller => ?_
    · -- the new thread calls from its callback and from the loop only
      have hout := h.outside (.inr (.inr hp))
      have hfree := h.free hp
      cases a with
      | queueInLoop t _ | quit t =>
        obtain rfl : t = threadId := Option.some.inj hcaller
        simp only [mayAct, if_true] at hmay
        cases hp.symm.trans (hmay hout)
      | notify t | quitNotify t =>
        obtain rfl : t = threadId := Option.some.inj hcaller
        cases hfree.symm.trans hm
      | loop | test | poll | handleRead | doPendingFunctors | swap | run | «return» | finish
      | leave => cases hcaller
    · cases a with
      | queueInLoop t _ | quit t =>
        obtain rfl : t = user := Option.some.inj hcaller
        simp only [mayAct, if_neg hne] at hmay
        exact hu (hmay.2.2 trivial)
      | notify t | quitNotify t =>
        obtain rfl : t = user := Option.some.inj hcaller
        exact hu (hmay rfl)
      | loop | test | poll | handleRead | doPendingFunctors | swap | run | «return» | finish
      | leave => cases hcaller

theorem placed_step (hne : user ≠ threadId) (h : Placed threadId user s) {l : Action F T}
    (hm : may threadId user s l) (hs : step threadId user s l = .ok (o, s')) :
    Placed threadId user s' := by
  cases l with
  | start | startLoop | join =>
    cases hs
    exact ⟨h.flags, h.outside, h.free, fun hq => h.seen (hq.imp_right (by simp)), ⟨by simp, by simp⟩⟩
  | construct =>
    cases hs
    obtain ⟨hunstarted, -⟩ := hm
    exact ⟨h.flags, fun _ => h.outside (.inl hunstarted), by simp,
      fun hq => absurd hunstarted (h.seen hq).1, ⟨h.alone.quitting, h.alone.waking⟩⟩
  | publish =>
    cases hs
    obtain ⟨hconstructed, hnone⟩ := hm
    exact ⟨h.flags, fun _ => h.outside (.inr (.inl hconstructed)), fun _ => hnone,
      fun _ => ⟨by simp, by simp⟩, ⟨h.alone.quitting, h.alone.waking⟩⟩
  | act a =>
    obtain ⟨⟨o', m⟩, hact, heq⟩ := bind_eq_ok.mp hs
    cases heq
    exact h.act hne hm.1 hm.2 hact
  | reset | finish =>
    cases hs
    exact ⟨h.flags, by simp, by simp, fun _ => ⟨by simp, by simp⟩,
      ⟨h.alone.quitting, h.alone.waking⟩⟩
  | destroy =>
    obtain ⟨hstarted, hnone⟩ := hm
    simp only [step] at hs
    split at hs
    · next hloop =>
      cases hs
      exact ⟨h.flags, h.outside, h.free, fun _ => h.seen (.inl hloop), fun _ => hnone, by simp⟩
    · cases hs
      exact ⟨h.flags, h.outside, h.free, fun hq => h.seen (hq.imp_right (by simp)), by simp, by simp⟩
  | quit =>
    have hnone := h.alone.quitting hm
    obtain ⟨⟨o', m⟩, hact, heq⟩ := bind_eq_ok.mp hs
    obtain ⟨-, loop, hstep, rfl⟩ := act_eq_ok.mp hact
    cases heq
    cases hstep
    refine ⟨⟨h.flags.looping, h.flags.calling⟩, h.outside, fun hp => ?_,
      fun _ => h.seen (.inr hm), by simp, fun _ => ?_⟩
    · exact (Function.update_of_ne hne.symm ..).trans (h.free hp)
    · exact Function.update_self ..
  | wakeup =>
    have hquitting := h.alone.waking hm
    obtain ⟨⟨o', m⟩, hact, heq⟩ := bind_eq_ok.mp hs
    obtain ⟨-, loop, hstep, rfl⟩ := act_eq_ok.mp hact
    cases heq
    simp only [EventLoop.step, ne_eq, hne, not_false_eq_true, if_true] at hstep
    cases hstep
    refine ⟨⟨h.flags.looping, h.flags.calling⟩, h.outside, fun hp => ?_,
      fun hq => h.seen (hq.imp_right (by simp)), by simp, by simp⟩
    exact (Function.update_of_ne hne.symm ..).trans (h.free hp)

theorem placed_run (hne : user ≠ threadId) {tr : List (Action F T × Option F)}
    (h : (machine F threadId user).Run initial tr s) : Placed threadId user s :=
  h.preserves (fun _ _ _ _ hp hm hs => placed_step hne hp hm hs) (placed_initial threadId user)

/-! ### The join -/

/-- The thread is past its entry into `loop()`, and the destructor's request stands. -/
structure Requested (s : State F T) : Prop where
  entered : s.threadFunc = .looping ∨ s.threadFunc = .returned ∨ s.threadFunc = .finished
  stands : s.user = .waking ∨ s.user = .joining → s.loop.quit = true

theorem requested_step (h : Requested s) {l : Action F T} (hm : may threadId user s l)
    (hs : step threadId user s l = .ok (o, s')) : Requested s' := by
  cases l with
  | start | startLoop | join =>
    cases hs
    exact ⟨h.entered, nofun⟩
  | construct =>
    rcases h.entered with hp | hp | hp <;> cases hp.symm.trans hm.1
  | publish =>
    rcases h.entered with hp | hp | hp <;> cases hp.symm.trans hm.1
  | act a =>
    obtain ⟨⟨o', m⟩, hact, heq⟩ := bind_eq_ok.mp hs
    obtain ⟨-, loop, hloop, rfl⟩ := act_eq_ok.mp hact
    cases heq
    -- `loop()` is not entered again
    have ha : a.isLoop = false := by
      rw [← Bool.not_eq_true, isLoop_iff]
      rintro rfl
      rcases h.entered with hp | hp | hp <;> cases hp.symm.trans hm.2
    rw [if_neg (by rw [ha]; nofun)]
    exact ⟨h.entered, fun hu => EventLoop.quit_step hloop (h.stands hu) ha⟩
  | reset =>
    cases hs
    exact ⟨.inr (.inl rfl), h.stands⟩
  | finish =>
    cases hs
    exact ⟨.inr (.inr rfl), h.stands⟩
  | destroy =>
    simp only [step] at hs
    split at hs <;> cases hs <;> exact ⟨h.entered, nofun⟩
  | quit =>
    obtain ⟨⟨o', m⟩, hact, heq⟩ := bind_eq_ok.mp hs
    obtain ⟨-, loop, hloop, rfl⟩ := act_eq_ok.mp hact
    cases heq
    cases hloop
    exact ⟨h.entered, fun _ => rfl⟩
  | wakeup =>
    obtain ⟨⟨o', m⟩, hact, heq⟩ := bind_eq_ok.mp hs
    obtain ⟨-, loop, hloop, rfl⟩ := act_eq_ok.mp hact
    cases heq
    exact ⟨h.entered, fun _ => EventLoop.quit_step hloop (h.stands (.inl hm)) rfl⟩

theorem not_stuck {tr : List (Action F T × Option F)} (h : (machine F threadId user).Run s tr s')
    (hr : Requested s) : ¬ Stuck s' := by
  have hr' : Requested s' := h.preserves (fun _ _ _ _ hr hm hs => requested_step hr hm hs) hr
  rintro ⟨hjoining, -, hquit⟩
  exact absurd (hr'.stands (.inr hjoining)) (by rw [hquit]; nofun)

/-- The request comes between publication and `loop()`, and `loop()` clears it. -/
theorem stuck_of_published (hne : user ≠ threadId) (h : Placed threadId user s)
    (hq : s.user = .quitting) (hp : s.threadFunc = .published) :
    ∃ tr s', (machine F threadId user).Run s tr s' ∧ Stuck s' := by
  have hlive : s.threadFunc ≠ .finished := by
    rw [hp]
    simp
  have hlooping : s.loop.looping = false := by
    rw [← Bool.not_eq_true, h.flags.looping]
    exact not_not.mpr (h.outside (.inr (.inr hp)))
  let stored : EventLoop.State F T :=
    { s.loop with quit := true, call := Function.update s.loop.call user .quitting }
  let woken : EventLoop.State F T :=
    EventLoop.State.wakeup { stored with call := Function.update stored.call user .none }
  have hquit : (machine F threadId user).Run s [(.quit, none)]
      { s with loop := stored, user := .waking } := by
    refine .single hq (bind_eq_ok.mpr ⟨(none, { s with loop := stored }), ?_, rfl⟩)
    exact act_eq_ok.mpr ⟨hlive, stored, rfl, rfl⟩
  have hwakeup : (machine F threadId user).Run { s with loop := stored, user := .waking }
      [(.wakeup, none)] { s with loop := woken, user := .joining } := by
    refine .single rfl (bind_eq_ok.mpr ⟨(none, { s with loop := woken, user := .waking }), ?_, rfl⟩)
    refine act_eq_ok.mpr ⟨hlive, woken, ?_, rfl⟩
    exact if_pos hne
  let entered : EventLoop.State F T :=
    { woken with looping := true, quit := false, point := .testing }
  have hloop : (machine F threadId user).Run { s with loop := woken, user := .joining }
      [(.act .loop, none)] { s with loop := entered, user := .joining, threadFunc := .looping } := by
    have hcall : woken.call threadId = .none :=
      (Function.update_of_ne hne.symm ..).trans ((Function.update_of_ne hne.symm ..).trans (h.free hp))
    have hstep : EventLoop.step threadId woken .loop = .ok (none, entered) := by
      simp only [EventLoop.step, assert_holds (show woken.looping = false from hlooping)]
      rfl
    refine .single ⟨⟨hcall, h.outside (.inr (.inr hp))⟩, hp⟩ (bind_eq_ok.mpr
      ⟨(none, { s with loop := entered, user := .joining }), ?_, rfl⟩)
    exact act_eq_ok.mpr ⟨hlive, entered, hstep, rfl⟩
  exact ⟨_, _, (hquit.append hwakeup).append hloop, rfl, by simp [entered], rfl⟩

/-- **A request to quit is honoured exactly if `loop()` is running when it is made**; and
the destructor, which makes one, never waits for a loop that goes on exactly if the thread
has entered `loop()` by then. -/
theorem quit_not_lost (F : Type) {threadId user : T} (hne : user ≠ threadId) :
    (∀ tr (s : EventLoop.State F T) t, (EventLoop.machine F threadId).Run EventLoop.initial tr s →
      EventLoop.may threadId s (.quit t) →
      (EventLoop.Honoured threadId t s ↔ s.point ≠ .outside)) ∧
    ∀ tr (s : State F T), (machine F threadId user).Run initial tr s → s.user = .quitting →
      ((∀ tr' s', (machine F threadId user).Run s tr' s' → ¬ Stuck s') ↔
        s.threadFunc ≠ .published) := by
  refine ⟨fun tr s t h hm => EventLoop.honoured_iff h hm, fun tr s h hq => ?_⟩
  have hplaced := placed_run hne h
  constructor
  · intro hnever hp
    obtain ⟨tr', s', hrun, hstuck⟩ := stuck_of_published hne hplaced hq hp
    exact hnever tr' s' hrun hstuck
  · intro hp tr' s' hrun
    obtain ⟨hunstarted, hconstructed⟩ := hplaced.seen (.inr hq)
    refine not_stuck hrun ⟨?_, fun hu => ?_⟩
    · cases hf : s.threadFunc with
      | unstarted => exact absurd hf hunstarted
      | constructed => exact absurd hf hconstructed
      | published => exact absurd hf hp
      | looping => exact .inl rfl
      | returned => exact .inr (.inl rfl)
      | finished => exact .inr (.inr rfl)
    · rw [hq] at hu
      exact absurd hu (by nofun)

/-- The destructor runs when the thread is in `loop()`: it joins. -/
theorem quit_not_lost_looping : ∃ tr s, (machine Nat true false).Run initial tr s ∧
    s.user = .quitting ∧ (∀ tr' s', (machine Nat true false).Run s tr' s' → ¬ Stuck s') ∧
    ∃ tr' s', (EventLoop.machine Nat true).Run EventLoop.initial tr' s' ∧
      EventLoop.Honoured true false s' := by
  obtain ⟨tr, s, h, -, hq, hf⟩ := (machine Nat true false).exists_run_of_replay (s := initial)
    (P := fun _ s => s.user = .quitting ∧ s.threadFunc = .looping)
    [.start, .construct, .publish, .startLoop, .act .loop, .act .test, .destroy] (by decide +kernel)
  obtain ⟨tr', s', h', -, hm, hp⟩ :=
    (EventLoop.machine Nat true).exists_run_of_replay (s := EventLoop.initial)
      (P := fun _ s => (EventLoop.machine Nat true).may s (.quit false) ∧ s.point = .polling)
      [.loop, .test] (by decide +kernel)
  obtain ⟨hhonoured, hjoin⟩ := quit_not_lost Nat (show false ≠ true by decide)
  exact ⟨tr, s, h, hq, (hjoin tr s h hq).mpr (by rw [hf]; nofun), tr', s', h',
    (hhonoured tr' s' false h' hm).mpr (by rw [hp]; nofun)⟩

/-- The destructor runs just after `startLoop`: the thread enters `loop()`, goes through an
iteration of it, and is about to block with nothing to wake it. -/
theorem quit_not_lost_early : ∃ tr s, (machine Nat true false).Run initial tr s ∧ Stuck s ∧
    s.loop.point = .polling ∧ s.loop.wakeupFd = 0 ∧
    ∃ tr' s', (EventLoop.machine Nat true).Run EventLoop.initial tr' s' ∧
      EventLoop.may true s' (.quit false) ∧ ¬ EventLoop.Honoured true false s' := by
  obtain ⟨tr, s, h, -, hu, hp, hq, hfd⟩ :=
    (machine Nat true false).exists_run_of_replay (s := initial)
      (P := fun _ s => s.user = .joining ∧ s.loop.point = .polling ∧ s.loop.quit = false ∧
        s.loop.wakeupFd = 0)
      [.start, .construct, .publish, .startLoop, .destroy, .quit, .wakeup, .act .loop,
        .act .test, .act .poll, .act .handleRead, .act .doPendingFunctors, .act .swap,
        .act .finish, .act .leave, .act .test] (by decide +kernel)
  refine ⟨tr, s, h, ⟨hu, by rw [hp]; nofun, hq⟩, hp, hfd, [], EventLoop.initial, .nil _,
    ⟨rfl, nofun⟩, ?_⟩
  exact EventLoop.lost_outside EventLoop.flags_initial ⟨rfl, nofun⟩ rfl

end Leanet.EventLoopThread

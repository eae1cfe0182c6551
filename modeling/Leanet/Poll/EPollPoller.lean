import Leanet.Poll.Poller

/-! The epoll(7) poller and its clients.

The kernel keeps the interest set, so a channel needs no slot: its `index` is a tag that
says what the kernel knows of it. A channel without interest is taken out of the set and
stays in `channels`. The calls are those of the clients of the other poller, and each goes
first to `loop_`, which the constructor does not set. -/
namespace Leanet.EPollPoller

def kNew : Int := -1
def kAdded : Int := 1
def kDeleted : Int := 2

/-- `struct epoll_event`. -/
structure Event (ι : Type) where
  events : BitVec 32
  ptr : ι
  deriving DecidableEq, Repr

/-- `EPOLL_CTL_ADD`, `EPOLL_CTL_MOD` and `EPOLL_CTL_DEL`. -/
inductive Op where
  | add
  | mod
  | del

structure State (ι : Type) where
  /-- The thread of the loop that `loop_` points to, if it points to a loop. -/
  loop_ : Option Nat
  channels : Std.TreeMap Int ι
  /-- The interest set behind `epollfd_`. -/
  kernel : Int → Option (Event ι)
  channel : ι → Channel
  /-- The thread the calls come from, that of the poller's loop. -/
  thread : Nat

variable {ι : Type} [DecidableEq ι]

def State.setChannel (s : State ι) (c : ι) (x : Channel) : State ι :=
  { s with channel := Function.update s.channel c x }

/-- epoll_ctl(2). Adding what is there fails, and so does changing or deleting what is
not; the caller does not look. -/
def epollCtl (kernel : Int → Option (Event ι)) (op : Op) (fd : Int) (event : Event ι) :
    Int → Option (Event ι) :=
  match op, kernel fd with
  | .add, none | .mod, some _ => Function.update kernel fd (some event)
  | .del, some _ => Function.update kernel fd none
  | _, _ => kernel

def update (s : State ι) (op : Op) (c : ι) : State ι :=
  let channel := s.channel c
  { s with kernel := epollCtl s.kernel op channel.fd ⟨channel.interestedEvents, c⟩ }

/-- `loop_->assertInLoopThread()`, which aborts in either build. -/
def assertInLoopThread (s : State ι) : Except Fault Unit := do
  let threadId ← deref s.loop_
  assert (threadId = s.thread)

def updateChannel (build : Build) (s : State ι) (c : ι) : Except Fault (State ι) := do
  assertInLoopThread s
  let channel := s.channel c
  let tag := channel.index
  if tag = kNew ∨ tag = kDeleted then
    let fd : Int := channel.fd
    let s ←
      if tag = kNew then do
        build.assert (s.channels[fd]?.isNone)
        pure { s with channels := s.channels.insert fd c }
      else do
        build.assert (s.channels[fd]?.isSome)
        build.assert (s.channels[fd]? = some c)
        pure s
    pure (update (s.setChannel c (channel.setIndex kAdded)) .add c)
  else if channel.isNoneEvent then
    pure ((update s .del c).setChannel c (channel.setIndex kDeleted))
  else pure (update s .mod c)

def removeChannel (build : Build) (s : State ι) (c : ι) : Except Fault (State ι) := do
  assertInLoopThread s
  let channel := s.channel c
  let fd : Int := channel.fd
  let n := if fd ∈ s.channels then 1 else 0
  let s := { s with channels := s.channels.erase fd }
  build.assert (n = 1)
  let idx := channel.index
  let s := if idx = kAdded then update s .del c else s
  pure (s.setChannel c (channel.setIndex kNew))

/-- `EPollPoller(loop)`, in memory where `loop_` happens to be as it is, for the thread of
`loop`, and fresh channels on the given descriptors. -/
def initial (fd : ι → Nat) (loop_ : Option Nat) (thread : Nat) : State ι where
  loop_ := loop_
  channels := ∅
  kernel _ := none
  channel c := .new (fd c)
  thread := thread

/-! ### The kernel's answers -/

variable {kernel : Int → Option (Event ι)} {fd : Int} {event old : Event ι}

omit [DecidableEq ι] in
theorem epollCtl_add (h : kernel fd = none) :
    epollCtl kernel .add fd event = Function.update kernel fd (some event) := by
  simp [epollCtl, h]

omit [DecidableEq ι] in
theorem epollCtl_mod (h : kernel fd = some old) :
    epollCtl kernel .mod fd event = Function.update kernel fd (some event) := by
  simp [epollCtl, h]

omit [DecidableEq ι] in
theorem epollCtl_del (h : kernel fd = some old) :
    epollCtl kernel .del fd event = Function.update kernel fd none := by
  simp [epollCtl, h]

/-! ### What a call comes to -/

variable {s s' : State ι} {c : ι} {build : Build}

omit [DecidableEq ι] in
theorem assertInLoopThread_eq_ok : assertInLoopThread s = .ok () ↔ s.loop_ = some s.thread := by
  unfold assertInLoopThread
  constructor
  · intro h
    obtain ⟨t, ht, hassert⟩ := bind_eq_ok.mp h
    rw [deref_eq_ok.mp ht]
    by_contra hne
    have hfails : ¬ t = s.thread := fun heq => hne (congrArg some heq)
    rw [assert_fails hfails] at hassert
    cases hassert
  · intro h
    rw [h, deref_some, ok_bind, assert_holds rfl]

omit [DecidableEq ι] in
theorem assertInLoopThread_ok (h : s.loop_ = some s.thread) : assertInLoopThread s = .ok () :=
  assertInLoopThread_eq_ok.mpr h

/-- No call is answered unless `loop_` happens to be the loop. -/
theorem updateChannel_inLoop (h : updateChannel build s c = .ok s') :
    s.loop_ = some s.thread := by
  obtain ⟨u, hassert, -⟩ := bind_eq_ok.mp h
  exact assertInLoopThread_eq_ok.mp hassert

theorem removeChannel_inLoop (h : removeChannel build s c = .ok s') :
    s.loop_ = some s.thread := by
  obtain ⟨u, hassert, -⟩ := bind_eq_ok.mp h
  exact assertInLoopThread_eq_ok.mp hassert

/-- A channel is added whenever its tag says that the kernel does not have it. -/
theorem updateChannel_adds (h : s.loop_ = some s.thread)
    (htag : (s.channel c).index = kNew ∨ (s.channel c).index = kDeleted) :
    ∃ channels, updateChannel .release s c =
      .ok (update { s.setChannel c ((s.channel c).setIndex kAdded) with channels } .add c) := by
  rw [updateChannel, assertInLoopThread_ok h, ok_bind, if_pos htag]
  by_cases hnew : (s.channel c).index = kNew
  · exact ⟨s.channels.insert ((s.channel c).fd : Int) c, by simp [hnew, State.setChannel]⟩
  · exact ⟨s.channels, by simp [hnew, State.setChannel]⟩

omit [DecidableEq ι] in
theorem not_tag_of_added (htag : (s.channel c).index = kAdded) :
    ¬ ((s.channel c).index = kNew ∨ (s.channel c).index = kDeleted) := by
  rw [htag]
  decide

theorem updateChannel_deletes (h : s.loop_ = some s.thread) (htag : (s.channel c).index = kAdded)
    (hnone : (s.channel c).interestedEvents = 0) :
    updateChannel .release s c =
      .ok ((update s .del c).setChannel c ((s.channel c).setIndex kDeleted)) := by
  rw [updateChannel, assertInLoopThread_ok h, ok_bind, if_neg (not_tag_of_added htag),
    if_pos (Channel.isNoneEvent_iff.mpr hnone), pure_eq_ok]

theorem updateChannel_modifies (h : s.loop_ = some s.thread) (htag : (s.channel c).index = kAdded)
    (hsome : (s.channel c).interestedEvents ≠ 0) :
    updateChannel .release s c = .ok (update s .mod c) := by
  rw [updateChannel, assertInLoopThread_ok h, ok_bind, if_neg (not_tag_of_added htag),
    if_neg (Channel.isNoneEvent_iff.not.mpr hsome), pure_eq_ok]

/-- Of a deleted channel the kernel has nothing to forget. -/
theorem removeChannel_forgets (h : s.loop_ = some s.thread)
    (htag : (s.channel c).index = kDeleted) :
    ∃ channels, removeChannel .release s c =
      .ok { s.setChannel c ((s.channel c).setIndex kNew) with channels } := by
  have hne : ¬ (s.channel c).index = kAdded := by
    rw [htag]
    decide
  refine ⟨s.channels.erase ((s.channel c).fd : Int), ?_⟩
  rw [removeChannel, assertInLoopThread_ok h]
  simp [hne, State.setChannel]

end Leanet.EPollPoller

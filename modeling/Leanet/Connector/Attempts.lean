import Leanet.Connector.Connector

/-! One attempt at a time.

An attempt is outstanding from the call of `start` or the setting of a retry timer until
`startInLoop` has made a socket of it or given up. The connector never looks whether one
is outstanding, nor whether a removed channel still waits for its `resetChannel`: it
relies on its callers, and on the retry delay being longer than a turn of the loop.
`Calm` is what it relies on, `Single` the invariant that this keeps: at most one attempt
outstanding, and none unless the connector is disconnected.

There are three ways to end an attempt (`Ends`): to retry, to pass the socket on, or to
find that `stop` came before. -/
namespace Leanet.Connector

def State.queue (s : State) : List Functor := s.batch ++ s.pendingFunctors

/-- The calls of `startInLoop` that will come, and the one in progress. -/
def State.outstanding (s : State) : Nat :=
  s.starting + s.queue.count .startInLoop + s.retryTimers + (if s.inside.isSome then 1 else 0)

/-- An attempt is begun only by a disconnected connector (or by `restart`), while no other
is outstanding, and on the loop's thread only while no channel waits to be reset. -/
def Calm (s : State) : Action → Prop
  | .start => s.state = .kDisconnected ∧ s.outstanding = 0 ∧ s.channel = none
  | .restart => s.outstanding = 0 ∧ s.channel = none
  | .beginStart => s.state = .kDisconnected ∧ s.outstanding = 0
  | .timer => s.channel = none ∨ s.connected = false
  | _ => True

/-- The invariant. -/
structure Single (s : State) : Prop where
  outstanding : s.outstanding ≤ 1
  disconnected : 0 < s.outstanding → s.state = .kDisconnected
  connecting : s.state = .kConnecting ↔ s.registered = true
  present : s.registered = true → ∃ c, s.channel = some c ∧ s.sockets = [c.fd]
  /-- A channel that is not registered waits for its `resetChannel`. -/
  resets : s.queue.count .resetChannel = if s.channel.isSome ∧ s.registered = false then 1 else 0
  order : s.queue.Pairwise fun f g => f = .startInLoop → g ≠ .resetChannel
  entering : s.inside = some .startInLoop → s.channel = none ∨ s.connected = false
  socket : ∀ sockfd, s.inside = some (.connect sockfd) → s.channel = none ∧ s.sockets = [sockfd]
  closed : s.registered = false → (∀ sockfd, s.inside ≠ some (.connect sockfd)) → s.sockets = []
  dispatch : s.dispatch.Sublist [.close, .error, .read, .write]
  unconnected : s.dispatch ≠ [] → s.state ≠ .kConnected

theorem single_initial : Single initial where
  outstanding := Nat.zero_le _
  disconnected := nofun
  connecting := by simp [initial]
  present := nofun
  resets := rfl
  order := .nil
  entering := nofun
  socket := nofun
  closed := fun _ _ => rfl
  dispatch := List.nil_sublist _
  unconnected := fun h => absurd rfl h

variable {s s' : State} {l : Action} {c : Channel} {sockfd : Nat} {soError : Option Errno}
  {selfConnected : Bool}

namespace Single

theorem outstanding_pos (h : s.inside ≠ none) : 0 < s.outstanding := by
  have : s.inside.isSome = true := Option.isSome_iff_ne_none.mpr h
  simp [State.outstanding, this]

theorem unregistered (h : Single s) (hs : s.state = .kDisconnected) : s.registered = false := by
  by_contra hr
  have := h.connecting.mpr (by simpa using hr)
  rw [hs] at this
  cases this

theorem quiet (h : Single s) (hs : s.state ≠ .kDisconnected) : s.outstanding = 0 := by
  by_contra hpos
  exact hs (h.disconnected (by omega))

/-- Without an outstanding attempt nothing is inside, begun or queued. -/
theorem of_quiet (h : s.outstanding = 0) : s.starting = 0 ∧ .startInLoop ∉ s.queue ∧
    s.retryTimers = 0 ∧ s.inside = none := by
  have hinside : s.inside = none := by
    by_contra hne
    have := outstanding_pos hne
    omega
  rw [State.outstanding] at h
  exact ⟨by omega, List.count_eq_zero.mp (by omega), by omega, hinside⟩

theorem outstanding_leave (h : Single s) (hin : s.inside ≠ none) :
    ({ s with inside := none } : State).outstanding = 0 := by
  have hsome : s.inside.isSome = true := Option.isSome_iff_ne_none.mpr hin
  have hout := h.outstanding
  simp only [State.outstanding, State.queue, hsome, if_true] at hout ⊢
  simp only [Option.isSome_none, Bool.false_eq_true, if_false]
  omega

end Single

/-! ### A call of `startInLoop` -/

/-- The loop's thread comes to `startInLoop`. -/
theorem single_enter (hout : s'.outstanding = 1) (hstate : s'.state = .kDisconnected)
    (hclear : s'.channel = none ∨ s'.connected = false) (hinside : s'.inside = some .startInLoop)
    (hdispatch : s'.dispatch = []) (hregistered : s'.registered = false) (hsockets : s'.sockets = [])
    (hresets : s'.queue.count .resetChannel =
      if s'.channel.isSome ∧ s'.registered = false then 1 else 0)
    (horder : s'.queue.Pairwise fun f g => f = .startInLoop → g ≠ .resetChannel) : Single s' where
  outstanding := Nat.le_of_eq hout
  disconnected := fun _ => hstate
  connecting := by simp [hstate, hregistered]
  present := by simp [hregistered]
  resets := hresets
  order := horder
  entering := fun _ => hclear
  socket := by simp [hinside]
  closed := fun _ _ => hsockets
  dispatch := by simp [hdispatch]
  unconnected := by simp [hstate]

theorem single_startInLoop (h : Single s) (hm : may s (.startInLoop sockfd)) :
    ∃ o s', startInLoop s sockfd = .ok (o, s') ∧ Single s' := by
  obtain ⟨hinside, -⟩ := hm
  have hstate := h.disconnected (Single.outstanding_pos (by rw [hinside]; exact nofun))
  have hreg := h.unregistered hstate
  have hnone := h.closed hreg (by rw [hinside]; exact nofun)
  have hout := h.outstanding
  simp only [State.outstanding, hinside, Option.isSome_some, if_true] at hout
  simp only [startInLoop, assert_holds hstate, ok_bind]
  by_cases hc : s.connected = true
  · have hclear : s.channel = none := by simpa [hc] using h.entering hinside
    rw [if_pos hc]
    refine ⟨_, _, rfl, { h with
      outstanding := ?_, disconnected := fun _ => hstate, present := ?_, entering := nofun,
      socket := ?_, closed := ?_ }⟩
    · simpa [State.outstanding, State.queue] using hout
    · simp [hreg]
    · rintro fd ⟨⟩
      exact ⟨hclear, by rw [hnone]⟩
    · exact fun _ hne => absurd rfl (hne sockfd)
  · rw [if_neg hc]
    refine ⟨_, _, rfl, { h with
      outstanding := ?_, disconnected := fun _ => hstate, entering := nofun, socket := nofun,
      closed := fun _ _ => hnone }⟩
    simp only [State.outstanding, State.queue] at hout ⊢
    simp only [Option.isSome_none, Bool.false_eq_true, if_false]
    omega

theorem single_scheduleRetry (h : Single s) (hm : may s .scheduleRetry) :
    Single (scheduleRetry s).2 := by
  have hinside : s.inside = some .retry := hm
  have hstate := h.disconnected (Single.outstanding_pos (by rw [hinside]; exact nofun))
  have hnone := h.closed (h.unregistered hstate) (by rw [hinside]; exact nofun)
  have hout := h.outstanding
  simp only [State.outstanding, hinside, Option.isSome_some, if_true] at hout
  -- Whether a timer is set or not, the attempt that was being left is over.
  unfold scheduleRetry
  split
  all_goals
    refine { h with
      outstanding := ?_, disconnected := fun _ => hstate, entering := nofun, socket := nofun,
      closed := fun _ _ => hnone }
    simp only [State.outstanding, State.queue] at hout ⊢
    simp only [Option.isSome_none, Bool.false_eq_true, if_false]
    omega

/-- The state after `connecting(sockfd)`. -/
def State.attached (s : State) (sockfd : Nat) : State :=
  { s with
    state := .kConnecting
    channel := some ((Channel.new sockfd).setInterest .enableWriting)
    registered := true }

theorem connecting_eq (h : s.channel = none) (sockfd : Nat) :
    connecting s sockfd = .ok (s.attached sockfd) := by
  simp only [connecting, assert_holds h, ok_bind]
  rfl

/-- What connect(2) returns is a connection, a reason to retry or a reason to give up. -/
theorem connect_cases (s : State) (sockfd : Nat) (savedErrno : Option Errno) :
    connect s sockfd savedErrno = (do
      let s ← connecting { s with inside := none } sockfd
      pure ([], s)) ∨
    connect s sockfd savedErrno = .ok (retry { s with inside := none } sockfd) ∨
    connect s sockfd savedErrno = .ok (close { s with inside := none } sockfd) := by
  rcases savedErrno with _ | errno
  · exact .inl rfl
  · cases errno with
    | EINPROGRESS | EINTR | EISCONN => exact .inl rfl
    | EAGAIN | EADDRINUSE | EADDRNOTAVAIL | ECONNREFUSED | ENETUNREACH | EHOSTUNREACH | ETIMEDOUT =>
      exact .inr (.inl rfl)
    | EACCES | EPERM | EAFNOSUPPORT | EALREADY | EBADF | EFAULT | ENOTSOCK | EPIPE | ECONNRESET
    | other code => exact .inr (.inr rfl)

/-- connect(2) has returned: the channel is registered, or the socket is closed. -/
theorem single_connect (h : Single s) (hinside : s.inside = some (.connect sockfd))
    (savedErrno : Option Errno) :
    ∃ o s', connect s sockfd savedErrno = .ok (o, s') ∧ Single s' := by
  have hin : s.inside ≠ none := by rw [hinside]; exact nofun
  have hstate := h.disconnected (Single.outstanding_pos hin)
  have hreg := h.unregistered hstate
  have hzero := h.outstanding_leave hin
  obtain ⟨hchannel, hsockets⟩ := h.socket sockfd hinside
  rcases connect_cases s sockfd savedErrno with hrun | hrun | hrun
  · rw [connecting_eq (s := { s with inside := none }) hchannel] at hrun
    refine ⟨_, _, hrun, { h with
      outstanding := Nat.le_trans (Nat.le_of_eq hzero) (Nat.zero_le 1)
      disconnected := fun hpos => absurd hzero (Nat.ne_of_gt hpos)
      connecting := by simp [State.attached]
      present := fun _ => ⟨_, rfl, hsockets⟩
      resets := ?_, entering := nofun, socket := nofun, closed := nofun
      unconnected := fun _ => nofun }⟩
    have hresets := h.resets
    rw [if_neg (by simp [hchannel])] at hresets
    exact hresets.trans (by simp [State.attached])
  · refine ⟨_, _, hrun, { h with
      outstanding := Nat.le_of_eq (congrArg (· + 1) hzero)
      disconnected := fun _ => rfl
      connecting := by simp [hreg]
      present := by simp [hreg]
      entering := nofun, socket := nofun
      closed := fun _ _ => by simp [hsockets]
      unconnected := fun _ => nofun }⟩
  · exact ⟨_, _, hrun, { h with
      outstanding := Nat.le_trans (Nat.le_of_eq hzero) (Nat.zero_le 1)
      disconnected := fun _ => hstate
      present := by simp [hreg]
      entering := nofun, socket := nofun
      closed := fun _ _ => by simp [hsockets] }⟩

/-! ### The channel is removed -/

/-- The state after `removeAndResetChannel`. -/
def State.removed (s : State) (c : Channel) : State :=
  queueInLoop { s with channel := some (c.setInterest .disableAll), registered := false }
    .resetChannel

theorem removeAndResetChannel_eq (h : s.channel = some c) :
    removeAndResetChannel s = .ok (c.fd, s.removed c) := by
  have hnone : (c.setInterest .disableAll).isNoneEvent = true := by
    simp [Channel.setInterest, Channel.Interest.apply, Channel.kNoneEvent]
  simp only [removeAndResetChannel, h, deref_some, ok_bind, assert_holds hnone]
  rfl

/-- A connecting connector takes its channel out of the poller and is done with the
attempt: it has been left disconnected, in `retry`, or connected. -/
theorem single_removed (h : Single s) (hreg : s.registered = true) (hchannel : s.channel = some c)
    (hqueue : s'.queue = s.queue ++ [.resetChannel]) (hstarting : s'.starting = s.starting)
    (htimers : s'.retryTimers = s.retryTimers) (hchannel' : s'.channel.isSome = true)
    (hreg' : s'.registered = false) (hsockets : s'.sockets = s.sockets.erase c.fd)
    (hleft : s'.state = .kDisconnected ∧ s'.inside = some .retry ∨
      s'.state = .kConnected ∧ s'.inside = none ∧ s'.dispatch = [])
    (hdispatch : s'.dispatch = s.dispatch) : Single s' := by
  have hconnecting : s.state = .kConnecting := h.connecting.mpr hreg
  have hquiet := h.quiet (by rw [hconnecting]; exact nofun)
  obtain ⟨hs, hq, ht, hi⟩ := Single.of_quiet hquiet
  obtain ⟨d, hd, hsocket⟩ := h.present hreg
  obtain rfl := Option.some.inj (hd.symm.trans hchannel)
  have hempty : s'.sockets = [] := by rw [hsockets, hsocket]; simp
  have hcount : s'.queue.count .startInLoop = 0 := by
    rw [hqueue, List.count_append, List.count_eq_zero.mpr hq]
    rfl
  have hout : s'.outstanding = if s'.inside.isSome then 1 else 0 := by
    rw [State.outstanding, hstarting, hs, hcount, htimers, ht]
    omega
  have hnot : ∀ sockfd, s'.inside ≠ some (.connect sockfd) := by
    rcases hleft with ⟨-, hin⟩ | ⟨-, hin, -⟩ <;> rw [hin] <;> exact nofun
  refine ⟨?_, ?_, ?_, by simp [hreg'], ?_, ?_, ?_, fun fd hin => absurd hin (hnot fd),
    fun _ _ => hempty, hdispatch ▸ h.dispatch, ?_⟩
  · rw [hout]
    split <;> omega
  · rcases hleft with ⟨hstate, -⟩ | ⟨-, hin, -⟩
    · exact fun _ => hstate
    · simp [hout, hin]
  · rcases hleft with ⟨hstate, -⟩ | ⟨hstate, -, -⟩ <;> simp [hstate, hreg']
  · have hresets := h.resets
    rw [if_neg (by simp [hreg])] at hresets
    rw [if_pos ⟨hchannel', hreg'⟩, hqueue, List.count_append, hresets]
    rfl
  · rw [hqueue, List.pairwise_append]
    refine ⟨h.order, List.pairwise_singleton _ _, fun f hf g _ hstart => ?_⟩
    exact absurd (hstart ▸ hf) hq
  · rcases hleft with ⟨-, hin⟩ | ⟨-, hin, -⟩ <;> simp [hin]
  · rcases hleft with ⟨hstate, -⟩ | ⟨-, -, hnil⟩
    · exact fun _ => by rw [hstate]; exact nofun
    · exact fun hne => absurd hnil hne

/-- The channel `c` is removed and its socket disposed of. -/
inductive Ends (s : State) (c : Channel) : List Effect → State → Prop where
  | retry : Ends s c [.close c.fd] (retry (s.removed c) c.fd).2
  | passed : s.connected = true → Ends s c [.newConnection c.fd]
      { s.removed c with state := .kConnected, sockets := (s.removed c).sockets.erase c.fd }
  | stopped : s.connected = false → Ends s c [.close c.fd]
      (close { s.removed c with state := .kConnected } c.fd).2

/-- A function that does nothing, or ends the attempt of a connecting connector. -/
def MayEnd (s : State) (e : List Effect) (s' : State) : Prop :=
  (e = [] ∧ s' = s) ∨ s.state = .kConnecting ∧ ∃ c, s.channel = some c ∧ Ends s c e s'

/-- A function that does nothing, or gives up the attempt of a connecting connector. -/
def MayRetry (s : State) (e : List Effect) (s' : State) : Prop :=
  (e = [] ∧ s' = s) ∨ s.state = .kConnecting ∧ ∃ c, s.channel = some c ∧
    e = [.close c.fd] ∧ s' = (retry (s.removed c) c.fd).2

theorem MayRetry.mayEnd {e : List Effect} (h : MayRetry s e s') : MayEnd s e s' := by
  rcases h with hnothing | ⟨hconnecting, c, hc, rfl, rfl⟩
  · exact .inl hnothing
  · exact .inr ⟨hconnecting, c, hc, .retry⟩

theorem handleError_spec (h : Single s) :
    ∃ e s', handleError s = .ok (e, s') ∧ MayRetry s e s' := by
  unfold handleError
  split
  · next hconnecting =>
    obtain ⟨c, hc, -⟩ := h.present (h.connecting.mp hconnecting)
    rw [removeAndResetChannel_eq hc]
    exact ⟨_, _, rfl, .inr ⟨hconnecting, c, hc, rfl, rfl⟩⟩
  · exact ⟨_, _, rfl, .inl ⟨rfl, rfl⟩⟩

theorem stopInLoop_spec (h : Single s) :
    ∃ e s', stopInLoop s = .ok (e, s') ∧ MayRetry s e s' := by
  unfold stopInLoop
  split
  · next hconnecting =>
    obtain ⟨c, hc, -⟩ := h.present (h.connecting.mp hconnecting)
    dsimp only
    rw [removeAndResetChannel_eq (s := { s with state := .kDisconnected }) hc]
    exact ⟨_, _, rfl, .inr ⟨hconnecting, c, hc, rfl, rfl⟩⟩
  · exact ⟨_, _, rfl, .inl ⟨rfl, rfl⟩⟩

theorem handleWrite_spec (h : Single s) (hstate : s.state ≠ .kConnected) (soError : Option Errno)
    (selfConnected : Bool) :
    ∃ e s', handleWrite s soError selfConnected = .ok (e, s') ∧ MayEnd s e s' := by
  unfold handleWrite
  split
  · next hconnecting =>
    obtain ⟨c, hc, -⟩ := h.present (h.connecting.mp hconnecting)
    have hends {e : List Effect} {s' : State} (he : Ends s c e s') : MayEnd s e s' :=
      .inr ⟨hconnecting, c, hc, he⟩
    rw [removeAndResetChannel_eq hc]
    simp only [ok_bind, pure_eq_ok]
    split
    · exact ⟨_, _, rfl, hends .retry⟩
    · split
      · exact ⟨_, _, rfl, hends .retry⟩
      · split
        · next hconnected => exact ⟨_, _, rfl, hends (.passed hconnected)⟩
        · next hstopped => exact ⟨_, _, rfl, hends (.stopped (eq_false_of_ne_true hstopped))⟩
  · have hdisc : s.state = .kDisconnected := by cases hs : s.state <;> simp_all
    simp only [assert_holds hdisc, ok_bind]
    exact ⟨_, _, rfl, .inl ⟨rfl, rfl⟩⟩

theorem queue_push (s : State) (f : Functor) : (queueInLoop s f).queue = s.queue ++ [f] :=
  (List.append_assoc ..).symm

theorem queue_removed (s : State) (c : Channel) :
    (s.removed c).queue = s.queue ++ [.resetChannel] :=
  queue_push _ _

theorem single_mayRetry (h : Single s) {e : List Effect} (hm : MayRetry s e s') : Single s' := by
  rcases hm with ⟨-, rfl⟩ | ⟨hconnecting, c, hc, -, rfl⟩
  · exact h
  · exact single_removed h (h.connecting.mp hconnecting) hc (queue_removed s c) rfl rfl rfl rfl rfl
      (.inl ⟨rfl, rfl⟩) rfl

/-- An attempt may succeed in what `handleEvent` comes to last. -/
theorem single_mayEnd (h : Single s) (hlast : s.dispatch = []) {e : List Effect}
    (hm : MayEnd s e s') : Single s' := by
  rcases hm with ⟨-, rfl⟩ | ⟨hconnecting, c, hc, hends⟩
  · exact h
  have hreg := h.connecting.mp hconnecting
  have hinside : s.inside = none :=
    (Single.of_quiet (h.quiet (by rw [hconnecting]; exact nofun))).2.2.2
  cases hends with
  | retry =>
    exact single_removed h hreg hc (queue_removed s c) rfl rfl rfl rfl rfl (.inl ⟨rfl, rfl⟩) rfl
  | passed | stopped =>
    exact single_removed h hreg hc (queue_removed s c) rfl rfl rfl rfl rfl
      (.inr ⟨rfl, hinside, hlast⟩) rfl

/-! ### Every step -/

theorem handleEvent_sublist (c : Channel) :
    c.handleEvent.Sublist [.close, .error, .read, .write] := by
  have hif {b : Bool} {callback : Callback} :
      (if b then [callback] else []).Sublist [callback] := by
    cases b
    · exact List.nil_sublist _
    · exact .refl _
  exact ((hif.append hif).append hif).append hif

/-- Before a callback is run it is taken from the list. -/
theorem single_pop (h : Single s) (hd : s.dispatch ≠ []) :
    Single { s with dispatch := s.dispatch.tail } := { h with
  dispatch := (List.tail_sublist _).trans h.dispatch
  unconnected := fun _ => h.unconnected hd }

theorem single_callback (h : Single s) (hm : may s (.callback soError selfConnected)) :
    ∃ o s', step s (.callback soError selfConnected) = .ok (o, s') ∧ Single s' := by
  obtain ⟨callback, rest, hrest⟩ := List.exists_cons_of_ne_nil hm.2
  have hunconnected := h.unconnected hm.2
  have hsub := h.dispatch
  rw [hrest] at hsub
  have hnext := single_pop h hm.2
  rw [hrest, List.tail_cons] at hnext
  simp only [step, hrest, List.head?_cons, List.tail_cons, deref_some, ok_bind]
  cases callback with
  | close | read => exact ⟨_, _, rfl, hnext⟩
  | error =>
    obtain ⟨e, s', hrun, hretry⟩ := handleError_spec hnext
    exact ⟨e, s', hrun, single_mayRetry hnext hretry⟩
  | write =>
    have hlast : rest = [] := by simpa [List.cons_sublist_cons'] using hsub
    obtain ⟨e, s', hrun, hend⟩ := handleWrite_spec hnext hunconnected soError selfConnected
    exact ⟨e, s', hrun, single_mayEnd hnext hlast hend⟩

/-- Behind a functor of another kind the batch is what it was. -/
theorem count_pop {f : Functor} {rest : List Functor} (h : s.batch = f :: rest) (g : Functor)
    (hne : f ≠ g) : s.queue.count g = ({ s with batch := rest } : State).queue.count g := by
  rw [State.queue, h, List.cons_append, List.count_cons_of_ne hne]
  rfl

theorem outstanding_pop {f : Functor} {rest : List Functor} (h : s.batch = f :: rest)
    (hne : f ≠ .startInLoop) : s.outstanding = ({ s with batch := rest } : State).outstanding := by
  rw [State.outstanding, count_pop h _ hne]
  rfl

/-- A `stopInLoop` is taken from the batch before it runs. -/
theorem single_pop_stop (h : Single s) {rest : List Functor} (hrest : s.batch = .stopInLoop :: rest) :
    Single { s with batch := rest } := by
  have hout := outstanding_pop hrest (by simp)
  have hqueue : s.queue = .stopInLoop :: (rest ++ s.pendingFunctors) := by
    rw [State.queue, hrest, List.cons_append]
  exact { h with
    outstanding := hout ▸ h.outstanding
    disconnected := hout ▸ h.disconnected
    resets := (count_pop hrest .resetChannel (by simp)).symm.trans h.resets
    order := (List.pairwise_cons.mp (hqueue ▸ h.order)).2 }

theorem single_functor (h : Single s) (hm : may s .functor) :
    ∃ o s', step s .functor = .ok (o, s') ∧ Single s' := by
  obtain ⟨⟨hinside, hdispatch⟩, hbatch⟩ := hm
  obtain ⟨f, rest, hrest⟩ := List.exists_cons_of_ne_nil hbatch
  have hqueue : s.queue = f :: (rest ++ s.pendingFunctors) := by
    rw [State.queue, hrest, List.cons_append]
  obtain ⟨hafter, horder⟩ := List.pairwise_cons.mp (hqueue ▸ h.order)
  have hresets := h.resets
  simp only [step, hrest, List.head?_cons, List.tail_cons, deref_some, ok_bind]
  cases f with
  | startInLoop =>
    -- What is queued before the attempt has been run, so the channel has been reset.
    have hout := h.outstanding
    have hpos : 0 < s.outstanding := by
      rw [State.outstanding, hqueue, List.count_cons_self]
      omega
    have hstate := h.disconnected hpos
    have hreg := h.unregistered hstate
    have hnone : ({ s with batch := rest } : State).queue.count .resetChannel = 0 :=
      List.count_eq_zero.mpr fun hmem => hafter _ hmem rfl rfl
    have hchannel : s.channel = none := by
      rw [count_pop hrest .resetChannel nofun, hnone] at hresets
      simpa [hreg] using hresets
    refine ⟨_, _, rfl, single_enter ?_ hstate (.inl hchannel) rfl hdispatch hreg
      (h.closed hreg (by rw [hinside]; exact nofun)) ?_ horder⟩
    · rw [State.outstanding, hqueue, hinside, List.count_cons_self] at hout
      simp only [State.outstanding, State.queue, Option.isSome_some, if_true,
        Option.isSome_none, Bool.false_eq_true, if_false] at hout ⊢
      omega
    · exact hnone.trans (by simp [hchannel])
  | stopInLoop =>
    have hnext := single_pop_stop h hrest
    obtain ⟨e, s', hrun, hretry⟩ := stopInLoop_spec hnext
    exact ⟨e, s', hrun, single_mayRetry hnext hretry⟩
  | resetChannel =>
    have hout := outstanding_pop hrest nofun
    have hreg : s.registered = false := by
      by_contra hne
      rw [hqueue, List.count_cons_self, if_neg (by simp [hne])] at hresets
      cases hresets
    have hzero : (rest ++ s.pendingFunctors).count .resetChannel = 0 := by
      rw [hqueue, List.count_cons_self] at hresets
      split at hresets <;> omega
    exact ⟨_, _, rfl, { h with
      outstanding := hout ▸ h.outstanding
      disconnected := hout ▸ h.disconnected
      present := by simp [resetChannel, hreg]
      resets := hzero
      order := horder
      entering := fun _ => .inl rfl
      socket := fun fd hin => ⟨rfl, (h.socket fd hin).2⟩ }⟩

theorem outstanding_enter (h : s.outstanding = 0) :
    ({ s with inside := some .startInLoop } : State).outstanding = 1 := by
  obtain ⟨hstarting, hqueue, htimers, -⟩ := Single.of_quiet h
  simp only [State.outstanding, State.queue] at hqueue ⊢
  simp [hstarting, htimers, List.count_eq_zero.mpr hqueue]

/-- Only a reset must not come behind an attempt. -/
theorem order_push (h : Single s) {f : Functor} (hf : f ≠ .resetChannel) :
    (s.queue ++ [f]).Pairwise fun f g => f = .startInLoop → g ≠ .resetChannel := by
  rw [List.pairwise_append]
  refine ⟨h.order, List.pairwise_singleton _ _, fun _ _ g hg _ => ?_⟩
  rw [List.mem_singleton.mp hg]
  exact hf

/-- A functor that is not an attempt is pushed. -/
theorem single_push_stop (h : Single s) {connected : Bool} {stopping : Nat}
    (hconnected : connected = false ∨ connected = s.connected) :
    Single (queueInLoop { s with connected, stopping } .stopInLoop) := by
  have hcount (f : Functor) (hne : Functor.stopInLoop ≠ f) :
      (queueInLoop { s with connected, stopping } .stopInLoop).queue.count f = s.queue.count f := by
    simp [queueInLoop, State.queue, List.count_cons_of_ne hne]
  have hout : (queueInLoop { s with connected, stopping } .stopInLoop).outstanding = s.outstanding := by
    rw [State.outstanding, hcount .startInLoop nofun]
    rfl
  refine { h with
    outstanding := hout ▸ h.outstanding
    disconnected := hout ▸ h.disconnected
    resets := (hcount .resetChannel nofun).trans h.resets
    order := queue_push _ _ ▸ order_push h (by simp)
    entering := fun hin => ?_ }
  rcases hconnected with rfl | rfl
  · exact .inr rfl
  · exact h.entering hin

/-- `start` on another thread moves from its store to the queue. -/
theorem single_endStart (h : Single s) (hpos : 0 < s.starting) :
    Single (queueInLoop { s with starting := s.starting - 1 } .startInLoop) := by
  have hcount : (queueInLoop { s with starting := s.starting - 1 } .startInLoop).queue.count
      .startInLoop = s.queue.count .startInLoop + 1 := by
    rw [queue_push, List.count_append]
    rfl
  have hout : (queueInLoop { s with starting := s.starting - 1 } .startInLoop).outstanding =
      s.outstanding := by
    rw [State.outstanding, hcount, State.outstanding]
    show s.starting - 1 + _ + s.retryTimers + (if s.inside.isSome then 1 else 0) = _
    omega
  exact { h with
    outstanding := hout ▸ h.outstanding
    disconnected := hout ▸ h.disconnected
    resets := .trans (by simp [queueInLoop, State.queue]) h.resets
    order := queue_push _ _ ▸ order_push h (by simp) }

/-- The retry timer has fired. -/
theorem single_timer (h : Single s) (hm : may s .timer) (hcalm : Calm s .timer) :
    Single { s with retryTimers := s.retryTimers - 1, inside := some .startInLoop } := by
  obtain ⟨hout, hbatch, hpos⟩ := hm
  have hone := h.outstanding
  rw [State.outstanding, hout.1] at hone
  have hstate := h.disconnected (by rw [State.outstanding]; omega)
  have hreg := h.unregistered hstate
  refine single_enter ?_ hstate hcalm rfl hout.2 hreg
    (h.closed hreg (by rw [hout.1]; exact nofun)) h.resets h.order
  simp only [State.outstanding, State.queue, Option.isSome_some, if_true, Option.isSome_none,
    Bool.false_eq_true, if_false] at hone ⊢
  omega

/-- The functors that have been queued become the batch. -/
theorem single_drain (h : Single s) (hbatch : s.batch = []) :
    Single { s with batch := s.pendingFunctors, pendingFunctors := [] } := by
  have hqueue : s.queue = s.pendingFunctors ++ [] := by rw [State.queue, hbatch]; simp
  have hout : ({ s with batch := s.pendingFunctors, pendingFunctors := [] } : State).outstanding =
      s.outstanding := by
    rw [State.outstanding, State.outstanding, hqueue]
    rfl
  exact { h with
    outstanding := hout ▸ h.outstanding
    disconnected := hout ▸ h.disconnected
    resets := (hqueue ▸ h.resets :)
    order := (hqueue ▸ h.order :) }

/-- What one admitted step does, if the callers keep to `Calm`. -/
theorem single_step (h : Single s) (hm : may s l) (hcalm : Calm s l) :
    ∃ o s', step s l = .ok (o, s') ∧ Single s' := by
  cases l with
  | start =>
    obtain ⟨hstate, hquiet, hchannel⟩ := hcalm
    have hreg := h.unregistered hstate
    exact ⟨_, _, rfl, single_enter (outstanding_enter hquiet) hstate (.inl hchannel) rfl hm.2 hreg
      (h.closed hreg (by rw [hm.1]; exact nofun)) h.resets h.order⟩
  | restart =>
    obtain ⟨hquiet, hchannel⟩ := hcalm
    have hreg : s.registered = false := by
      by_contra hne
      obtain ⟨c, hc, -⟩ := h.present (by simpa using hne)
      rw [hchannel] at hc
      cases hc
    exact ⟨_, _, rfl, single_enter (outstanding_enter hquiet) rfl (.inl hchannel) rfl hm.2 hreg
      (h.closed hreg (by rw [hm.1]; exact nofun)) h.resets h.order⟩
  | stop => exact ⟨_, _, rfl, single_push_stop h (.inl rfl)⟩
  | beginStart =>
    obtain ⟨hstate, hquiet⟩ := hcalm
    obtain ⟨hstarting, hqueue, htimers, hinside⟩ := Single.of_quiet hquiet
    refine ⟨_, _, rfl, { h with
      outstanding := ?_, disconnected := fun _ => hstate, entering := ?_ }⟩
    · have hcount : (s.batch ++ s.pendingFunctors).count .startInLoop = 0 :=
        List.count_eq_zero.mpr hqueue
      simp [State.outstanding, State.queue, hstarting, htimers, hinside, hcount]
    · rw [hinside]
      exact nofun
  | endStart => exact ⟨_, _, rfl, single_endStart h hm⟩
  | beginStop => exact ⟨_, _, rfl, { h with entering := fun _ => .inr rfl }⟩
  | endStop => exact ⟨_, _, rfl, single_push_stop h (.inr rfl)⟩
  | startInLoop sockfd => exact single_startInLoop h hm
  | connect savedErrno =>
    obtain ⟨_, hin, sockfd, rfl⟩ := hm
    have hinside : s.inside = some (.connect sockfd) := hin
    simp only [step, hinside]
    exact single_connect h hinside savedErrno
  | scheduleRetry => exact ⟨_, _, rfl, single_scheduleRetry h hm⟩
  | handleEvent revents =>
    obtain ⟨hout, hbatch, hreg, -⟩ := hm
    obtain ⟨c, hc, hsockets⟩ := h.present hreg
    have hconnecting := h.connecting.mpr hreg
    have hresets := h.resets
    rw [if_neg (by simp [hreg])] at hresets
    simp only [step, hc, deref_some, ok_bind, pure_eq_ok]
    exact ⟨_, _, rfl, { h with
      present := fun _ => ⟨_, rfl, hsockets⟩
      resets := hresets.trans (by simp [hreg])
      entering := by rw [hout.1]; exact nofun
      socket := by rw [hout.1]; exact nofun
      dispatch := handleEvent_sublist _
      unconnected := fun _ => by rw [hconnecting]; exact nofun }⟩
  | callback soError selfConnected => exact single_callback h hm
  | timer => exact ⟨_, _, rfl, single_timer h hm hcalm⟩
  | doPendingFunctors => exact ⟨_, _, rfl, single_drain h hm.2⟩
  | functor => exact single_functor h hm

theorem single_inductive : (machine.only Calm).Inductive Single :=
  fun _ _ h hm => single_step h hm.1 hm.2

/-! ### Every run -/

/-- What one attempt at a time means for the functions and the sockets. -/
structure AtMostOne (s : State) : Prop where
  startInLoop : s.inside = some .startInLoop → s.state = .kDisconnected
  connecting : ∀ sockfd, s.inside = some (.connect sockfd) → s.channel = none
  handleWrite : s.dispatch.head? = some .write → s.state ≠ .kConnected
  resetChannel : s.batch.head? = some .resetChannel → s.registered = false
  sockets : s.sockets.length ≤ 1

theorem Single.atMostOne (h : Single s) : AtMostOne s where
  startInLoop := fun hin => h.disconnected (outstanding_pos (by rw [hin]; exact nofun))
  connecting := fun sockfd hin => (h.socket sockfd hin).1
  handleWrite := fun hhead => h.unconnected fun hnil => by
    rw [hnil] at hhead
    cases hhead
  resetChannel := fun hhead => by
    obtain ⟨rest, hrest⟩ := List.head?_eq_some_iff.mp hhead
    have hresets := h.resets
    by_contra hne
    rw [State.queue, hrest, List.cons_append, List.count_cons_self, if_neg (by simp [hne])] at hresets
    cases hresets
  sockets := by
    by_cases hreg : s.registered = true
    · obtain ⟨c, -, hsockets⟩ := h.present hreg
      simp [hsockets]
    · by_cases hin : ∃ sockfd, s.inside = some (.connect sockfd)
      · obtain ⟨sockfd, hin⟩ := hin
        simp [(h.socket sockfd hin).2]
      · simp [h.closed (by simpa using hreg) fun sockfd heq => hin ⟨sockfd, heq⟩]

/-- **One attempt at a time, while the callers wait for each other.** In every run whose
calls and timers keep to `Calm` there is one attempt at most in every state reached, and
every further step that keeps to it passes its assertions. -/
theorem one_attempt {tr : List (Action × List Effect)} (h : (machine.only Calm).Run initial tr s) :
    AtMostOne s ∧ ∀ l, may s l → Calm s l → ∃ o s', step s l = .ok (o, s') := by
  have hsingle := single_inductive.run h single_initial
  refine ⟨hsingle.atMostOne, fun l hm hcalm => ?_⟩
  obtain ⟨o, s', hstep, -⟩ := single_step hsingle hm hcalm
  exact ⟨o, s', hstep⟩

instance (s : State) : (l : Action) → Decidable (Calm s l)
  | .start => inferInstanceAs (Decidable (_ ∧ _ ∧ _))
  | .restart | .beginStart => inferInstanceAs (Decidable (_ ∧ _))
  | .timer => inferInstanceAs (Decidable (_ ∨ _))
  | .stop | .endStart | .beginStop | .endStop | .startInLoop _ | .connect _ | .scheduleRetry
  | .handleEvent _ | .callback _ _ | .doPendingFunctors | .functor => inferInstanceAs (Decidable True)

/-- Refused once; the retry is stopped while it connects, and begun again when its timer
has fired. -/
theorem one_attempt_retried : ∃ tr s, (machine.only Calm).Run initial tr s ∧
    s.sockets = [8] ∧ s.retryDelayMs = 1000 ∧ AtMostOne s := by
  obtain ⟨tr, s, h, -, hsockets, hdelay⟩ := (machine.only Calm).exists_run_of_replay (s := initial)
    (P := fun _ s => s.sockets = [8] ∧ s.retryDelayMs = 1000)
    [.start, .startInLoop 7, .connect (some .ECONNREFUSED), .scheduleRetry, .timer, .startInLoop 7,
      .connect (some .EINPROGRESS), .beginStop, .endStop, .handleEvent (POLLERR ||| POLLOUT),
      .callback none false, .scheduleRetry, .callback none false, .doPendingFunctors, .functor,
      .functor, .beginStart, .endStart, .doPendingFunctors, .functor, .startInLoop 8]
    (by decide +kernel)
  exact ⟨tr, s, h, hsockets, hdelay, (one_attempt h).1⟩

/-! ### Without it -/

theorem startInLoop_asserts (hstate : s.state ≠ .kDisconnected) (sockfd : Nat) :
    step s (.startInLoop sockfd) = .error .assertion := by
  simp only [step, startInLoop, assert_fails hstate, error_bind]

theorem connect_asserts (hinside : s.inside = some (.connect sockfd)) (hchannel : s.channel ≠ none) :
    step s (.connect (some .EINPROGRESS)) = .error .assertion := by
  simp only [step, hinside, connect, connecting, assert_fails hchannel, error_bind]

/-- `restart` of a connecting connector opens a second socket. -/
theorem restart_second_socket (h : Single s) (hstate : s.state = .kConnecting) (sockfd : Nat) :
    ∃ o s', step (restart s) (.startInLoop sockfd) = .ok (o, s') ∧ s'.sockets.length = 2 := by
  obtain ⟨c, -, hsockets⟩ := h.present (h.connecting.mp hstate)
  exact ⟨_, _, rfl, by simp [restart, hsockets]⟩

/-- An attempt that gets through while a channel waits to be reset fails, whoever begins it. -/
theorem waiting_asserts (hstate : s.state = .kDisconnected) (hconnected : s.connected = true)
    (hchannel : s.channel ≠ none) (sockfd : Nat) :
    ∃ o s', step s (.startInLoop sockfd) = .ok (o, s') ∧
      step s' (.connect (some .EINPROGRESS)) = .error .assertion := by
  have hrun : step s (.startInLoop sockfd) = .ok ([.socket sockfd], { s with
      sockets := sockfd :: s.sockets, inside := some (.connect sockfd) }) := by
    simp only [step, startInLoop, assert_holds hstate, ok_bind, if_pos hconnected]
    rfl
  exact ⟨_, _, hrun, connect_asserts rfl hchannel⟩

/-- `start`, and while it connects `stop` and `start` from another thread: the second attempt
finds the channel of the first. -/
theorem connecting_asserts : ∃ tr s, machine.Run initial tr s ∧
    tr.map Prod.fst = [.start, .startInLoop 7, .connect (some .EINPROGRESS), .beginStop, .endStop,
      .beginStart, .endStart, .doPendingFunctors, .functor, .scheduleRetry, .functor,
      .startInLoop 8] ∧
    may s (.connect (some .EINPROGRESS)) ∧ s.inside = some (.connect 8) ∧ s.channel ≠ none ∧
    step s (.connect (some .EINPROGRESS)) = .error .assertion := by
  obtain ⟨tr, s, h, hlabels, hm, hinside, hchannel⟩ := machine.exists_run_of_replay (s := initial)
    (P := fun _ s => may s (.connect (some .EINPROGRESS)) ∧ s.inside = some (.connect 8) ∧
      s.channel ≠ none)
    [.start, .startInLoop 7, .connect (some .EINPROGRESS), .beginStop, .endStop, .beginStart,
      .endStart, .doPendingFunctors, .functor, .scheduleRetry, .functor, .startInLoop 8]
    (by decide +kernel)
  exact ⟨tr, s, h, hlabels, hm, hinside, hchannel, connect_asserts hinside hchannel⟩

end Leanet.Connector

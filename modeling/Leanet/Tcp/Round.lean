import Leanet.Tcp.Shared

/-! A connection whose callbacks all run on its loop, with assertions compiled out.

The loop polls, makes the callbacks of the event, and runs the functors that have been queued
by then. The close callback queues `connectDestroyed`, so it runs in the iteration that closed
the connection, and nothing is polled for in between.

What a step lets out is what the application and the owner see. Most calls they do not see at all
(`Silent`). -/
namespace Leanet.Round
open TcpConnection
open LifeCycle (Fits Keeps Open)
open Shared (Closes)

/-- What is queued in the loop. -/
inductive Functor where
  | writeCompleteCallback
  | highWaterMarkCallback
  | connectDestroyed
  deriving DecidableEq, Repr

/-- What the application and the owner of the connection see. -/
inductive Event where
  /-- `connectionCallback_`, and what it finds `connected()` to be. -/
  | connection (connected : Bool)
  | message
  | close
  /-- `connectDestroyed` has run. -/
  | destroyed
  deriving DecidableEq, Repr

/-- Where the loop is in its iteration. -/
inductive Phase where
  | polling
  /-- The callbacks that `handleEvent` has still to make. -/
  | handling (dispatch : List Callback)
  /-- The functors that `doPendingFunctors` has still to run. -/
  | draining (batch : List Functor)
  deriving DecidableEq, Repr

structure State where
  conn : TcpConnection
  /-- `connectEstablished` has been called. -/
  started : Bool
  phase : Phase
  pendingFunctors : List Functor
  deriving DecidableEq

/-- Constructed, with a close callback. -/
def initial (sockfd : Nat) : State where
  conn := { TcpConnection.new sockfd with closeCallback := true }
  started := false
  phase := .polling
  pendingFunctors := []

inductive Action where
  | setWriteCompleteCallback (set : Bool)
  | setHighWaterMarkCallback (set : Bool) (highWaterMark : Nat)
  | connectEstablished
  /-- poll(2) reports `revents` for the channel. -/
  | handleEvent (revents : BitVec 32)
  /-- The next callback, and what its system call returns. -/
  | callback (transfer : Transfer)
  | doPendingFunctors
  /-- The next functor; what the application's do are steps of their own. -/
  | functor
  | send (data : List UInt8) (write : Transfer)
  | shutdown
  deriving DecidableEq

/-- What `handleEvent` calls next. -/
def State.next (s : State) : Option Callback :=
  match s.phase with
  | .handling dispatch => dispatch.head?
  | _ => none

/-- The loop is through with an event, or had none of this channel. -/
def Phase.isHandled (p : Phase) : Bool := p == .polling || p == .handling []

def Phase.isDraining : Phase → Bool
  | .draining batch => !batch.isEmpty
  | _ => false

def allowed (s : State) : Action → Prop
  | .setWriteCompleteCallback _ | .setHighWaterMarkCallback _ _ | .shutdown => True
  | .connectEstablished => s.started = false
  | .handleEvent _ => s.phase = .polling ∧ s.conn.registered = true ∧
    s.conn.channel.isNoneEvent = false
  | .callback transfer => s.next ≠ none ∧
    (s.next = some .write → Fits s.conn.outputBuffer.readableBytes transfer)
  | .doPendingFunctors => s.phase.isHandled = true
  | .functor => s.phase.isDraining = true
  | .send data write => Fits data.length write

def Action.isSetup : Action → Bool
  | .setWriteCompleteCallback _ | .setHighWaterMarkCallback _ _ | .connectEstablished => true
  | _ => false

def may (s : State) (l : Action) : Prop :=
  (l.isSetup = false → s.started = true) ∧ allowed s l

/-- A callback, with `connected()` as it is then. -/
def Event.of (connected : Bool) : Effect → Option Event
  | .connectionCallback => some (.connection connected)
  | .messageCallback => some .message
  | .closeCallback => some .close
  | _ => none

/-- What an effect puts into the loop's queue: the close callback queues `connectDestroyed`. -/
def Functor.of : Effect → Option Functor
  | .queueWriteComplete => some .writeCompleteCallback
  | .queueHighWaterMark _ _ => some .highWaterMarkCallback
  | .closeCallback => some .connectDestroyed
  | _ => none

/-- The connection after a call. -/
def State.perform (s : State) (r : List Effect × TcpConnection) : List Event × State :=
  (r.1.filterMap (Event.of r.2.connected), { s with
    conn := r.2
    pendingFunctors := s.pendingFunctors ++ r.1.filterMap Functor.of })

/-- `doPendingFunctors` with these functors left. -/
def Phase.drain : List Functor → Phase
  | [] => .polling
  | batch => .draining batch

def runFunctor (c : TcpConnection) : Functor → Except Fault (List Effect × TcpConnection)
  | .connectDestroyed => c.connectDestroyedIn .release
  | .writeCompleteCallback | .highWaterMarkCallback => pure ([], c)

def step (s : State) : Action → Except Fault (List Event × State)
  | .setWriteCompleteCallback set =>
    pure ([], { s with conn := { s.conn with writeCompleteCallback := set } })
  | .setHighWaterMarkCallback set mark => pure ([], { s with
      conn := { s.conn with highWaterMarkCallback := set, highWaterMark := mark } })
  | .connectEstablished => do
    let r ← s.conn.connectEstablishedIn .release
    pure ({ s with started := true }.perform r)
  | .handleEvent revents =>
    let channel := s.conn.channel.setReceivedEvents revents
    pure ([], { s with conn := { s.conn with channel }, phase := .handling channel.handleEvent })
  | .callback transfer =>
    match s.phase with
    | .handling (callback :: rest) => do
      let r ← Shared.runCallback .release s.conn transfer callback
      pure ({ s with phase := .handling rest }.perform r)
    | _ => pure ([], s)
  | .doPendingFunctors =>
    pure ([], { s with phase := .drain s.pendingFunctors, pendingFunctors := [] })
  | .functor =>
    match s.phase with
    | .draining (f :: rest) => do
      let r ← runFunctor s.conn f
      let (events, s) := { s with phase := .drain rest }.perform r
      pure (events ++ (if f = .connectDestroyed then [.destroyed] else []), s)
    | _ => pure ([], s)
  | .send data write =>
    if s.conn.connected then do
      let r ← s.conn.sendInLoop data data.length write
      pure (s.perform r)
    else pure ([], s)
  | .shutdown => pure (s.perform s.conn.shutdown)

def machine : Machine State Action (List Event) Fault where
  may := may
  step := step

instance (s : State) : (l : Action) → Decidable (allowed s l)
  | .setWriteCompleteCallback _ | .setHighWaterMarkCallback _ _ | .shutdown =>
    inferInstanceAs (Decidable True)
  | .connectEstablished | .doPendingFunctors | .functor => inferInstanceAs (Decidable (_ = _))
  | .handleEvent _ | .callback _ => inferInstanceAs (Decidable (_ ∧ _))
  | .send _ _ => inferInstanceAs (Decidable (Fits _ _))

instance (s : State) (l : Action) : Decidable (may s l) := inferInstanceAs (Decidable (_ ∧ _))

instance (s : State) (l : Action) : Decidable (machine.may s l) :=
  inferInstanceAs (Decidable (may s l))

/-- Everything that was seen, in order. -/
def log (tr : List (Action × List Event)) : List Event := tr.flatMap Prod.snd

/-- The connection closes once. -/
structure ClosesOnce (started : Bool) (log : List Event) : Prop where
  close : log.count .close ≤ 1
  message : log.Pairwise fun a b => a = .close → b ≠ .message
  destroyed : log.count .destroyed ≤ 1
  up : log.count (.connection true) = started.toNat
  down : log.count (.connection false) ≤ 1
  order : log.Pairwise fun a b => a = .connection false → b ≠ .connection true

/-- poll(2) has reported POLLHUP without POLLIN. -/
def Hangup (c : Channel) : Prop :=
  c.receivedEvents &&& POLLHUP ≠ 0 ∧ c.receivedEvents &&& POLLIN = 0

/-- A read in the dispatch of such a report fails. -/
def Fails (s : State) : Action → Prop
  | .callback transfer => s.next = some .read → Hangup s.conn.channel → transfer.isOk = false
  | _ => True

instance (c : Channel) : Decidable (Hangup c) := inferInstanceAs (Decidable (_ ∧ _))

variable {s s' : State} {l : Action} {e : List Event} {c : TcpConnection}
  {r : List Effect × TcpConnection} {write transfer : Transfer}

/-- The close callback comes first, the others once each. -/
theorem handleEvent_eq (c : Channel) : ∃ error read write : Bool, c.handleEvent =
    (if Hangup c then [.close] else []) ++ ((if error then [.error] else []) ++
      ((if read then [.read] else []) ++ if write then [.write] else [])) := by
  have hclose : (c.receivedEvents &&& POLLHUP != 0 && !(c.receivedEvents &&& POLLIN != 0)) =
      decide (Hangup c) := by
    rw [Bool.eq_iff_iff, decide_eq_true_iff]
    simp [Hangup]
  refine ⟨c.receivedEvents &&& (POLLERR ||| POLLNVAL) != 0,
    c.receivedEvents &&& (POLLIN ||| POLLPRI) != 0, c.receivedEvents &&& POLLOUT != 0, ?_⟩
  simp only [Channel.handleEvent, hclose, decide_eq_true_eq, List.append_assoc]

theorem handleEvent_dispatch (c : Channel) : c.handleEvent.Nodup ∧
    (.close ∈ c.handleEvent → Hangup c) ∧ (Hangup c → c.handleEvent.head? = some .close) := by
  obtain ⟨error, read, write, heq⟩ := handleEvent_eq c
  rw [heq]
  by_cases h : Hangup c <;> cases error <;> cases read <;> cases write <;> simp [h]

/-! ### Calls that nobody sees -/

/-- A call that leaves `state_` alone and calls nobody back. -/
structure Silent (c : TcpConnection) (r : List Effect × TcpConnection) : Prop where
  keeps : Keeps c r
  quiet : ∀ x ∈ r.1, ∀ connected, Event.of connected x = none
  callback : r.2.closeCallback = c.closeCallback
  received : r.2.channel.receivedEvents = c.channel.receivedEvents

theorem silent_nil (hv : c.outputBuffer.Valid) : Silent c ([], c) :=
  ⟨⟨hv, rfl, by simp⟩, by simp, rfl, rfl⟩

theorem Silent.events (h : Silent c r) (connected : Bool) :
    r.1.filterMap (Event.of connected) = [] :=
  List.filterMap_eq_nil_iff.mpr fun x hx => h.quiet x hx connected

theorem Silent.functors (h : Silent c r) : .connectDestroyed ∉ r.1.filterMap Functor.of := by
  intro hmem
  obtain ⟨x, hx, hof⟩ := List.mem_filterMap.mp hmem
  cases x with
  | closeCallback => exact h.keeps.quiet hx
  | _ => cases hof

theorem shutdownInLoop_silent (hv : c.outputBuffer.Valid) : Silent c c.shutdownInLoop := by
  refine ⟨LifeCycle.shutdownInLoop_keeps hv, ?_, ?_, ?_⟩ <;> unfold shutdownInLoop <;> split <;>
    simp [Event.of]

theorem handleWrite_silent (hv : c.outputBuffer.Valid) (hw : Fits c.outputBuffer.readableBytes write)
    (h : c.handleWrite write = .ok r) : Silent c r := by
  obtain ⟨r', hr', hk⟩ := LifeCycle.handleWrite_keeps hv hw
  obtain rfl : r' = r := Except.ok.inj (hr'.symm.trans h)
  obtain ⟨r, hr, hspec⟩ := handleWrite_spec hv hw.le
  obtain rfl : r = r' := Except.ok.inj (hr.symm.trans h)
  cases hspec with
  | idle => exact ⟨hk, by simp, rfl, rfl⟩
  | failed | nothing | some => exact ⟨hk, by simp [Event.of], rfl, rfl⟩
  | all n b =>
    refine ⟨hk, ?_, rfl, rfl⟩
    by_cases hset : c.writeCompleteCallback = true <;>
      by_cases hs : c.state = .kDisconnecting <;> simp [hset, hs, Event.of]

theorem quiet_of_send {x : Effect} (h : x.OfSend) (connected : Bool) :
    Event.of connected x = none := by
  cases x with
  | connectionCallback | messageCallback | closeCallback => exact h.elim
  | wrote | writeFailed | shutdownWrite | queueWriteComplete | queueHighWaterMark => rfl

theorem sendInLoop_silent (hv : c.outputBuffer.Valid) {data : List UInt8}
    (hw : Fits data.length write) (h : c.sendInLoop data data.length write = .ok r) : Silent c r := by
  obtain ⟨r', hr', hspec⟩ := sendInLoop_spec hv (Nat.le_refl _) hw.le
  obtain rfl : r' = r := Except.ok.inj (hr'.symm.trans h)
  obtain ⟨hvalid, hstate, hcallback, hreceived⟩ := hspec.conn hv
  exact ⟨⟨hvalid, hstate, hspec.effects _⟩, fun x hx => quiet_of_send (hspec.effects x hx),
    hcallback, hreceived⟩

/-! ### The calls of a release build -/

theorem connectEstablishedIn_release (c : TcpConnection) : c.connectEstablishedIn .release =
    .ok ([.connectionCallback], (c.setState .kConnected).setInterest .enableReading) := by
  simp only [connectEstablishedIn, Build.assert, true_or, if_true, ok_bind]
  rfl

theorem handleCloseIn_release (h : c.closeCallback = true) : c.handleCloseIn .release =
    .ok ([.closeCallback], (c.setState .kDisconnected).setInterest .disableAll) := by
  have hset : ((c.setState .kDisconnected).setInterest .disableAll).closeCallback = true := h
  simp only [handleCloseIn, Build.assert, true_or, if_true, ok_bind, hset]
  rfl

theorem connectDestroyedIn_release (c : TcpConnection) : c.connectDestroyedIn .release =
    .ok ([.connectionCallback],
      { (c.setState .kDisconnected).setInterest .disableAll with registered := false }) := by
  simp only [connectDestroyedIn, Build.assert, true_or, if_true, ok_bind]
  rfl

/-! ### One callback, one functor -/

theorem perform_nil (s : State) : s.perform ([], s.conn) = ([], s) := by
  simp [State.perform]

/-- One step of `handleEvent`. -/
theorem callback_runs (hm : may s (.callback transfer)) (hs : step s (.callback transfer) = .ok (e, s')) :
    ∃ callback rest r, s.phase = .handling (callback :: rest) ∧
      (callback = .write → Fits s.conn.outputBuffer.readableBytes transfer) ∧
      Shared.runCallback .release s.conn transfer callback = .ok r ∧
      (e, s') = ({ s with phase := .handling rest } : State).perform r := by
  obtain ⟨-, hnext, hfits⟩ := hm
  unfold State.next at hnext hfits
  simp only [step] at hs
  split at hs
  · next callback rest hphase =>
    obtain ⟨r, hr, hs⟩ := bind_eq_ok.mp hs
    rw [hphase] at hfits
    exact ⟨callback, rest, r, hphase, fun hw => hfits (congrArg some hw), hr, (Except.ok.inj hs).symm⟩
  · next hnone =>
    cases hphase : s.phase with
    | handling dispatch =>
      cases dispatch with
      | nil => exact absurd (by rw [hphase]; rfl) hnext
      | cons callback rest => exact absurd hphase (hnone callback rest)
    | polling => exact absurd (by rw [hphase]) hnext
    | draining batch => exact absurd (by rw [hphase]) hnext

theorem functor_runs (hm : may s .functor) (hs : step s .functor = .ok (e, s')) :
    ∃ f rest r es, s.phase = .draining (f :: rest) ∧ runFunctor s.conn f = .ok r ∧
      (es, s') = ({ s with phase := .drain rest } : State).perform r ∧
      e = es ++ if f = .connectDestroyed then [.destroyed] else [] := by
  have hdraining : s.phase.isDraining = true := hm.2
  simp only [step] at hs
  split at hs
  · next f rest hphase =>
    obtain ⟨r, hr, hs⟩ := bind_eq_ok.mp hs
    cases hs
    exact ⟨f, rest, r, _, hphase, hr, rfl, rfl⟩
  · next hnone =>
    cases hphase : s.phase with
    | draining batch =>
      cases batch with
      | nil =>
        rw [hphase] at hdraining
        cases hdraining
      | cons f rest => exact absurd hphase (hnone f rest)
    | polling =>
      rw [hphase] at hdraining
      cases hdraining
    | handling dispatch =>
      rw [hphase] at hdraining
      cases hdraining

end Leanet.Round

import Leanet.Foundation.Machine
import Leanet.Tcp.Connection

/-! From `connectEstablished` to the destructor.

The connection is driven as a server or a client drives it: established once, then fed
with poll events whose callbacks run in the order of `handleEvent`, and with functors in
batches. When it calls its close callback the owner will queue `connectDestroyed`, at
once or by way of the owner's loop. Other threads send and shut down in separate steps:
the test of `state_`, the store, the push of the functor.

`handleClose` leaves `kDisconnected` behind, and `connectDestroyed` asserts that the
connection is not there yet. So every assertion holds up to the point where a closed
connection is destroyed, or closed again, and none holds there (`lifecycle_assertions`). -/
namespace Leanet.LifeCycle
open TcpConnection

/-- A functor of the connection in its loop's queue. -/
inductive Functor where
  | sendInLoop (data : List UInt8)
  | shutdownInLoop
  | connectDestroyed
  deriving DecidableEq, Repr

structure State where
  conn : TcpConnection
  /-- `connectEstablished` has been called. -/
  started : Bool
  /-- The callbacks that `handleEvent` has still to make. -/
  dispatch : List Callback
  batch : List Functor
  pendingFunctors : List Functor
  /-- Close callbacks called whose `connectDestroyed` is not queued yet. -/
  removing : Nat
  /-- `connectDestroyed` has returned. -/
  destroyed : Bool
  /-- The destructor has not run. -/
  alive : Bool
  /-- Other threads inside `send`, past its test. -/
  sending : Nat
  /-- Other threads inside `shutdown`, past its test. -/
  checked : Nat
  /-- Other threads inside `shutdown`, past its store. -/
  stored : Nat
  deriving DecidableEq

/-- Constructed, with its callbacks set. -/
def initial (sockfd : Nat) : State where
  conn := { TcpConnection.new sockfd with closeCallback := true }
  started := false
  dispatch := []
  batch := []
  pendingFunctors := []
  removing := 0
  destroyed := false
  alive := true
  sending := 0
  checked := 0
  stored := 0

inductive Action where
  | connectEstablished
  /-- poll(2) reports `revents` for the channel. -/
  | handleEvent (revents : BitVec 32)
  /-- The next callback, and what its system call returns. -/
  | callback (transfer : Transfer)
  | doPendingFunctors
  /-- The next functor of the batch, and what its write(2) returns. -/
  | functor (write : Transfer)
  /-- The owner queues `connectDestroyed`. -/
  | removeConnection
  /-- `send` on the loop thread. -/
  | send (data : List UInt8) (write : Transfer)
  /-- `shutdown` on the loop thread. -/
  | shutdown
  | checkSend
  | pushSend (data : List UInt8)
  | checkShutdown
  | storeShutdown
  | pushShutdown
  /-- `~TcpConnection`. -/
  | destruct
  deriving DecidableEq

/-- A transfer of at most what was asked for, or any error. -/
def Fits (len : Nat) : Transfer → Prop
  | .ok n => n ≤ len
  | .error _ => True

instance (len : Nat) : (transfer : Transfer) → Decidable (Fits len transfer)
  | .ok _ => inferInstanceAs (Decidable (_ ≤ _))
  | .error _ => inferInstanceAs (Decidable True)

/-- What the write(2) of a functor is asked to take. -/
def Functor.len : Functor → Nat
  | .sendInLoop data => data.length
  | .shutdownInLoop | .connectDestroyed => 0

/-- No functor or callback holds the connection any more. -/
def State.Released (s : State) : Prop :=
  s.destroyed = true ∧ s.dispatch = [] ∧ s.batch = [] ∧ s.pendingFunctors = [] ∧
    s.removing = 0 ∧ s.sending = 0 ∧ s.checked = 0 ∧ s.stored = 0

instance (s : State) : Decidable s.Released := inferInstanceAs (Decidable (_ ∧ _))

/-- What may come next, while the connection is there. -/
def allowed (s : State) : Action → Prop
  | .connectEstablished => s.started = false
  | .handleEvent _ => s.conn.registered = true ∧ s.conn.channel.isNoneEvent = false ∧
    s.dispatch = [] ∧ s.batch = []
  | .callback transfer => s.dispatch ≠ [] ∧
    (s.dispatch.head? = some .write → Fits s.conn.outputBuffer.readableBytes transfer)
  | .doPendingFunctors => s.dispatch = [] ∧ s.batch = []
  | .functor write => s.dispatch = [] ∧ ∃ f ∈ s.batch.head?, Fits f.len write
  | .removeConnection => 0 < s.removing
  | .send data write => Fits data.length write
  | .shutdown => True
  | .pushSend _ => 0 < s.sending
  | .checkSend | .checkShutdown => s.conn.connected = true
  | .storeShutdown => 0 < s.checked
  | .pushShutdown => 0 < s.stored
  | .destruct => s.Released

def may (s : State) (l : Action) : Prop :=
  s.alive = true ∧ (l ≠ .connectEstablished → s.started = true) ∧ allowed s l

/-- The connection after a call, whose close callback asks the owner for its removal. -/
def State.perform (s : State) (r : List Effect × TcpConnection) : List Effect × State :=
  (r.1, { s with conn := r.2, removing := s.removing + r.1.count .closeCallback })

/-- One callback of `handleEvent`. -/
def runCallback (c : TcpConnection) (transfer : Transfer) :
    Callback → Except Fault (List Effect × TcpConnection)
  | .close => c.handleClose
  | .error => pure c.handleError
  | .read => c.handleRead transfer
  | .write => c.handleWrite transfer

def runFunctor (c : TcpConnection) (write : Transfer) :
    Functor → Except Fault (List Effect × TcpConnection)
  | .sendInLoop data => c.sendInLoop data data.length write
  | .shutdownInLoop => pure c.shutdownInLoop
  | .connectDestroyed => c.connectDestroyed

def step (s : State) : Action → Except Fault (List Effect × State)
  | .connectEstablished => do
    let r ← s.conn.connectEstablished
    pure ({ s with started := true }.perform r)
  | .handleEvent revents =>
    let channel := s.conn.channel.setReceivedEvents revents
    pure ([], { s with conn := { s.conn with channel }, dispatch := channel.handleEvent })
  | .callback transfer => do
    let callback ← deref s.dispatch.head?
    let r ← runCallback s.conn transfer callback
    pure ({ s with dispatch := s.dispatch.tail }.perform r)
  | .doPendingFunctors =>
    pure ([], { s with batch := s.pendingFunctors, pendingFunctors := [] })
  | .functor write => do
    let f ← deref s.batch.head?
    let r ← runFunctor s.conn write f
    pure ({ s with
      batch := s.batch.tail
      destroyed := s.destroyed || f == Functor.connectDestroyed }.perform r)
  | .removeConnection => pure ([], { s with
      removing := s.removing - 1
      pendingFunctors := s.pendingFunctors ++ [.connectDestroyed] })
  | .send data write =>
    if s.conn.connected then do
      let r ← s.conn.sendInLoop data data.length write
      pure (s.perform r)
    else pure ([], s)
  | .shutdown => pure (s.perform s.conn.shutdown)
  | .checkSend => pure ([], { s with sending := s.sending + 1 })
  | .pushSend data => pure ([], { s with
      sending := s.sending - 1
      pendingFunctors := s.pendingFunctors ++ [.sendInLoop data] })
  | .checkShutdown => pure ([], { s with checked := s.checked + 1 })
  | .storeShutdown => pure ([], { s with
      checked := s.checked - 1
      stored := s.stored + 1
      conn := s.conn.setState .kDisconnecting })
  | .pushShutdown => pure ([], { s with
      stored := s.stored - 1
      pendingFunctors := s.pendingFunctors ++ [.shutdownInLoop] })
  | .destruct => do
    s.conn.destruct
    pure ([], { s with alive := false })

def machine : Machine State Action (List Effect) Fault where
  may := may
  step := step

instance (s : State) : (l : Action) → Decidable (allowed s l)
  | .connectEstablished | .checkSend | .checkShutdown => inferInstanceAs (Decidable (_ = _))
  | .handleEvent _ | .callback _ | .doPendingFunctors => inferInstanceAs (Decidable (_ ∧ _))
  | .functor _ => inferInstanceAs (Decidable (_ ∧ ∃ _, _ ∧ _))
  | .removeConnection | .pushSend _ | .storeShutdown | .pushShutdown =>
    inferInstanceAs (Decidable (_ < _))
  | .send _ _ => inferInstanceAs (Decidable (Fits _ _))
  | .shutdown => inferInstanceAs (Decidable True)
  | .destruct => inferInstanceAs (Decidable (State.Released _))

instance (s : State) (l : Action) : Decidable (may s l) := inferInstanceAs (Decidable (_ ∧ _ ∧ _))

instance (s : State) (l : Action) : Decidable (machine.may s l) :=
  inferInstanceAs (Decidable (may s l))

/-! ### What a call does to the state -/

/-- A call that leaves `state_` and the owner alone. -/
structure Keeps (c : TcpConnection) (r : List Effect × TcpConnection) : Prop where
  valid : r.2.outputBuffer.Valid
  state : r.2.state = c.state
  quiet : .closeCallback ∉ r.1

variable {c : TcpConnection} {data : List UInt8} {write : Transfer}

theorem Fits.le {len : Nat} (hw : Fits len write) : ∀ n, write = .ok n → n ≤ len := by
  rintro n rfl
  exact hw

theorem sendInLoop_keeps (h : c.outputBuffer.Valid) (hw : Fits data.length write) :
    ∃ r, c.sendInLoop data data.length write = .ok r ∧ Keeps c r := by
  obtain ⟨r, hr, hspec⟩ := sendInLoop_spec h (Nat.le_refl _) hw.le
  obtain ⟨hvalid, hstate, -⟩ := hspec.conn h
  exact ⟨r, hr, hvalid, hstate, hspec.effects _⟩

theorem handleWrite_keeps (h : c.outputBuffer.Valid)
    (hw : Fits c.outputBuffer.readableBytes write) :
    ∃ r, c.handleWrite write = .ok r ∧ Keeps c r := by
  obtain ⟨r, hr, hspec⟩ := handleWrite_spec h hw.le
  refine ⟨r, hr, ?_⟩
  cases hspec with
  | idle | failed | nothing => exact ⟨h, rfl, by simp⟩
  | some n b hwriting hvalid => exact ⟨hvalid, rfl, by simp⟩
  | all n b hvalid =>
    refine ⟨hvalid, rfl, ?_⟩
    by_cases hset : c.writeCompleteCallback = true <;>
      by_cases hs : c.state = .kDisconnecting <;> simp [hset, hs]

theorem shutdownInLoop_keeps (h : c.outputBuffer.Valid) : Keeps c c.shutdownInLoop := by
  unfold shutdownInLoop
  split
  · exact ⟨h, rfl, by simp⟩
  · exact ⟨h, rfl, by simp⟩

/-- The states in which a connection can be closed or destroyed. -/
def Open (c : TcpConnection) : Prop := c.state = .kConnected ∨ c.state = .kDisconnecting

theorem handleClose_of_open (h : Open c) : c.handleClose =
    .ok (if c.closeCallback then [.closeCallback] else [],
      (c.setState .kDisconnected).setInterest .disableAll) := by
  have h : c.state = .kConnected ∨ c.state = .kDisconnecting := h
  rw [handleClose, assert_holds h]
  rfl

theorem handleClose_of_disconnected (h : c.state = .kDisconnected) :
    c.handleClose = .error .assertion := by
  simp [handleClose, h, assert_fails]

theorem connectDestroyed_of_disconnected (h : c.state = .kDisconnected) :
    c.connectDestroyed = .error .assertion := by
  simp [connectDestroyed, h, assert_fails]

/-- The source's order of states. -/
def Moves : ConnState → ConnState → Prop
  | .kConnecting, .kConnected => True
  | .kConnected, .kDisconnecting => True
  | .kConnected, .kDisconnected => True
  | .kDisconnecting, .kDisconnected => True
  | a, b => a = b

theorem Moves.refl (a : ConnState) : Moves a a := by cases a <;> simp [Moves]

/-! ### The invariant -/

/-- A closed connection is closed again, destroyed, or half-closed by a thread whose
test came before the close; what remains are the steps the assertions allow. -/
def Once (s : State) : Action → Prop
  | .callback transfer =>
    s.dispatch.head? = some .close ∨ s.dispatch.head? = some .read ∧ transfer = .ok 0 →
      s.conn.disconnected = false
  | .functor _ => s.batch.head? ≠ some .connectDestroyed
  | .storeShutdown => s.conn.disconnected = false
  | _ => True

/-- `connectDestroyed` is queued or going to be. -/
def State.Closing (s : State) : Prop :=
  0 < s.removing ∨ .connectDestroyed ∈ s.batch ++ s.pendingFunctors

structure Life (s : State) : Prop where
  valid : s.conn.outputBuffer.Valid
  fresh : s.started = false → s.conn.state = .kConnecting
  started : s.started = true → s.conn.state ≠ .kConnecting
  closing : s.Closing → s.conn.state = .kDisconnected
  destroyed : s.destroyed = false

theorem life_initial (sockfd : Nat) : Life (initial sockfd) :=
  ⟨Buffer.initial_valid _, fun _ => rfl, nofun, by simp [State.Closing, initial], rfl⟩

variable {s t : State}

theorem perform_quiet {r : List Effect × TcpConnection} (h : .closeCallback ∉ r.1) :
    (t.perform r).2 = { t with conn := r.2 } := by
  simp [State.perform, List.count_eq_zero.mpr h]

/-- Around a call that keeps `state_`, the queues may only shrink. -/
theorem Life.keeps (h : Life s) {r : List Effect × TcpConnection} (hk : Keeps s.conn r)
    (hstarted : t.started = s.started) (hdestroyed : t.destroyed = s.destroyed)
    (hclosing : t.Closing → s.Closing) : Life (t.perform r).2 := by
  rw [perform_quiet hk.quiet]
  refine ⟨hk.valid, ?_, ?_, fun hc => ?_, hdestroyed.trans h.destroyed⟩
  · rw [hstarted, hk.state]
    exact h.fresh
  · rw [hstarted, hk.state]
    exact h.started
  · rw [hk.state]
    exact h.closing (hclosing hc)

theorem Life.keeps_step (h : Life s) {r : List Effect × TcpConnection} (hk : Keeps s.conn r)
    (hstarted : t.started = s.started) (hdestroyed : t.destroyed = s.destroyed)
    (hclosing : t.Closing → s.Closing) :
    Life (t.perform r).2 ∧ Moves s.conn.state (t.perform r).2.conn.state :=
  ⟨h.keeps hk hstarted hdestroyed hclosing, by
    rw [show (t.perform r).2.conn.state = s.conn.state from hk.state]
    exact .refl _⟩

theorem Life.open_of (h : Life s) (hs : s.started = true) (hd : s.conn.disconnected = false) :
    Open s.conn := by
  have hne := h.started hs
  have hd : s.conn.state ≠ .kDisconnected := by simpa [disconnected] using hd
  unfold Open
  cases hstate : s.conn.state <;> simp_all

/-- A close from an open state. -/
theorem Life.closes (h : Life s) (hs : t.started = true) (hd : s.conn.disconnected = false)
    (hconn : t.started = s.started) (hdestroyed : t.destroyed = s.destroyed) :
    ∃ r, s.conn.handleClose = .ok r ∧ Life (t.perform r).2 ∧
      Moves s.conn.state (t.perform r).2.conn.state := by
  have hopen := h.open_of (hconn ▸ hs) hd
  refine ⟨_, handleClose_of_open hopen, ⟨h.valid, fun hf => ?_, fun _ => nofun, fun _ => rfl,
    hdestroyed.trans h.destroyed⟩, ?_⟩
  · rw [show t.started = false from hf] at hs
    cases hs
  · show Moves s.conn.state .kDisconnected
    rcases hopen with hstate | hstate <;> rw [hstate] <;> trivial

theorem keeps_self (h : Life s) (effects : List Effect) (hq : .closeCallback ∉ effects) :
    Keeps s.conn (effects, s.conn) := ⟨h.valid, rfl, hq⟩

/-- One callback of `handleEvent`. -/
theorem life_callback (h : Life s) {transfer : Transfer}
    (hm : may s (.callback transfer)) (ho : Once s (.callback transfer)) :
    ∃ o s', step s (.callback transfer) = .ok (o, s') ∧ Life s' ∧
      Moves s.conn.state s'.conn.state := by
  obtain ⟨-, hstarted, hdispatch, hfit⟩ := hm
  have hs : s.started = true := hstarted nofun
  obtain ⟨callback, rest, hrest⟩ := List.exists_cons_of_ne_nil hdispatch
  have hhead : s.dispatch.head? = some callback := by rw [hrest]; rfl
  simp only [Once, hhead, Option.some.injEq] at ho
  simp only [step, hhead, deref_some, ok_bind]
  cases callback with
  | close =>
    obtain ⟨r, hr, hlife, hmoves⟩ := h.closes (t := { s with dispatch := s.dispatch.tail }) hs
      (ho (.inl rfl)) rfl rfl
    exact ⟨_, _, by simp only [runCallback, hr]; rfl, hlife, hmoves⟩
  | error =>
    obtain ⟨hlife, hmoves⟩ := h.keeps_step (t := { s with dispatch := s.dispatch.tail })
      (keeps_self h [] (by simp)) rfl rfl id
    exact ⟨_, _, rfl, hlife, hmoves⟩
  | read =>
    cases transfer with
    | error errno =>
      obtain ⟨hlife, hmoves⟩ := h.keeps_step (t := { s with dispatch := s.dispatch.tail })
        (keeps_self h [] (by simp)) rfl rfl id
      exact ⟨_, _, rfl, hlife, hmoves⟩
    | ok n =>
      by_cases hpos : 0 < n
      · obtain ⟨hlife, hmoves⟩ := h.keeps_step (t := { s with dispatch := s.dispatch.tail })
          (keeps_self h [.messageCallback] (by simp)) rfl rfl id
        exact ⟨_, _, by simp only [runCallback, handleRead, if_pos hpos]; rfl, hlife, hmoves⟩
      · obtain rfl : n = 0 := by omega
        obtain ⟨r, hr, hlife, hmoves⟩ := h.closes (t := { s with dispatch := s.dispatch.tail }) hs
          (ho (.inr ⟨rfl, rfl⟩)) rfl rfl
        exact ⟨_, _, by simp only [runCallback, handleRead, if_neg hpos, hr]; rfl, hlife, hmoves⟩
  | write =>
    obtain ⟨r, hr, hk⟩ := handleWrite_keeps h.valid (hfit hhead)
    obtain ⟨hlife, hmoves⟩ := h.keeps_step (t := { s with dispatch := s.dispatch.tail }) hk rfl rfl id
    exact ⟨_, _, by simp only [runCallback, hr]; rfl, hlife, hmoves⟩

/-- One functor of the batch. -/
theorem life_functor (h : Life s) {write : Transfer}
    (hm : may s (.functor write)) (ho : Once s (.functor write)) :
    ∃ o s', step s (.functor write) = .ok (o, s') ∧ Life s' ∧
      Moves s.conn.state s'.conn.state := by
  obtain ⟨-, -, -, f, hhead, hfit⟩ := hm
  have hhead : s.batch.head? = some f := hhead
  obtain ⟨rest, hrest⟩ := List.head?_eq_some_iff.mp hhead
  simp only [Once, hhead] at ho
  simp only [step, hhead, deref_some, ok_bind]
  have hclosing : ∀ b, ({ s with batch := s.batch.tail, destroyed := b } : State).Closing →
      s.Closing := by
    rintro b (hr | hmem)
    · exact .inl hr
    · refine .inr ?_
      rw [hrest] at hmem ⊢
      exact List.mem_cons_of_mem _ hmem
  cases f with
  | connectDestroyed => exact absurd rfl ho
  | sendInLoop data =>
    obtain ⟨r, hr, hk⟩ := sendInLoop_keeps h.valid hfit
    obtain ⟨hlife, hmoves⟩ := h.keeps_step hk (t := { s with
      batch := s.batch.tail, destroyed := s.destroyed || Functor.sendInLoop data == .connectDestroyed })
      rfl (by simp) (hclosing _)
    exact ⟨_, _, by simp only [runFunctor, hr]; rfl, hlife, hmoves⟩
  | shutdownInLoop =>
    obtain ⟨hlife, hmoves⟩ := h.keeps_step (shutdownInLoop_keeps h.valid) (t := { s with
      batch := s.batch.tail, destroyed := s.destroyed || Functor.shutdownInLoop == .connectDestroyed })
      rfl (by simp) (hclosing _)
    exact ⟨_, _, rfl, hlife, hmoves⟩

/-- A step around the connection. -/
theorem Life.around (h : Life s) (hconn : t.conn = s.conn) (hstarted : t.started = s.started)
    (hdestroyed : t.destroyed = s.destroyed) (hclosing : t.Closing → s.Closing) :
    Life t ∧ Moves s.conn.state t.conn.state := by
  rw [hconn]
  refine ⟨⟨?_, ?_, ?_, fun hc => ?_, hdestroyed.trans h.destroyed⟩, .refl _⟩
  · rw [hconn]
    exact h.valid
  · rw [hconn, hstarted]
    exact h.fresh
  · rw [hconn, hstarted]
    exact h.started
  · rw [hconn]
    exact h.closing (hclosing hc)

/-- A functor other than `connectDestroyed` is queued. -/
theorem closing_push {f : Functor} (hf : f ≠ .connectDestroyed)
    (hq : t.pendingFunctors = s.pendingFunctors ++ [f]) (hb : t.batch = s.batch)
    (hr : t.removing = s.removing) : t.Closing → s.Closing := by
  rintro (hpos | hmem)
  · exact .inl (hr ▸ hpos)
  · rw [hq, hb, ← List.append_assoc, List.mem_append, List.mem_singleton] at hmem
    exact .inr (hmem.resolve_right (Ne.symm hf))

/-- `shutdown` on the loop thread. -/
theorem life_shutdown (h : Life s) :
    Life (s.perform s.conn.shutdown).2 ∧
      Moves s.conn.state (s.perform s.conn.shutdown).2.conn.state := by
  by_cases hc : s.conn.state = .kConnected
  · have hk := shutdownInLoop_keeps (c := s.conn.setState .kDisconnecting) h.valid
    rw [shutdown, if_pos hc, perform_quiet hk.quiet, hc]
    have hstate : (s.conn.setState .kDisconnecting).shutdownInLoop.2.state = .kDisconnecting := hk.state
    refine ⟨⟨hk.valid, fun hf => ?_, fun _ => ?_, fun hcl => ?_, h.destroyed⟩, ?_⟩
    · have := h.fresh hf
      rw [hc] at this
      cases this
    · rw [hstate]
      exact nofun
    · have := h.closing hcl
      rw [hc] at this
      cases this
    · rw [hstate]
      trivial
  · rw [shutdown, if_neg hc]
    exact h.keeps_step (keeps_self h _ (by simp)) rfl rfl id

variable {l : Action}

/-- What one admitted step does, as long as nothing is closed twice or destroyed. -/
theorem life_step (h : Life s) (hm : may s l) (ho : Once s l) :
    ∃ o s', step s l = .ok (o, s') ∧ Life s' ∧ Moves s.conn.state s'.conn.state := by
  have hs : l ≠ .connectEstablished → s.started = true := hm.2.1
  cases l with
  | connectEstablished =>
    have hfresh := h.fresh hm.2.2
    simp only [step, connectEstablished, assert_holds hfresh]
    refine ⟨_, _, rfl, ⟨h.valid, by simp, fun _ => by simp [setState],
      fun hc => ?_, h.destroyed⟩,
      by rw [hfresh]; trivial⟩
    have : s.conn.state = .kDisconnected := h.closing (by simpa [State.perform, State.Closing] using hc)
    rw [hfresh] at this
    cases this
  | handleEvent revents =>
    exact ⟨_, _, rfl, ⟨h.valid, h.fresh, h.started, h.closing, h.destroyed⟩, .refl _⟩
  | callback transfer => exact life_callback h hm ho
  | functor write => exact life_functor h hm ho
  | doPendingFunctors =>
    refine ⟨_, _, rfl, h.around rfl rfl rfl ?_⟩
    rintro (hr | hmem)
    · exact .inl hr
    · exact .inr (by simpa [hm.2.2.2] using hmem)
  | removeConnection =>
    have hdisc := h.closing (.inl hm.2.2)
    exact ⟨_, _, rfl, ⟨h.valid, h.fresh, h.started, fun _ => hdisc, h.destroyed⟩, .refl _⟩
  | send data write =>
    by_cases hc : s.conn.connected = true
    · obtain ⟨r, hr, hk⟩ := sendInLoop_keeps h.valid hm.2.2
      exact ⟨_, _, by simp only [step, if_pos hc, hr]; rfl, h.keeps_step hk rfl rfl id⟩
    · exact ⟨_, _, by simp only [step, if_neg hc]; rfl, h.around rfl rfl rfl id⟩
  | shutdown => exact ⟨_, _, rfl, life_shutdown h⟩
  | checkSend | checkShutdown => exact ⟨_, _, rfl, h.around rfl rfl rfl id⟩
  | pushSend data =>
    exact ⟨_, _, rfl, h.around rfl rfl rfl (closing_push (f := .sendInLoop data) (by simp)
      rfl rfl rfl)⟩
  | pushShutdown =>
    exact ⟨_, _, rfl, h.around rfl rfl rfl (closing_push (f := .shutdownInLoop) (by simp)
      rfl rfl rfl)⟩
  | storeShutdown =>
    have hstarted : s.started = true := hs (by simp)
    have hopen := h.open_of hstarted ho
    refine ⟨_, _, rfl, ⟨h.valid, fun hf => ?_, fun _ => by simp [setState], fun hc => ?_,
      h.destroyed⟩, ?_⟩
    · rw [show s.started = false from hf] at hstarted
      cases hstarted
    · have hdisc : s.conn.state = .kDisconnected := h.closing hc
      simp [Once, disconnected, hdisc] at ho
    · show Moves s.conn.state .kDisconnecting
      rcases hopen with hstate | hstate <;> rw [hstate] <;> trivial
  | destruct =>
    have hdestroyed : s.destroyed = true := hm.2.2.1
    rw [h.destroyed] at hdestroyed
    cases hdestroyed

theorem life_inductive : (machine.only Once).Inductive Life := by
  intro s l h hm
  obtain ⟨o, s', hs, hlife, -⟩ := life_step h hm.1 hm.2
  exact ⟨o, s', hs, hlife⟩

/-- The other direction: what `Once` leaves out does go wrong. -/
theorem once_of_step (h : Life s) (hm : may s l) {o : List Effect} {s' : State}
    (hs : step s l = .ok (o, s')) (hmoves : Moves s.conn.state s'.conn.state) : Once s l := by
  cases l with
  | callback transfer =>
    intro hclose
    by_contra hd
    have hdisc : s.conn.state = .kDisconnected := by simpa [disconnected] using hd
    rcases hclose with hhead | ⟨hhead, rfl⟩ <;>
      simp [step, hhead, runCallback, handleRead, handleClose_of_disconnected hdisc] at hs
  | functor write =>
    intro hhead
    obtain ⟨rest, hrest⟩ := List.head?_eq_some_iff.mp hhead
    have hdisc := h.closing (.inr (by rw [hrest]; exact List.mem_cons_self))
    simp [step, hhead, runFunctor, connectDestroyed_of_disconnected hdisc] at hs
  | storeShutdown =>
    cases hs
    cases hstate : s.conn.state <;> simp_all [Moves, setState, Once, disconnected]
  | _ => trivial

/-! ### Every run -/

/-- **The assertions hold exactly up to the second close.** In any run in which a closed
connection is neither closed again, nor destroyed, nor half-closed by a late thread, the
next step passes its assertions, moves `state_` forward and leaves a destroyed
connection unregistered if and only if it keeps to that too. -/
theorem lifecycle_assertions {sockfd : Nat} {tr : List (Action × List Effect)}
    (h : (machine.only Once).Run (initial sockfd) tr s) (hm : may s l) :
    Once s l ↔ ∃ o s', step s l = .ok (o, s') ∧ Moves s.conn.state s'.conn.state ∧
      (s'.destroyed = true → s'.conn.registered = false) := by
  have hlife := life_inductive.run h (life_initial sockfd)
  constructor
  · intro ho
    obtain ⟨o, s', hs, hlife', hmoves⟩ := life_step hlife hm ho
    exact ⟨o, s', hs, hmoves, fun hd => by rw [hlife'.destroyed] at hd; cases hd⟩
  · exact fun ⟨o, s', hs, hmoves, _⟩ => once_of_step hlife hm hs hmoves

instance (s : State) : (l : Action) → Decidable (Once s l)
  | .callback _ => inferInstanceAs (Decidable (_ → _))
  | .functor _ => inferInstanceAs (Decidable (_ ≠ _))
  | .storeShutdown => inferInstanceAs (Decidable (_ = _))
  | .connectEstablished | .handleEvent _ | .doPendingFunctors | .removeConnection | .send .. | .shutdown
  | .checkSend | .pushSend _ | .checkShutdown | .pushShutdown | .destruct =>
    inferInstanceAs (Decidable True)

/-- A send, a half-close from another thread and the peer's end of file. -/
theorem lifecycle_assertions_closed : ∃ tr s,
    (machine.only Once).Run (initial 5) tr s ∧ s.conn.state = .kDisconnected ∧
    (Once s .doPendingFunctors ↔ ∃ o s', step s .doPendingFunctors = .ok (o, s') ∧
      Moves s.conn.state s'.conn.state ∧ (s'.destroyed = true → s'.conn.registered = false)) := by
  obtain ⟨tr, s, h, -, hstate, hm⟩ := (machine.only Once).exists_run_of_replay (s := initial 5)
    (P := fun _ s => s.conn.state = .kDisconnected ∧ may s .doPendingFunctors)
    [.connectEstablished, .send [1, 2] (.ok 1), .checkShutdown, .storeShutdown, .pushShutdown,
      .handleEvent (POLLIN ||| POLLOUT), .callback (.ok 0), .callback (.ok 0), .removeConnection]
    (by decide +kernel)
  exact ⟨tr, s, h, hstate, lifecycle_assertions h hm⟩

/-- The peer closes: the connection is destroyed one turn later, and asserts that it is
not closed yet. -/
theorem connectDestroyed_asserts : ∃ tr s, machine.Run (initial 5) tr s ∧
    tr.map Prod.fst = [.connectEstablished, .handleEvent POLLIN, .callback (.ok 0),
      .removeConnection, .doPendingFunctors] ∧
    may s (.functor (.ok 0)) ∧ s.batch = [.connectDestroyed] ∧
    step s (.functor (.ok 0)) = .error .assertion := by
  obtain ⟨tr, s, h, hlabels, hm, hbatch, hstate⟩ := machine.exists_run_of_replay (s := initial 5)
    (P := fun _ s => may s (.functor (.ok 0)) ∧ s.batch = [.connectDestroyed] ∧
      s.conn.state = .kDisconnected)
    [.connectEstablished, .handleEvent POLLIN, .callback (.ok 0), .removeConnection,
      .doPendingFunctors] (by decide +kernel)
  refine ⟨tr, s, h, hlabels, hm, hbatch, ?_⟩
  simp [step, hbatch, runFunctor, connectDestroyed_of_disconnected hstate]

end Leanet.LifeCycle

import Leanet.Foundation.Memory
import Leanet.Tcp.LifeCycle

/-! A connection among threads, in either build.

The loop's thread runs what poll(2) and the queue of functors ask for, and may itself
call `send` and `shutdown`; other threads do so in separate steps, and any thread may
overwrite or free memory at any time. What `send` queues is the pointer and the length
it was given: the bytes are those the functor finds there when it runs. `connectDestroyed`
may be queued at any time, the connection is referred to throughout, and in a release
build the assertions of the source are not looked at. -/
namespace Leanet

namespace TcpConnection

/-! ### With the assertions of a build -/

def connectEstablishedIn (build : Build) (c : TcpConnection) :
    Except Fault (List Effect × TcpConnection) := do
  build.assert (c.state = .kConnecting)
  let c := c.setState .kConnected
  let c := c.setInterest .enableReading
  pure ([.connectionCallback], c)

def connectDestroyedIn (build : Build) (c : TcpConnection) :
    Except Fault (List Effect × TcpConnection) := do
  build.assert (c.state = .kConnected ∨ c.state = .kDisconnecting)
  let c := c.setState .kDisconnected
  let c := c.setInterest .disableAll
  pure ([.connectionCallback], { c with registered := false })

def handleCloseIn (build : Build) (c : TcpConnection) :
    Except Fault (List Effect × TcpConnection) := do
  build.assert (c.state = .kConnected ∨ c.state = .kDisconnecting)
  let c := c.setState .kDisconnected
  let c := c.setInterest .disableAll
  pure (if c.closeCallback then [.closeCallback] else [], c)

def handleReadIn (build : Build) (c : TcpConnection) (read : Transfer) :
    Except Fault (List Effect × TcpConnection) :=
  match read with
  | .ok n => if 0 < n then pure ([.messageCallback], c) else c.handleCloseIn build
  | .error _ => pure c.handleError

/-- A debug build is the one that looks. -/
theorem debug_eq (c : TcpConnection) (read : Transfer) :
    c.connectEstablishedIn .debug = c.connectEstablished ∧
    c.connectDestroyedIn .debug = c.connectDestroyed ∧
    c.handleCloseIn .debug = c.handleClose ∧ c.handleReadIn .debug read = c.handleRead read :=
  ⟨rfl, rfl, rfl, rfl⟩

end TcpConnection

namespace Shared
open TcpConnection
open LifeCycle (Fits Keeps)

/-- What `send` is called with. -/
inductive Argument where
  /-- `send(const void* message, size_t len)`. -/
  | pointer (message len : Nat)
  /-- `send(const std::string& message)`: where its characters are, and how many. -/
  | string (data size : Nat)
  deriving DecidableEq

/-- The string overload calls the other one with `data()` and `size()`. -/
def Argument.message : Argument → Nat
  | .pointer message _ => message
  | .string data _ => data

def Argument.len : Argument → Nat
  | .pointer _ len => len
  | .string _ size => size

/-- What `send` binds, and (`held`, not in the source) what was there at the call. -/
structure Message where
  data : Nat
  len : Nat
  held : List UInt8
  deriving DecidableEq, Repr

/-- A functor of the connection in its loop's queue. -/
inductive Functor where
  | sendInLoop (message : Message)
  | shutdownInLoop
  | connectDestroyed
  deriving DecidableEq, Repr

structure State where
  conn : TcpConnection
  /-- `connectEstablished` has been called. -/
  started : Bool
  /-- `handleClose` or `connectDestroyed` has set `state_` to `kDisconnected`. -/
  closed : Bool
  /-- `connectDestroyed` has returned. -/
  destroyed : Bool
  /-- The callbacks that `handleEvent` has still to make. -/
  dispatch : List Callback
  batch : List Functor
  pendingFunctors : List Functor
  /-- Calls of `send` on other threads, past the test. -/
  sending : List Message
  /-- Other threads inside `shutdown`, past its test. -/
  checked : Nat
  /-- Other threads inside `shutdown`, past its store. -/
  stored : Nat
  memory : Memory

/-- Constructed. -/
def initial (sockfd : Nat) (memory : Memory) : State where
  conn := .new sockfd
  started := false
  closed := false
  destroyed := false
  dispatch := []
  batch := []
  pendingFunctors := []
  sending := []
  checked := 0
  stored := 0
  memory := memory

inductive Action where
  | setCloseCallback (set : Bool)
  | setWriteCompleteCallback (set : Bool)
  | setHighWaterMarkCallback (set : Bool) (highWaterMark : Nat)
  | connectEstablished
  /-- poll(2) reports `revents` for the channel. -/
  | handleEvent (revents : BitVec 32)
  /-- The next callback, and what its system call returns. -/
  | callback (transfer : Transfer)
  | doPendingFunctors
  /-- The next functor of the batch, and what its write(2) returns. -/
  | functor (write : Transfer)
  /-- `connectDestroyed` is queued. -/
  | removeConnection
  /-- `send` on the loop thread. -/
  | send (argument : Argument) (write : Transfer)
  /-- `shutdown` on the loop thread. -/
  | shutdown
  /-- `send` on another thread, to its test. -/
  | checkSend (argument : Argument) (held : List UInt8)
  | pushSend (message : Message)
  | checkShutdown
  | storeShutdown
  | pushShutdown
  /-- A byte is overwritten, or freed. -/
  | store (a : Nat) (v : Option UInt8)

/-- What the write(2) of a functor is asked to take. -/
def Functor.len : Functor → Nat
  | .sendInLoop message => message.len
  | .shutdownInLoop | .connectDestroyed => 0

/-- What may come next. Whoever calls `send` can read what it passes. -/
def allowed (s : State) : Action → Prop
  | .setCloseCallback _ | .setWriteCompleteCallback _ | .setHighWaterMarkCallback _ _
  | .store _ _ | .removeConnection | .shutdown => True
  | .connectEstablished => s.started = false
  | .handleEvent _ => s.conn.registered = true ∧ s.conn.channel.isNoneEvent = false ∧
    s.dispatch = [] ∧ s.batch = []
  | .callback transfer => s.dispatch ≠ [] ∧
    (s.dispatch.head? = some .write → Fits s.conn.outputBuffer.readableBytes transfer)
  | .doPendingFunctors => s.dispatch = [] ∧ s.batch = []
  | .functor write => s.dispatch = [] ∧ ∃ f ∈ s.batch.head?, Fits f.len write
  | .send argument write => Fits argument.len write
  | .checkSend argument held =>
    s.conn.connected = true ∧ s.memory.load argument.message argument.len = .ok held
  | .pushSend message => message ∈ s.sending
  | .checkShutdown => s.conn.connected = true
  | .storeShutdown => 0 < s.checked
  | .pushShutdown => 0 < s.stored

def Action.isSetup : Action → Bool
  | .setCloseCallback _ | .setWriteCompleteCallback _ | .setHighWaterMarkCallback _ _
  | .connectEstablished | .store _ _ => true
  | _ => false

def may (s : State) (l : Action) : Prop :=
  (l.isSetup = false → s.started = true) ∧ allowed s l

/-- The connection after a call. -/
def State.perform (s : State) (r : List Effect × TcpConnection) : List Effect × State :=
  (r.1, { s with conn := r.2, closed := s.closed || r.2.disconnected })

/-- One callback of `handleEvent`. -/
def runCallback (build : Build) (c : TcpConnection) (transfer : Transfer) :
    Callback → Except Fault (List Effect × TcpConnection)
  | .close => c.handleCloseIn build
  | .error => pure c.handleError
  | .read => c.handleReadIn build transfer
  | .write => c.handleWrite transfer

def runFunctor (build : Build) (memory : Memory) (c : TcpConnection) (write : Transfer) :
    Functor → Except Fault (List Effect × TcpConnection)
  | .sendInLoop message => do
    let data ← memory.load message.data message.len
    c.sendInLoop data message.len write
  | .shutdownInLoop => pure c.shutdownInLoop
  | .connectDestroyed => c.connectDestroyedIn build

def step (build : Build) (s : State) : Action → Except Fault (List Effect × State)
  | .setCloseCallback set => pure ([], { s with conn := { s.conn with closeCallback := set } })
  | .setWriteCompleteCallback set =>
    pure ([], { s with conn := { s.conn with writeCompleteCallback := set } })
  | .setHighWaterMarkCallback set mark => pure ([], { s with
      conn := { s.conn with highWaterMarkCallback := set, highWaterMark := mark } })
  | .connectEstablished => do
    let r ← s.conn.connectEstablishedIn build
    pure ({ s with started := true }.perform r)
  | .handleEvent revents =>
    let channel := s.conn.channel.setReceivedEvents revents
    pure ([], { s with conn := { s.conn with channel }, dispatch := channel.handleEvent })
  | .callback transfer => do
    let callback ← deref s.dispatch.head?
    let r ← runCallback build s.conn transfer callback
    pure ({ s with dispatch := s.dispatch.tail }.perform r)
  | .doPendingFunctors =>
    pure ([], { s with batch := s.pendingFunctors, pendingFunctors := [] })
  | .functor write => do
    let f ← deref s.batch.head?
    let r ← runFunctor build s.memory s.conn write f
    pure ({ s with
      batch := s.batch.tail
      destroyed := s.destroyed || f == Functor.connectDestroyed }.perform r)
  | .removeConnection =>
    pure ([], { s with pendingFunctors := s.pendingFunctors ++ [.connectDestroyed] })
  | .send argument write =>
    if s.conn.connected then do
      let data ← s.memory.load argument.message argument.len
      let r ← s.conn.sendInLoop data argument.len write
      pure (s.perform r)
    else pure ([], s)
  | .shutdown => pure (s.perform s.conn.shutdown)
  | .checkSend argument held =>
    pure ([], { s with sending := ⟨argument.message, argument.len, held⟩ :: s.sending })
  | .pushSend message => pure ([], { s with
      sending := s.sending.erase message
      pendingFunctors := s.pendingFunctors ++ [.sendInLoop message] })
  | .checkShutdown => pure ([], { s with checked := s.checked + 1 })
  | .storeShutdown => pure ([], { s with
      checked := s.checked - 1
      stored := s.stored + 1
      conn := s.conn.setState .kDisconnecting })
  | .pushShutdown => pure ([], { s with
      stored := s.stored - 1
      pendingFunctors := s.pendingFunctors ++ [.shutdownInLoop] })
  | .store a v => pure ([], { s with memory := s.memory.set a v })

def machine (build : Build) : Machine State Action (List Effect) Fault where
  may := may
  step := step build

instance (s : State) : (l : Action) → Decidable (allowed s l)
  | .setCloseCallback _ | .setWriteCompleteCallback _ | .setHighWaterMarkCallback _ _
  | .store _ _ | .removeConnection | .shutdown => inferInstanceAs (Decidable True)
  | .connectEstablished | .checkShutdown => inferInstanceAs (Decidable (_ = _))
  | .handleEvent _ | .callback _ | .doPendingFunctors | .checkSend _ _ =>
    inferInstanceAs (Decidable (_ ∧ _))
  | .functor _ => inferInstanceAs (Decidable (_ ∧ ∃ _, _ ∧ _))
  | .send _ _ => inferInstanceAs (Decidable (Fits _ _))
  | .pushSend _ => inferInstanceAs (Decidable (_ ∈ _))
  | .storeShutdown | .pushShutdown => inferInstanceAs (Decidable (_ < _))

instance (s : State) (l : Action) : Decidable (may s l) := inferInstanceAs (Decidable (_ ∧ _))

instance (build : Build) (s : State) (l : Action) : Decidable ((machine build).may s l) :=
  inferInstanceAs (Decidable (may s l))

/-! ### What a call does to the connection -/

/-- A call that closes the connection. -/
structure Closes (c : TcpConnection) (r : List Effect × TcpConnection) : Prop where
  buffer : r.2.outputBuffer = c.outputBuffer
  state : r.2.state = .kDisconnected
  interest : r.2.channel.interestedEvents = 0
  quiet : ∀ e ∈ r.1, e = .closeCallback ∨ e = .connectionCallback

variable {build : Build} {c : TcpConnection} {r : List Effect × TcpConnection}
  {write transfer : Transfer} {memory : Memory} {s s' : State} {l : Action} {e : List Effect}

theorem handleCloseIn_closes (h : c.handleCloseIn build = .ok r) : Closes c r := by
  obtain ⟨_, -, h⟩ := bind_eq_ok.mp h
  cases h
  refine ⟨rfl, rfl, rfl, fun e he => .inl ?_⟩
  dsimp only at he
  split at he
  · exact List.mem_singleton.mp he
  · cases he

theorem connectDestroyedIn_closes (h : c.connectDestroyedIn build = .ok r) :
    Closes c r ∧ r.2.registered = false := by
  obtain ⟨_, -, h⟩ := bind_eq_ok.mp h
  cases h
  exact ⟨⟨rfl, rfl, rfl, fun e he => .inr (List.mem_singleton.mp he)⟩, rfl⟩

theorem handleReadIn_cases (hv : c.outputBuffer.Valid) (h : c.handleReadIn build transfer = .ok r) :
    Keeps c r ∨ Closes c r := by
  cases transfer with
  | error errno =>
    cases h
    exact .inl ⟨hv, rfl, by simp [handleError]⟩
  | ok n =>
    simp only [handleReadIn] at h
    split at h
    · cases h
      exact .inl ⟨hv, rfl, by simp⟩
    · exact .inr (handleCloseIn_closes h)

theorem runCallback_cases (hv : c.outputBuffer.Valid) {callback : Callback}
    (hw : callback = .write → Fits c.outputBuffer.readableBytes transfer)
    (h : runCallback build c transfer callback = .ok r) : Keeps c r ∨ Closes c r := by
  cases callback with
  | close => exact .inr (handleCloseIn_closes h)
  | error =>
    cases h
    exact .inl ⟨hv, rfl, by simp [handleError]⟩
  | read => exact handleReadIn_cases hv h
  | write =>
    obtain ⟨r', hr', hk⟩ := LifeCycle.handleWrite_keeps hv (hw rfl)
    obtain rfl : r' = r := Except.ok.inj (hr'.symm.trans h)
    exact .inl hk

theorem sendInLoop_keeps (hv : c.outputBuffer.Valid) {data : List UInt8} {len : Nat}
    (hlen : data.length = len) (hw : Fits len write)
    (h : c.sendInLoop data len write = .ok r) : Keeps c r := by
  subst hlen
  obtain ⟨r', hr', hk⟩ := LifeCycle.sendInLoop_keeps hv hw
  obtain rfl : r' = r := Except.ok.inj (hr'.symm.trans h)
  exact hk

theorem runFunctor_cases (hv : c.outputBuffer.Valid) {f : Functor} (hw : Fits f.len write)
    (h : runFunctor build memory c write f = .ok r) :
    f ≠ .connectDestroyed ∧ Keeps c r ∨ Closes c r ∧ r.2.registered = false := by
  cases f with
  | sendInLoop message =>
    obtain ⟨data, hdata, h⟩ := bind_eq_ok.mp h
    exact .inl ⟨nofun, sendInLoop_keeps hv (Memory.load_length hdata) hw h⟩
  | shutdownInLoop =>
    cases h
    exact .inl ⟨nofun, LifeCycle.shutdownInLoop_keeps hv⟩
  | connectDestroyed => exact .inr (connectDestroyedIn_closes h)

/-- One step of `handleEvent`: what it calls fits what is there to write. -/
theorem callback_runs (hm : may s (.callback transfer))
    (hs : step build s (.callback transfer) = .ok (e, s')) :
    ∃ callback r, (callback = .write → Fits s.conn.outputBuffer.readableBytes transfer) ∧
      runCallback build s.conn transfer callback = .ok r ∧
      (e, s') = { s with dispatch := s.dispatch.tail }.perform r := by
  obtain ⟨callback, hhead, hs⟩ := bind_eq_ok.mp hs
  obtain ⟨r, hr, hs⟩ := bind_eq_ok.mp hs
  refine ⟨callback, r, fun hw => hm.2.2 ?_, hr, (Except.ok.inj hs).symm⟩
  rw [deref_eq_ok.mp hhead, hw]

/-- One functor of the batch, and the write(2) that it may make. -/
theorem functor_runs (hm : may s (.functor write))
    (hs : step build s (.functor write) = .ok (e, s')) :
    ∃ f r, s.batch.head? = some f ∧ Fits f.len write ∧
      runFunctor build s.memory s.conn write f = .ok r ∧
      (e, s') = { s with
        batch := s.batch.tail
        destroyed := s.destroyed || f == Functor.connectDestroyed }.perform r := by
  obtain ⟨f, hhead, hs⟩ := bind_eq_ok.mp hs
  obtain ⟨r, hr, hs⟩ := bind_eq_ok.mp hs
  obtain ⟨-, f', hf', hw⟩ := hm.2
  have hhead := deref_eq_ok.mp hhead
  obtain rfl := Option.some.inj (hhead.symm.trans hf')
  exact ⟨f, r, hhead, hw, hr, (Except.ok.inj hs).symm⟩

/-- A send of the loop's thread reads the message there and then, unless the connection is down. -/
theorem send_runs {argument : Argument} {write : Transfer}
    (hs : step build s (.send argument write) = .ok (e, s')) :
    (s.conn.connected = true ∧ ∃ data r,
        s.memory.load argument.message argument.len = .ok data ∧
        s.conn.sendInLoop data argument.len write = .ok r ∧ (e, s') = s.perform r) ∨
      s.conn.connected = false ∧ (e, s') = ([], s) := by
  simp only [step] at hs
  split at hs
  · next hup =>
    obtain ⟨data, hdata, hs⟩ := bind_eq_ok.mp hs
    obtain ⟨r, hr, hs⟩ := bind_eq_ok.mp hs
    exact .inl ⟨hup, data, r, hdata, hr, (Except.ok.inj hs).symm⟩
  · next hdown => exact .inr ⟨by simpa using hdown, (Except.ok.inj hs).symm⟩

/-! ### What holds in every run -/

/-- The output queue is in order, and a closed connection does not come up again. -/
structure Sound (s : State) : Prop where
  valid : s.conn.outputBuffer.Valid
  fresh : s.started = false → s.conn.state = .kConnecting
  closed : s.closed = true → s.started = true ∧ s.conn.connected = false
  latched : s.conn.disconnected = true → s.closed = true
  destroyed : s.destroyed = true → s.closed = true

theorem sound_initial (sockfd : Nat) (memory : Memory) : Sound (initial sockfd memory) :=
  ⟨Buffer.initial_valid _, fun _ => rfl, nofun, nofun, nofun⟩

theorem connected_congr {c c' : TcpConnection} (h : c'.state = c.state) :
    c'.connected = c.connected := by
  rw [connected, connected, h]

theorem disconnected_congr {c c' : TcpConnection} (h : c'.state = c.state) :
    c'.disconnected = c.disconnected := by
  rw [disconnected, disconnected, h]

theorem Sound.latch (h : Sound s) (hstate : c.state = s.conn.state) :
    (s.closed || c.disconnected) = s.closed := by
  rw [disconnected_congr hstate]
  cases hd : s.conn.disconnected with
  | false => exact Bool.or_false _
  | true => rw [h.latched hd, Bool.or_true]

/-- Around a connection whose `state_` is as it was. -/
theorem Sound.keeps (h : Sound s) (hv : s'.conn.outputBuffer.Valid)
    (hstate : s'.conn.state = s.conn.state) (hstarted : s'.started = s.started)
    (hclosed : s'.closed = s.closed) (hdestroyed : s'.destroyed = s.destroyed) : Sound s' := by
  refine ⟨hv, fun hs => hstate.trans (h.fresh (hstarted ▸ hs)), fun hc => ?_, fun hd => ?_,
    fun hd => hclosed.trans (h.destroyed (hdestroyed ▸ hd))⟩
  · rw [hstarted, connected_congr hstate]
    exact h.closed (hclosed ▸ hc)
  · exact hclosed.trans (h.latched (disconnected_congr hstate ▸ hd))

/-- Around a connection that is closed now. -/
theorem sound_closes (hv : s'.conn.outputBuffer.Valid) (hstate : s'.conn.state = .kDisconnected)
    (hstarted : s'.started = true) (hclosed : s'.closed = true) : Sound s' := by
  refine ⟨hv, fun hs => ?_, fun _ => ⟨hstarted, by rw [connected, hstate]; rfl⟩,
    fun _ => hclosed, fun _ => hclosed⟩
  rw [hstarted] at hs
  cases hs

/-- Around a connection that is half-closed now. -/
theorem Sound.halfCloses (h : Sound s) (hstarted : s.started = true)
    (hv : s'.conn.outputBuffer.Valid) (hstate : s'.conn.state = .kDisconnecting)
    (hstarted' : s'.started = s.started) (hclosed : s'.closed = s.closed)
    (hdestroyed : s'.destroyed = s.destroyed) : Sound s' := by
  refine ⟨hv, fun hs => ?_, fun _ => ⟨hstarted'.trans hstarted, by rw [connected, hstate]; rfl⟩,
    fun hd => ?_, fun hd => hclosed.trans (h.destroyed (hdestroyed ▸ hd))⟩
  · rw [hstarted'.trans hstarted] at hs
    cases hs
  · rw [disconnected, hstate] at hd
    cases hd

theorem Sound.performs (h : Sound s) (hk : Keeps s.conn r) {t : State}
    (hstarted : t.started = s.started) (hclosed : t.closed = s.closed)
    (hdestroyed : t.destroyed = s.destroyed) : Sound (t.perform r).2 :=
  h.keeps hk.valid hk.state hstarted
    ((congrArg (· || r.2.disconnected) hclosed).trans (h.latch hk.state)) hdestroyed

theorem sound_performs (hv : s.conn.outputBuffer.Valid) (hc : Closes s.conn r) {t : State}
    (hstarted : t.started = true) : Sound (t.perform r).2 := by
  have hclosed : (t.perform r).2.closed = true := by
    show (t.closed || r.2.disconnected) = true
    rw [disconnected, hc.state, Bool.or_eq_true]
    exact .inr rfl
  exact sound_closes (hc.buffer ▸ hv) hc.state hstarted hclosed

theorem sound_shutdown (h : Sound s) (hstarted : s.started = true) :
    Sound (s.perform s.conn.shutdown).2 := by
  unfold TcpConnection.shutdown
  split
  · next hup =>
    have hk := LifeCycle.shutdownInLoop_keeps (c := s.conn.setState .kDisconnecting) h.valid
    have hclosed : s.closed = false := by
      rw [← Bool.not_eq_true]
      intro hc
      have := (h.closed hc).2
      rw [connected, hup] at this
      cases this
    refine h.halfCloses hstarted hk.valid hk.state rfl ?_ rfl
    show (s.closed || _) = s.closed
    rw [disconnected, hk.state, hclosed]
    rfl
  · exact h.performs ⟨h.valid, rfl, by simp⟩ rfl rfl rfl

/-- Every answered step keeps `Sound`. -/
theorem sound_step (h : Sound s) (hm : may s l) (hs : step build s l = .ok (e, s')) :
    Sound s' := by
  cases l with
  | setCloseCallback | setWriteCompleteCallback | setHighWaterMarkCallback | handleEvent
  | doPendingFunctors | removeConnection | checkSend | pushSend | checkShutdown | pushShutdown
  | store =>
    cases hs
    exact h.keeps h.valid rfl rfl rfl rfl
  | connectEstablished =>
    obtain ⟨r, hr, hs⟩ := bind_eq_ok.mp hs
    obtain ⟨_, -, hr⟩ := bind_eq_ok.mp hr
    cases hr
    cases hs
    have hfresh := h.fresh hm.2
    have hclosed : s.closed = false := by
      rw [← Bool.not_eq_true]
      intro hc
      have := (h.closed hc).1
      rw [show s.started = false from hm.2] at this
      cases this
    have hlatch : (s.closed || false) = true → False := by simp [hclosed]
    exact ⟨h.valid, nofun, fun hc => (hlatch hc).elim, nofun,
      fun hd => absurd (h.destroyed hd) (by simp [hclosed])⟩
  | callback transfer =>
    obtain ⟨callback, r, hw, hr, heq⟩ := callback_runs hm hs
    cases heq
    rcases runCallback_cases h.valid hw hr with hk | hc
    · exact h.performs hk rfl rfl rfl
    · exact sound_performs h.valid hc (hm.1 rfl)
  | functor write =>
    obtain ⟨f, r, -, hw, hr, heq⟩ := functor_runs hm hs
    cases heq
    rcases runFunctor_cases h.valid hw hr with ⟨hne, hk⟩ | ⟨hc, -⟩
    · refine h.performs hk rfl rfl ?_
      simp [hne]
    · exact sound_performs h.valid hc (hm.1 rfl)
  | send argument write =>
    obtain ⟨-, data, r, hdata, hr, heq⟩ | ⟨-, heq⟩ := send_runs hs
    · cases heq
      exact h.performs (sendInLoop_keeps h.valid (Memory.load_length hdata) hm.2 hr) rfl rfl rfl
    · cases heq
      exact h
  | shutdown =>
    cases hs
    exact sound_shutdown h (hm.1 rfl)
  | storeShutdown =>
    cases hs
    exact h.halfCloses (hm.1 rfl) h.valid rfl rfl rfl rfl

theorem sound_run {sockfd : Nat} {memory : Memory} {tr : List (Action × List Effect)}
    (h : (machine build).Run (initial sockfd memory) tr s) : Sound s :=
  h.preserves (fun _ _ _ _ hi hm hs => sound_step hi hm hs) (sound_initial sockfd memory)

end Shared
end Leanet

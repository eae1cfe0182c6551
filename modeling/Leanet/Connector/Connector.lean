import Leanet.Foundation.Fault
import Leanet.Foundation.Machine
import Leanet.Poll.Channel
import Leanet.Socket.Errno

/-! The connector.

`start` and `stop` write `connected_` at once, from any thread, and do the rest by way of
the loop; `restart` does it all on the loop's thread. A function of the loop's thread is
cut where another thread can get in between, that is before each test of `connected_`:
`startInLoop` goes on to `connect`, and `retry` to `scheduleRetry`. `inside` says which
part is next. The descriptor of a new socket, the result of connect(2) and the socket's
error are arguments.

`registered` says that the poller's tables hold `channel_`. The queues hold the functors
of this connector only, which is what is left of FIFO order when the others are dropped. -/
namespace Leanet.Connector

/-- `enum State`. -/
inductive ConnectorState where
  | kDisconnected
  | kConnecting
  | kConnected
  deriving DecidableEq, Repr

inductive Functor where
  | startInLoop
  | stopInLoop
  | resetChannel
  deriving DecidableEq, Repr

/-- Where the loop's thread is in an attempt. -/
inductive Inside where
  /-- About to enter `startInLoop`. -/
  | startInLoop
  /-- About to call connect(2) on this socket. -/
  | connect (sockfd : Nat)
  /-- In `retry`, about to test `connected_`. -/
  | retry
  deriving DecidableEq, Repr

inductive Effect where
  | socket (sockfd : Nat)
  | close (sockfd : Nat)
  /-- `newConnectionCallback_(sockfd)`: the socket is the callback's now. -/
  | newConnection (sockfd : Nat)
  | runAfter (delayMs : Nat)
  deriving DecidableEq, Repr

structure State where
  connected : Bool
  state : ConnectorState
  channel : Option Channel
  registered : Bool
  retryDelayMs : Nat
  /-- The open sockets that nobody else has. -/
  sockets : List Nat
  inside : Option Inside
  /-- The callbacks that `handleEvent` has still to make. -/
  dispatch : List Callback
  batch : List Functor
  pendingFunctors : List Functor
  /-- Timers set by `retry` that have not fired. -/
  retryTimers : Nat
  /-- Other threads inside `start`, past the store. -/
  starting : Nat
  /-- Other threads inside `stop`, past the store. -/
  stopping : Nat
  deriving DecidableEq

def kMaxRetryDelayMs : Nat := 30 * 1000
def kInitRetryDelayMs : Nat := 500

/-- `Connector(loop, servAddr)`, with its callback set. -/
def initial : State where
  connected := false
  state := .kDisconnected
  channel := none
  registered := false
  retryDelayMs := kInitRetryDelayMs
  sockets := []
  inside := none
  dispatch := []
  batch := []
  pendingFunctors := []
  retryTimers := 0
  starting := 0
  stopping := 0

def queueInLoop (s : State) (f : Functor) : State :=
  { s with pendingFunctors := s.pendingFunctors ++ [f] }

/-! ### Attempts -/

/-- `startInLoop`, and `connect` up to connect(2). -/
def startInLoop (s : State) (sockfd : Nat) : Except Fault (List Effect × State) := do
  assert (s.state = .kDisconnected)
  if s.connected then
    pure ([.socket sockfd], { s with
      sockets := sockfd :: s.sockets, inside := some (.connect sockfd) })
  else pure ([], { s with inside := none })

def connecting (s : State) (sockfd : Nat) : Except Fault State := do
  let s := { s with state := .kConnecting }
  assert (s.channel = none)
  let channel := (Channel.new sockfd).setInterest .enableWriting
  pure { s with channel := some channel, registered := true }

/-- `sockets::close(sockfd)`. -/
def close (s : State) (sockfd : Nat) : List Effect × State :=
  ([.close sockfd], { s with sockets := s.sockets.erase sockfd })

/-- `retry`, up to its test of `connected_`. -/
def retry (s : State) (sockfd : Nat) : List Effect × State :=
  let (effects, s) := close s sockfd
  (effects, { s with state := .kDisconnected, inside := some .retry })

/-- `retry`, from its test of `connected_` on. -/
def scheduleRetry (s : State) : List Effect × State :=
  if s.connected then
    ([.runAfter s.retryDelayMs], { s with
      inside := none
      retryTimers := s.retryTimers + 1
      retryDelayMs := min (s.retryDelayMs * 2) kMaxRetryDelayMs })
  else ([], { s with inside := none })

/-- `connect`, once connect(2) has returned. -/
def connect (s : State) (sockfd : Nat) (savedErrno : Option Errno) :
    Except Fault (List Effect × State) :=
  let s := { s with inside := none }
  match savedErrno with
  | none | some .EINPROGRESS | some .EINTR | some .EISCONN => do
    let s ← connecting s sockfd
    pure ([], s)
  | some .EAGAIN | some .EADDRINUSE | some .EADDRNOTAVAIL | some .ECONNREFUSED
  | some .ENETUNREACH | some .EHOSTUNREACH | some .ETIMEDOUT => pure (retry s sockfd)
  | some .EACCES | some .EPERM | some .EAFNOSUPPORT | some .EALREADY | some .EBADF
  | some .EFAULT | some .ENOTSOCK => pure (close s sockfd)
  | some _ => pure (close s sockfd)

/-! ### The channel -/

def removeAndResetChannel (s : State) : Except Fault (Nat × State) := do
  let channel ← deref s.channel
  let channel := channel.setInterest .disableAll
  assert (channel.isNoneEvent = true)
  let s := { s with channel := some channel, registered := false }
  pure (channel.fd, queueInLoop s .resetChannel)

def resetChannel (s : State) : State := { s with channel := none }

def handleWrite (s : State) (soError : Option Errno) (selfConnected : Bool) :
    Except Fault (List Effect × State) :=
  if s.state = .kConnecting then do
    let (sockfd, s) ← removeAndResetChannel s
    if soError.isSome then pure (retry s sockfd)
    else if selfConnected then pure (retry s sockfd)
    else
      let s := { s with state := .kConnected }
      if s.connected then
        pure ([.newConnection sockfd], { s with sockets := s.sockets.erase sockfd })
      else pure (close s sockfd)
  else do
    -- client codes call stop() when we waiting for connect done
    assert (s.state = .kDisconnected)
    pure ([], s)

def handleError (s : State) : Except Fault (List Effect × State) :=
  if s.state = .kConnecting then do
    let (sockfd, s) ← removeAndResetChannel s
    pure (retry s sockfd)
  else pure ([], s)

def stopInLoop (s : State) : Except Fault (List Effect × State) :=
  if s.state = .kConnecting then do
    let s := { s with state := .kDisconnected }
    let (sockfd, s) ← removeAndResetChannel s
    pure (retry s sockfd)
  else pure ([], s)

/-! ### The public functions, on the loop's thread -/

/-- `runInLoop` calls `startInLoop` at once. -/
def start (s : State) : State := { s with connected := true, inside := some .startInLoop }

def restart (s : State) : State :=
  { s with
    state := .kDisconnected
    retryDelayMs := kInitRetryDelayMs
    connected := true
    inside := some .startInLoop }

def stop (s : State) : State := queueInLoop { s with connected := false } .stopInLoop

/-! ### The machine -/

inductive Action where
  | start
  | restart
  | stop
  /-- Another thread calls `start`, up to the store. -/
  | beginStart
  | endStart
  | beginStop
  | endStop
  /-- `sockfd`: what socket(2) would return. -/
  | startInLoop (sockfd : Nat)
  /-- connect(2) returns zero or -1 with `errno`. -/
  | connect (savedErrno : Option Errno)
  | scheduleRetry
  /-- poll(2) reports `revents` for the channel. -/
  | handleEvent (revents : BitVec 32)
  /-- The next callback. -/
  | callback (soError : Option Errno) (selfConnected : Bool)
  /-- A retry timer fires. -/
  | timer
  | doPendingFunctors
  /-- The next functor of the batch. -/
  | functor
  deriving DecidableEq

/-- The loop's thread is not inside the connector. -/
def State.outside (s : State) : Prop := s.inside = none ∧ s.dispatch = []

def may (s : State) : Action → Prop
  | .start | .restart | .stop => s.outside
  | .beginStart | .beginStop => True
  | .endStart => 0 < s.starting
  | .endStop => 0 < s.stopping
  | .startInLoop sockfd => s.inside = some .startInLoop ∧ sockfd ∉ s.sockets
  | .connect _ => ∃ i ∈ s.inside, ∃ sockfd, i = .connect sockfd
  | .scheduleRetry => s.inside = some .retry
  | .handleEvent _ => s.outside ∧ s.batch = [] ∧ s.registered = true ∧ s.channel.isSome = true
  | .callback _ _ => s.inside = none ∧ s.dispatch ≠ []
  | .timer => s.outside ∧ s.batch = [] ∧ 0 < s.retryTimers
  | .doPendingFunctors => s.outside ∧ s.batch = []
  | .functor => s.outside ∧ s.batch ≠ []

/-- One callback of `handleEvent`; those for closing and reading are not set. -/
def runCallback (s : State) (soError : Option Errno) (selfConnected : Bool) :
    Callback → Except Fault (List Effect × State)
  | .write => handleWrite s soError selfConnected
  | .error => handleError s
  | .close | .read => pure ([], s)

def runFunctor (s : State) : Functor → Except Fault (List Effect × State)
  | .startInLoop => pure ([], { s with inside := some .startInLoop })
  | .stopInLoop => stopInLoop s
  | .resetChannel => pure ([], resetChannel s)

def step (s : State) : Action → Except Fault (List Effect × State)
  | .start => pure ([], start s)
  | .restart => pure ([], restart s)
  | .stop => pure ([], stop s)
  | .beginStart => pure ([], { s with connected := true, starting := s.starting + 1 })
  | .endStart => pure ([], queueInLoop { s with starting := s.starting - 1 } .startInLoop)
  | .beginStop => pure ([], { s with connected := false, stopping := s.stopping + 1 })
  | .endStop => pure ([], queueInLoop { s with stopping := s.stopping - 1 } .stopInLoop)
  | .startInLoop sockfd => startInLoop s sockfd
  | .connect savedErrno =>
    match s.inside with
    | some (.connect sockfd) => connect s sockfd savedErrno
    | _ => .error .dangling
  | .scheduleRetry => pure (scheduleRetry s)
  | .handleEvent revents => do
    let channel ← deref s.channel
    let channel := channel.setReceivedEvents revents
    pure ([], { s with channel := some channel, dispatch := channel.handleEvent })
  | .callback soError selfConnected => do
    let callback ← deref s.dispatch.head?
    runCallback { s with dispatch := s.dispatch.tail } soError selfConnected callback
  | .timer => pure ([], { s with
      retryTimers := s.retryTimers - 1
      inside := some .startInLoop })
  | .doPendingFunctors =>
    pure ([], { s with batch := s.pendingFunctors, pendingFunctors := [] })
  | .functor => do
    let f ← deref s.batch.head?
    runFunctor { s with batch := s.batch.tail } f

def machine : Machine State Action (List Effect) Fault where
  may := may
  step := step

instance (s : State) : Decidable s.outside := inferInstanceAs (Decidable (_ ∧ _))

instance (i : Inside) : Decidable (∃ sockfd, i = .connect sockfd) :=
  match i with
  | .connect sockfd => isTrue ⟨sockfd, rfl⟩
  | .startInLoop | .retry => isFalse nofun

instance (s : State) : (l : Action) → Decidable (may s l)
  | .start | .restart | .stop => inferInstanceAs (Decidable s.outside)
  | .beginStart | .beginStop => inferInstanceAs (Decidable True)
  | .endStart | .endStop => inferInstanceAs (Decidable (_ < _))
  | .scheduleRetry => inferInstanceAs (Decidable (_ = _))
  | .connect _ => inferInstanceAs (Decidable (∃ i ∈ s.inside, ∃ sockfd, i = .connect sockfd))
  | .startInLoop _ | .handleEvent _ | .callback _ _ | .timer | .doPendingFunctors | .functor =>
    inferInstanceAs (Decidable (_ ∧ _))

instance (s : State) (l : Action) : Decidable (machine.may s l) :=
  inferInstanceAs (Decidable (may s l))

end Leanet.Connector

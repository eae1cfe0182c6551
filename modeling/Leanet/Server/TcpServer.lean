import Leanet.Tcp.Shared

/-! A server, its pool of I/O loops and the connections it hands to them.

Every loop is run by one thread and goes by that thread's name. `assertInLoopThread` ends the
process in either build, so what a function does on the wrong thread is to abort; a change of
the channel's interest comes after such an assertion of the same loop, and needs none of its
own. The close callback of a connection is `removeConnection`, which goes by way of the
server's loop and queues `connectDestroyed` on the connection's.

On a thread other than its loop's, `send` and `shutdown` test `state_` some time before they
push their functor: the test is not asked for again at the push. -/
namespace Leanet

/-- How the process ends. -/
inductive Abort where
  | fault (f : Fault)
  /-- A null pointer is followed. -/
  | null
  | notInLoopThread
  deriving DecidableEq, Repr

namespace TcpServer
open LifeCycle (Fits)

instance : MonadLift (Except Fault) (Except Abort) := ⟨fun x => x.mapError .fault⟩

section
variable {T : Type} [DecidableEq T]

/-- `loop->assertInLoopThread()` on thread `t`. -/
def assertInLoopThread (loop t : T) : Except Abort Unit :=
  if t = loop then pure () else .error .notInLoopThread

/-! ### The pool -/

structure EventLoopThreadPool (T : Type) where
  baseLoop : T
  started : Bool
  numThreads : Int
  next : Nat
  loops : List T
  deriving DecidableEq

namespace EventLoopThreadPool

/-- `EventLoopThreadPool(baseLoop, name)`. -/
def new (baseLoop : T) : EventLoopThreadPool T := ⟨baseLoop, false, 0, 0, []⟩

def setThreadNum (pool : EventLoopThreadPool T) (numThreads : Int) : EventLoopThreadPool T :=
  { pool with numThreads }

/-- `startLoop i` is the loop of the `i`-th thread. -/
def start (build : Build) (pool : EventLoopThreadPool T) (t : T) (startLoop : Nat → T) :
    Except Abort (EventLoopThreadPool T) := do
  build.assert (pool.started = false)
  assertInLoopThread pool.baseLoop t
  pure { pool with
    started := true
    loops := pool.loops ++ (List.range pool.numThreads.toNat).map startLoop }

/-- Round-robin. -/
def getNextLoop (build : Build) (pool : EventLoopThreadPool T) (t : T) :
    Except Abort (T × EventLoopThreadPool T) := do
  assertInLoopThread pool.baseLoop t
  build.assert (pool.started = true)
  if !pool.loops.isEmpty then
    let loop ← deref pool.loops[pool.next]?
    let next := pool.next + 1
    pure (loop, { pool with next := if pool.loops.length ≤ next then 0 else next })
  else pure (pool.baseLoop, pool)

end EventLoopThreadPool

/-! ### The server and its connections -/

/-- A functor in the queue of a loop. -/
inductive Functor where
  /-- `Acceptor::listen`. -/
  | listen
  | removeConnectionInLoop (conn : Nat)
  | sendInLoop (conn : Nat) (data : List UInt8)
  | shutdownInLoop (conn : Nat)
  | connectDestroyed (conn : Nat)
  deriving DecidableEq, Repr

/-- A connection and its `loop_`. -/
structure Conn (T : Type) where
  loop : T
  conn : TcpConnection

structure State (T : Type) where
  loop : T
  threadPool : Option (EventLoopThreadPool T)
  nextConnId : Nat
  /-- The names in `connections_`. -/
  connections : List Nat
  listenning : Bool
  /-- Every connection made, by the number in its name. -/
  object : Nat → Option (Conn T)
  /-- The callbacks that `handleEvent` has still to make on a loop. -/
  dispatch : T → List (Nat × Callback)
  batch : T → List Functor
  pendingFunctors : T → List Functor

/-- `TcpServer(loop, …)`. The constructor says nothing of `threadPool_`. -/
def new (loop : T) : State T where
  loop := loop
  threadPool := none
  nextConnId := 0
  connections := []
  listenning := false
  object := fun _ => none
  dispatch := fun _ => []
  batch := fun _ => []
  pendingFunctors := fun _ => []

def State.queueInLoop (s : State T) (loop : T) (f : Functor) : State T :=
  { s with pendingFunctors := Function.update s.pendingFunctors loop (s.pendingFunctors loop ++ [f]) }

def State.setConn (s : State T) (c : Nat) (o : Conn T) (conn : TcpConnection) : State T :=
  { s with object := Function.update s.object c (some ⟨o.loop, conn⟩) }

def listen (s : State T) (t : T) : Except Abort (State T) := do
  assertInLoopThread s.loop t
  pure { s with listenning := true }

def start (build : Build) (s : State T) (t : T) : Except Abort (State T) := do
  build.assert (s.listenning = false)
  if t = s.loop then listen s t else pure (s.queueInLoop s.loop .listen)

def removeConnectionInLoop (build : Build) (s : State T) (t : T) (c : Nat) :
    Except Abort (State T) := do
  assertInLoopThread s.loop t
  build.assert (c ∈ s.connections)
  let o ← deref (s.object c)
  pure ({ s with connections := s.connections.erase c }.queueInLoop o.loop (.connectDestroyed c))

def removeConnection (build : Build) (s : State T) (t : T) (c : Nat) : Except Abort (State T) :=
  if t = s.loop then removeConnectionInLoop build s t c
  else pure (s.queueInLoop s.loop (.removeConnectionInLoop c))

/-- The connection after a call on thread `t`, and its close callback if it was called. -/
def perform (build : Build) (s : State T) (t : T) (c : Nat) (o : Conn T)
    (r : List Effect × TcpConnection) : Except Abort (State T) :=
  let s := s.setConn c o r.2
  if .closeCallback ∈ r.1 then removeConnection build s t c else pure s

def newConnection (build : Build) (s : State T) (t : T) (sockfd : Nat) : Except Abort (State T) := do
  assertInLoopThread s.loop t
  let c := s.nextConnId
  let s := { s with nextConnId := s.nextConnId + 1 }
  match s.threadPool with
  | none => .error .null
  | some pool =>
    let (ioLoop, pool) ← pool.getNextLoop build t
    let o : Conn T := ⟨ioLoop, { TcpConnection.new sockfd with closeCallback := true }⟩
    let s := { s with
      threadPool := some pool
      object := Function.update s.object c (some o)
      connections := c :: s.connections }
    assertInLoopThread o.loop t
    let r ← o.conn.connectEstablishedIn build
    perform build s t c o r

/-- One callback of `handleEvent`; `handleRead` looks at the thread only to close. -/
def runCallback (build : Build) (o : Conn T) (t : T) (transfer : Transfer) :
    Callback → Except Abort (List Effect × TcpConnection)
  | .close => do
    assertInLoopThread o.loop t
    o.conn.handleCloseIn build
  | .error => pure o.conn.handleError
  | .read =>
    match transfer with
    | .ok n =>
      if 0 < n then pure ([.messageCallback], o.conn)
      else do
        assertInLoopThread o.loop t
        o.conn.handleCloseIn build
    | .error _ => pure o.conn.handleError
  | .write => do
    assertInLoopThread o.loop t
    o.conn.handleWrite transfer

/-- A function of a connection that begins with `assertInLoopThread`. -/
def call (build : Build) (s : State T) (t : T) (c : Nat)
    (f : TcpConnection → Except Fault (List Effect × TcpConnection)) : Except Abort (State T) := do
  let o ← deref (s.object c)
  assertInLoopThread o.loop t
  let r ← f o.conn
  perform build s t c o r

def runFunctor (build : Build) (s : State T) (t : T) (write : Transfer) :
    Functor → Except Abort (State T)
  | .listen => listen s t
  | .removeConnectionInLoop c => removeConnectionInLoop build s t c
  | .sendInLoop c data => call build s t c fun conn => conn.sendInLoop data data.length write
  | .shutdownInLoop c => call build s t c fun conn => pure conn.shutdownInLoop
  | .connectDestroyed c => call build s t c fun conn => conn.connectDestroyedIn build

/-! ### What may come -/

inductive Action (T : Type) where
  | start (t : T)
  /-- accept(2) has returned `sockfd`, on the server's loop. -/
  | accept (sockfd : Nat)
  /-- The poller of loop `t` reports `revents` for a channel it has. -/
  | handleEvent (t : T) (c : Nat) (revents : BitVec 32)
  /-- The next callback on loop `t`, and what its system call returns. -/
  | callback (t : T) (transfer : Transfer)
  | doPendingFunctors (t : T)
  /-- The next functor of the batch, and what its write(2) returns. -/
  | functor (t : T) (write : Transfer)
  | send (t : T) (c : Nat) (data : List UInt8) (write : Transfer)
  | shutdown (t : T) (c : Nat)
  /-- `shutdown` on another thread, its store. -/
  | storeShutdown (c : Nat)

/-- What the write(2) of a functor is asked to take. -/
def Functor.len : Functor → Nat
  | .sendInLoop _ data => data.length
  | .listen | .removeConnectionInLoop _ | .shutdownInLoop _ | .connectDestroyed _ => 0

/-- The channel of `c` is in the poller of `t`. -/
def State.Polls (s : State T) (t : T) (c : Nat) : Prop :=
  ∃ o ∈ s.object c, o.loop = t ∧ o.conn.registered = true ∧ o.conn.channel.isNoneEvent = false

/-- The result of the next callback on `t` fits what it is asked for. -/
def State.FitsNext (s : State T) (t : T) (transfer : Transfer) : Prop :=
  ∃ next ∈ (s.dispatch t).head?, next.2 = .write → ∃ o ∈ s.object next.1,
    Fits o.conn.outputBuffer.readableBytes transfer

def may (s : State T) : Action T → Prop
  | .start _ => True
  | .accept _ => s.listenning = true ∧ s.dispatch s.loop = [] ∧ s.batch s.loop = []
  | .handleEvent t c _ => s.Polls t c ∧ s.dispatch t = [] ∧ s.batch t = []
  | .callback t transfer => s.FitsNext t transfer
  | .doPendingFunctors t => s.dispatch t = [] ∧ s.batch t = []
  | .functor t write => s.dispatch t = [] ∧ ∃ f ∈ (s.batch t).head?, Fits f.len write
  | .send _ c data write => (s.object c).isSome = true ∧ Fits data.length write
  | .shutdown _ c | .storeShutdown c => (s.object c).isSome = true

def step (build : Build) (s : State T) : Action T → Except Abort (Unit × State T)
  | .start t => do pure ((), ← start build s t)
  | .accept sockfd => do pure ((), ← newConnection build s s.loop sockfd)
  | .handleEvent t c revents => do
    let o ← deref (s.object c)
    let channel := o.conn.channel.setReceivedEvents revents
    let s := s.setConn c o { o.conn with channel }
    pure ((), { s with
      dispatch := Function.update s.dispatch t (channel.handleEvent.map (c, ·)) })
  | .callback t transfer => do
    let (c, callback) ← deref (s.dispatch t).head?
    let o ← deref (s.object c)
    let r ← runCallback build o t transfer callback
    let s := { s with dispatch := Function.update s.dispatch t (s.dispatch t).tail }
    pure ((), ← perform build s t c o r)
  | .doPendingFunctors t => pure ((), { s with
      batch := Function.update s.batch t (s.pendingFunctors t)
      pendingFunctors := Function.update s.pendingFunctors t [] })
  | .functor t write => do
    let f ← deref (s.batch t).head?
    let s := { s with batch := Function.update s.batch t (s.batch t).tail }
    pure ((), ← runFunctor build s t write f)
  | .send t c data write => do
    let o ← deref (s.object c)
    if t = o.loop then
      if o.conn.connected then
        pure ((), ← call build s t c fun conn => conn.sendInLoop data data.length write)
      else pure ((), s)
    else pure ((), s.queueInLoop o.loop (.sendInLoop c data))
  | .shutdown t c => do
    let o ← deref (s.object c)
    if t = o.loop then pure ((), ← perform build s t c o o.conn.shutdown)
    else pure ((), s.queueInLoop o.loop (.shutdownInLoop c))
  | .storeShutdown c => do
    let o ← deref (s.object c)
    pure ((), s.setConn c o (o.conn.setState .kDisconnecting))

def machine (build : Build) (T : Type) [DecidableEq T] : Machine (State T) (Action T) Unit Abort where
  may := may
  step := step build

instance (s : State T) (t : T) (c : Nat) : Decidable (s.Polls t c) :=
  inferInstanceAs (Decidable (∃ _, _ ∧ _))

instance (s : State T) (t : T) (transfer : Transfer) : Decidable (s.FitsNext t transfer) :=
  inferInstanceAs (Decidable (∃ _, _ ∧ _))

instance (s : State T) : (l : Action T) → Decidable (may s l)
  | .start _ => inferInstanceAs (Decidable True)
  | .accept _ | .handleEvent .. | .doPendingFunctors _ | .send .. =>
    inferInstanceAs (Decidable (_ ∧ _))
  | .callback t transfer => inferInstanceAs (Decidable (s.FitsNext t transfer))
  | .functor _ _ => inferInstanceAs (Decidable (_ ∧ ∃ _, _ ∧ _))
  | .shutdown _ _ | .storeShutdown _ => inferInstanceAs (Decidable (_ = _))

instance (build : Build) (s : State T) (l : Action T) : Decidable ((machine build T).may s l) :=
  inferInstanceAs (Decidable (may s l))

end
end TcpServer
end Leanet

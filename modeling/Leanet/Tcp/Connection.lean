import Leanet.Buffer.Model
import Leanet.Poll.Channel
import Leanet.Socket.Errno

/-! One TCP connection, function by function.

Every function runs on the connection's loop thread except `send` and `shutdown`, and
lets out what it does to the world as a list of effects in order: the bytes write(2)
takes, the functors it queues, the callbacks it calls. A system call's result is an
argument, used where the source makes the call. A callback that is only stored is
represented by whether it is set. Of the poller it is known whether `channels_` holds the
channel and whether it ever did: the first update puts it there, a later one writes the slot of
`index_`, and `removeChannel` takes it out and leaves `index_` as it is. -/
namespace Leanet

/-- `enum State`. -/
inductive ConnState where
  | kConnecting
  | kConnected
  | kDisconnecting
  | kDisconnected
  deriving DecidableEq, Repr

inductive Effect where
  /-- write(2) took these bytes. -/
  | wrote (bytes : List UInt8)
  /-- write(2) took none of these bytes. -/
  | writeFailed (bytes : List UInt8) (errno : Errno)
  /-- `socket_->shutdownWrite()`. -/
  | shutdownWrite
  | queueWriteComplete
  /-- `callback`: the bound callback is not empty. -/
  | queueHighWaterMark (callback : Bool) (size : Nat)
  | connectionCallback
  | messageCallback
  | closeCallback
  deriving DecidableEq, Repr

/-- The bytes an effect hands to the peer. -/
def Effect.taken : Effect → List UInt8
  | .wrote bytes => bytes
  | _ => []

/-- What a send lets out: it writes, and queues functors of the application. -/
def Effect.OfSend : Effect → Prop
  | .wrote _ | .writeFailed _ _ | .queueWriteComplete | .queueHighWaterMark _ _ => True
  | .shutdownWrite | .connectionCallback | .messageCallback | .closeCallback => False

structure TcpConnection where
  state : ConnState
  channel : Channel
  /-- `channels_` of the poller holds the channel. -/
  registered : Bool
  /-- `index_` is not negative any more. -/
  added : Bool
  closeCallback : Bool
  writeCompleteCallback : Bool
  highWaterMark : Nat
  highWaterMarkCallback : Bool
  outputBuffer : Buffer
  deriving DecidableEq, Repr

namespace TcpConnection

/-- `TcpConnection(loop, sockfd, …)`. -/
def new (sockfd : Nat) : TcpConnection where
  state := .kConnecting
  channel := .new sockfd
  registered := false
  added := false
  closeCallback := false
  writeCompleteCallback := false
  highWaterMark := 64 * 1024 * 1024
  highWaterMarkCallback := false
  outputBuffer := .initial Buffer.kInitialSize

def connected (c : TcpConnection) : Bool := c.state == .kConnected
def disconnected (c : TcpConnection) : Bool := c.state == .kDisconnected

def setState (c : TcpConnection) (s : ConnState) : TcpConnection := { c with state := s }

/-- A change of interest, which updates the poller. A channel that was removed from it is not put
back: what is written then is the slot it had. -/
def setInterest (c : TcpConnection) (i : Channel.Interest) : TcpConnection :=
  { c with
    channel := c.channel.setInterest i
    registered := c.registered || !c.added
    added := true }

@[simp] theorem setInterest_outputBuffer (c : TcpConnection) (i : Channel.Interest) :
    (c.setInterest i).outputBuffer = c.outputBuffer := rfl

@[simp] theorem setInterest_state (c : TcpConnection) (i : Channel.Interest) :
    (c.setInterest i).state = c.state := rfl

@[simp] theorem setInterest_channel (c : TcpConnection) (i : Channel.Interest) :
    (c.setInterest i).channel = c.channel.setInterest i := rfl

/-- `~TcpConnection()`. -/
def destruct (c : TcpConnection) : Except Fault Unit := assert (c.state = .kDisconnected)

def connectEstablished (c : TcpConnection) : Except Fault (List Effect × TcpConnection) := do
  assert (c.state = .kConnecting)
  let c := c.setState .kConnected
  let c := c.setInterest .enableReading
  pure ([.connectionCallback], c)

def connectDestroyed (c : TcpConnection) : Except Fault (List Effect × TcpConnection) := do
  assert (c.state = .kConnected ∨ c.state = .kDisconnecting)
  let c := c.setState .kDisconnected
  let c := c.setInterest .disableAll
  pure ([.connectionCallback], { c with registered := false })

def handleClose (c : TcpConnection) : Except Fault (List Effect × TcpConnection) := do
  assert (c.state = .kConnected ∨ c.state = .kDisconnecting)
  let c := c.setState .kDisconnected
  let c := c.setInterest .disableAll
  pure (if c.closeCallback then [.closeCallback] else [], c)

/-- Clears the socket's pending error and logs it. -/
def handleError (c : TcpConnection) : List Effect × TcpConnection := ([], c)

/-- `readFd` has put `n` bytes into the input buffer, or failed. -/
def handleRead (c : TcpConnection) (read : Transfer) :
    Except Fault (List Effect × TcpConnection) :=
  match read with
  | .ok n => if 0 < n then pure ([.messageCallback], c) else c.handleClose
  | .error _ => pure c.handleError

def shutdownInLoop (c : TcpConnection) : List Effect × TcpConnection :=
  if !c.channel.isWriting then ([.shutdownWrite], c) else ([], c)

/-- `handleWrite`, no more data to be wrote. -/
def drained (c : TcpConnection) : List Effect × TcpConnection :=
  -- disable writing for disabling a busy loop
  let c := c.setInterest .disableWriting
  let queued := if c.writeCompleteCallback then [Effect.queueWriteComplete] else []
  if c.state = .kDisconnecting then
    let (shut, c) := c.shutdownInLoop
    (queued ++ shut, c)
  else (queued, c)

def handleWrite (c : TcpConnection) (write : Transfer) :
    Except Fault (List Effect × TcpConnection) :=
  if c.channel.isWriting then
    match write with
    | .ok n =>
      let wrote := Effect.wrote (c.outputBuffer.content.take n)
      if 0 < n then do
        let outputBuffer ← c.outputBuffer.retrieve n
        let c := { c with outputBuffer }
        if c.outputBuffer.readableBytes = 0 then
          let (effects, c) := c.drained
          pure (wrote :: effects, c)
        else pure ([wrote], c)
      else pure ([wrote], c)
    | .error failure => pure ([.writeFailed c.outputBuffer.content failure.errno], c)
  else pure ([], c)

/-- What the first half of `sendInLoop` leaves to the second. -/
structure Direct where
  effects : List Effect
  nwrote : Nat
  remaining : Nat
  faultError : Bool

/-- `sendInLoop`, its first half: iff no thing in output queue, try writing directly. -/
def writeDirect (c : TcpConnection) (data : List UInt8) (len : Nat) (write : Transfer) : Direct :=
  if !c.channel.isWriting ∧ c.outputBuffer.readableBytes = 0 then
    match write with
    | .ok nwrote =>
      let remaining := len - nwrote
      let queued := if remaining = 0 ∧ c.writeCompleteCallback then [Effect.queueWriteComplete] else []
      ⟨.wrote (data.take nwrote) :: queued, nwrote, remaining, false⟩
    | .error failure =>
      -- `errno` is looked at again after `LOG_SYSERR`
      let faultError := failure.errno = .EWOULDBLOCK ∧
        (failure.logged = .EPIPE ∨ failure.logged = .ECONNRESET)
      ⟨[.writeFailed (data.take len) failure.errno], 0, len, faultError⟩
  else ⟨[], 0, len, false⟩

/-- `sendInLoop`, its second half: append to the output queue what was not written. -/
def appendRemaining (c : TcpConnection) (data : List UInt8) (nwrote remaining : Nat) :
    Except Fault (List Effect × TcpConnection) := do
  let oldLen := c.outputBuffer.readableBytes
  let queued :=
    if c.highWaterMark ≤ oldLen + remaining ∧ oldLen < c.highWaterMark ∧ c.highWaterMark ≠ 0 then
      [Effect.queueHighWaterMark c.highWaterMarkCallback (oldLen + remaining)]
    else []
  let outputBuffer ← c.outputBuffer.append (data.drop nwrote) remaining
  let c := { c with outputBuffer }
  -- iff we have written partial data, we interested on writable event
  let c := if !c.channel.isWriting then c.setInterest .enableWriting else c
  pure (queued, c)

def sendInLoop (c : TcpConnection) (data : List UInt8) (len : Nat) (write : Transfer) :
    Except Fault (List Effect × TcpConnection) := do
  let direct := c.writeDirect data len write
  assert (direct.remaining ≤ len)
  if !direct.faultError ∧ 0 < direct.remaining then
    let (queued, c) ← c.appendRemaining data direct.nwrote direct.remaining
    pure (direct.effects ++ queued, c)
  else pure (direct.effects, c)

/-- `shutdown` on the loop thread, where `runInLoop` is a call. -/
def shutdown (c : TcpConnection) : List Effect × TcpConnection :=
  if c.state = .kConnected then (c.setState .kDisconnecting).shutdownInLoop else ([], c)

/-! ### The output queue -/

variable {c : TcpConnection} {data : List UInt8}

/-- The direct write of a send is refused as blocked, and the log leaves what reads as a fatal
error: the message is neither written nor buffered. -/
def Drops (c : TcpConnection) : Transfer → Prop
  | .ok _ => False
  | .error failure => (c.channel.isWriting = false ∧ c.outputBuffer.readableBytes = 0) ∧
    failure.errno = .EWOULDBLOCK ∧ (failure.logged = .EPIPE ∨ failure.logged = .ECONNRESET)

instance (c : TcpConnection) : (write : Transfer) → Decidable (c.Drops write)
  | .ok _ => inferInstanceAs (Decidable False)
  | .error _ => inferInstanceAs (Decidable ((_ ∧ _) ∧ _ ∧ (_ ∨ _)))

theorem faultError_iff (c : TcpConnection) (data : List UInt8) (len : Nat) (write : Transfer) :
    (c.writeDirect data len write).faultError = true ↔ c.Drops write := by
  simp only [writeDirect, Bool.not_eq_true']
  cases write with
  | ok n => split <;> simp [Drops]
  | error failure =>
    split
    · next hdirect => simp [Drops, hdirect]
    · next hdirect => simpa [Drops] using fun hw hb => absurd ⟨hw, hb⟩ hdirect

/-- What the output queue is given goes behind what it holds, and POLLOUT is asked for
unless it already is. -/
theorem appendRemaining_ok (h : c.outputBuffer.Valid) {nwrote remaining : Nat}
    (hdata : nwrote + remaining ≤ data.length) :
    ∃ queued b, b.Valid ∧ b.content = c.outputBuffer.content ++ (data.drop nwrote).take remaining ∧
      c.appendRemaining data nwrote remaining = .ok (queued,
        if !c.channel.isWriting then ({ c with outputBuffer := b } : TcpConnection).setInterest
          .enableWriting else { c with outputBuffer := b }) ∧
      ∀ x ∈ queued, ∃ set size, x = .queueHighWaterMark set size := by
  obtain ⟨b, hb, hvalid, hcontent⟩ := Buffer.append_spec h
    (show remaining ≤ (data.drop nwrote).length by rw [List.length_drop]; omega)
  simp only [appendRemaining, hb, ok_bind, pure_eq_ok]
  refine ⟨_, b, hvalid, hcontent, rfl, fun x hx => ?_⟩
  split at hx
  · exact ⟨_, _, List.mem_singleton.mp hx⟩
  · cases hx

/-- The end of `handleWrite`, written out. -/
theorem drained_eq (c : TcpConnection) :
    c.drained = ((if c.writeCompleteCallback then [Effect.queueWriteComplete] else []) ++
      (if c.state = .kDisconnecting then [Effect.shutdownWrite] else []),
      c.setInterest .disableWriting) := by
  by_cases hs : c.state = .kDisconnecting
  · simp [drained, hs, shutdownInLoop]
    rfl
  · rw [drained, if_neg (show (c.setInterest .disableWriting).state ≠ _ from hs), if_neg hs,
      List.append_nil]
    rfl

/-- What `handleWrite` comes to: write(2) is not called, fails, takes nothing, some of the output
queue or all of it. -/
inductive HandlesWrite (c : TcpConnection) : Transfer → List Effect × TcpConnection → Prop where
  | idle (write : Transfer) (hidle : c.channel.isWriting = false) : HandlesWrite c write ([], c)
  | failed (failure : Failure) (hwriting : c.channel.isWriting = true) :
    HandlesWrite c (.error failure) ([.writeFailed c.outputBuffer.content failure.errno], c)
  | nothing (hwriting : c.channel.isWriting = true) : HandlesWrite c (.ok 0) ([.wrote []], c)
  | some (n : Nat) (b : Buffer) (hwriting : c.channel.isWriting = true) (hvalid : b.Valid)
      (hsplit : c.outputBuffer.content.take n ++ b.content = c.outputBuffer.content)
      (hleft : b.content ≠ []) :
    HandlesWrite c (.ok n) ([.wrote (c.outputBuffer.content.take n)], { c with outputBuffer := b })
  | all (n : Nat) (b : Buffer) (hvalid : b.Valid) (hnil : b.content = []) :
    HandlesWrite c (.ok n) (.wrote c.outputBuffer.content ::
        ((if c.writeCompleteCallback then [Effect.queueWriteComplete] else []) ++
          if c.state = .kDisconnecting then [Effect.shutdownWrite] else []),
      ({ c with outputBuffer := b } : TcpConnection).setInterest .disableWriting)

theorem handleWrite_spec (h : c.outputBuffer.Valid) {write : Transfer}
    (hle : ∀ n, write = .ok n → n ≤ c.outputBuffer.readableBytes) :
    ∃ r, c.handleWrite write = .ok r ∧ HandlesWrite c write r := by
  unfold handleWrite
  cases hwriting : c.channel.isWriting with
  | false => exact ⟨_, rfl, .idle write hwriting⟩
  | true =>
    cases write with
    | error failure => exact ⟨_, rfl, .failed failure hwriting⟩
    | ok n =>
      by_cases hpos : 0 < n
      · obtain ⟨b, hb, hvalid, hcontent⟩ := Buffer.retrieve_spec h (hle n rfl)
        have hsplit : c.outputBuffer.content.take n ++ b.content = c.outputBuffer.content := by
          rw [hcontent, List.take_append_drop]
        simp only [if_true, if_pos hpos, hb, ok_bind]
        by_cases hdrained : b.readableBytes = 0
        · have hnil : b.content = [] := (Buffer.content_eq_nil hvalid).mpr hdrained
          rw [hnil, List.append_nil] at hsplit
          rw [if_pos hdrained, hsplit, drained_eq]
          exact ⟨_, rfl, .all n b hvalid hnil⟩
        · rw [if_neg hdrained]
          exact ⟨_, rfl, .some n b hwriting hvalid hsplit (mt (Buffer.content_eq_nil hvalid).mp hdrained)⟩
      · obtain rfl : n = 0 := by omega
        exact ⟨_, rfl, .nothing hwriting⟩

theorem writeDirect_effects (c : TcpConnection) (data : List UInt8) (len : Nat) (write : Transfer) :
    ∀ x ∈ (c.writeDirect data len write).effects, Effect.OfSend x := by
  unfold writeDirect
  split
  · cases write with
    | ok n =>
      by_cases hall : len - n = 0 ∧ c.writeCompleteCallback = true <;> simp [hall, Effect.OfSend]
    | error failure => simp [Effect.OfSend]
  · simp

/-- What was not written is left to the output queue. -/
theorem writeDirect_split (c : TcpConnection) (data : List UInt8) {len : Nat} {write : Transfer}
    (hle : ∀ n, write = .ok n → n ≤ len) :
    (c.writeDirect data len write).nwrote + (c.writeDirect data len write).remaining = len := by
  unfold writeDirect
  split
  · cases write with
    | ok n => exact Nat.add_sub_of_le (hle n rfl)
    | error failure => exact Nat.zero_add _
  · exact Nat.zero_add _

/-- What `sendInLoop` comes to: all that is to be done was done directly, or the rest is buffered. -/
inductive SendsInLoop (c : TcpConnection) (data : List UInt8) (d : Direct) :
    List Effect × TcpConnection → Prop where
  | direct (hrest : d.faultError = true ∨ d.remaining = 0) : SendsInLoop c data d (d.effects, c)
  | appended (queued : List Effect) (b : Buffer) (hpos : 0 < d.remaining) (hvalid : b.Valid)
      (hcontent : b.content = c.outputBuffer.content ++ (data.drop d.nwrote).take d.remaining)
      (hmark : ∀ x ∈ queued, ∃ set size, x = .queueHighWaterMark set size) :
    SendsInLoop c data d (d.effects ++ queued,
      if !c.channel.isWriting then ({ c with outputBuffer := b } : TcpConnection).setInterest
        .enableWriting else { c with outputBuffer := b })

theorem sendInLoop_spec (h : c.outputBuffer.Valid) {len : Nat} {write : Transfer}
    (hlen : len ≤ data.length) (hle : ∀ n, write = .ok n → n ≤ len) :
    ∃ r, c.sendInLoop data len write = .ok r ∧
      SendsInLoop c data (c.writeDirect data len write) r := by
  have hsplit := writeDirect_split c data hle
  simp only [sendInLoop]
  generalize c.writeDirect data len write = d at hsplit ⊢
  rw [assert_holds (show d.remaining ≤ len by omega), ok_bind]
  by_cases hrest : d.faultError = false ∧ 0 < d.remaining
  · obtain ⟨queued, b, hvalid, hcontent, hrun, hmark⟩ :=
      appendRemaining_ok h (show d.nwrote + d.remaining ≤ data.length by omega)
    rw [if_pos (by simpa using hrest), hrun]
    exact ⟨_, rfl, .appended queued b hrest.2 hvalid hcontent hmark⟩
  · rw [if_neg (by simpa using hrest)]
    refine ⟨_, rfl, .direct ?_⟩
    cases hfault : d.faultError with
    | true => exact .inl rfl
    | false => exact .inr (Nat.eq_zero_of_not_pos fun hpos => hrest ⟨hfault, hpos⟩)

variable {len : Nat} {write : Transfer} {r : List Effect × TcpConnection}

theorem SendsInLoop.effects (h : SendsInLoop c data (c.writeDirect data len write) r) :
    ∀ x ∈ r.1, Effect.OfSend x := by
  have hdirect := writeDirect_effects c data len write
  cases h with
  | direct => exact hdirect
  | appended queued b hpos hvalid hcontent hmark =>
    intro x hx
    rcases List.mem_append.mp hx with hx | hx
    · exact hdirect x hx
    · obtain ⟨set, size, rfl⟩ := hmark x hx
      trivial

/-- But for the output queue and the interest in POLLOUT, the connection is as it was. -/
theorem SendsInLoop.conn {d : Direct} (h : SendsInLoop c data d r) (hv : c.outputBuffer.Valid) :
    r.2.outputBuffer.Valid ∧ r.2.state = c.state ∧ r.2.closeCallback = c.closeCallback ∧
      r.2.channel.receivedEvents = c.channel.receivedEvents := by
  cases h with
  | direct => exact ⟨hv, rfl, rfl, rfl⟩
  | appended queued b hpos hvalid =>
    dsimp only
    split <;> exact ⟨hvalid, rfl, rfl, rfl⟩

end TcpConnection
end Leanet

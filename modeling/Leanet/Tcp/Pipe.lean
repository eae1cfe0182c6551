import Leanet.Buffer.ReadFd
import Leanet.Tcp.Calls

/-! Two connections and the wire between them.

Both ends of a TCP connection run this code. Between them is what TCP promises: the bytes that
write(2) took come out of read(2) at the other end in order, in pieces of any size, until the
half-close, after which read(2) returns 0; or the connection breaks, with whatever was under way.
Sends, partial writes, reads and closes of the two loops are interleaved in any way.

A byte that was sent is retrieved at the other end or in one of three places on the way there:
the input buffer, the wire, the output buffer (`pipe_account`). After a half-close of an end that
was still open the last of them is empty, and after the 0 the second (`pipe_eof`): the other end
has all that was sent. In both the messages that `sendInLoop` itself gives up are left out. -/
namespace Leanet.Pipe
open TcpConnection

inductive Side where
  | client
  | server
  deriving DecidableEq, Repr

def Side.peer : Side → Side
  | .client => .server
  | .server => .client

/-- A connection with its input buffer. -/
structure End where
  conn : TcpConnection
  inputBuffer : Buffer
  deriving DecidableEq, Repr

/-- `handleRead`; the message callback retrieves `retrieved` bytes of what is then readable, the
second value. -/
def End.handleRead (e : End) (extrabuf : List UInt8) (readv : Except Errno (List UInt8))
    (retrieved : Nat) : Except Fault (List Effect × List UInt8 × End) := do
  let (n, savedErrno, inputBuffer) ← e.inputBuffer.readFd extrabuf (.other 0) readv
  -- `errno` is set back and logged, and nobody looks at it again
  let (effects, conn) ← e.conn.handleRead
    (if n < 0 then .error ⟨savedErrno, savedErrno⟩ else .ok n.toNat)
  if 0 < n then
    let (bytes, inputBuffer) ← inputBuffer.retrieveAsString retrieved
    pure (effects, bytes, ⟨conn, inputBuffer⟩)
  else pure (effects, [], ⟨conn, inputBuffer⟩)

structure State where
  ends : Side → End
  /-- What this side has written and the other has not read. -/
  wire : Side → List UInt8
  /-- This side has half-closed, or closed its socket. -/
  fin : Side → Bool
  /-- The connection is gone, and `~Socket` has run. -/
  closed : Side → Bool
  broken : Bool

/-- The array on the stack of `readFd`, with what happens to be in it. -/
abbrev Extrabuf := { l : List UInt8 // l.length = Buffer.extrabufSize }

inductive Action where
  | call (side : Side) (l : Call)
  | handleRead (side : Side) (extrabuf : Extrabuf) (readv : Except Errno Nat) (retrieved : Nat)
  /-- `~TcpConnection`. -/
  | destruct (side : Side)
  | reset

/-- A read takes its bytes from the wire, and is an action of its own. -/
def Reads : Call → Bool
  | .handleRead _ => true
  | _ => false

/-- write(2) fails, if it is called. -/
def Refused : Call → Prop
  | .output (.sendInLoop _ _ write) | .output (.handleWrite write) =>
    ∃ failure, write = .error failure
  | _ => True

/-- After a call on one side. -/
def State.called (s : State) (a : Side) (effects : List Effect) (conn : TcpConnection) : State :=
  { s with
    ends := Function.update s.ends a ⟨conn, (s.ends a).inputBuffer⟩
    wire := Function.update s.wire a (s.wire a ++ taken effects)
    fin := Function.update s.fin a (s.fin a || .shutdownWrite ∈ effects) }

/-- After `n` bytes are read on one side. -/
def State.received (s : State) (a : Side) (n : Nat) (e : End) : State :=
  { s with
    ends := Function.update s.ends a e
    wire := Function.update s.wire a.peer ((s.wire a.peer).drop n) }

/-- A live connection is called. After a half-close write(2) fails, and read(2) returns 0 only
after the other side's, with nothing left to read; on a broken connection it may at any time. -/
def may (s : State) : Action → Prop
  | .call a l => s.closed a = false ∧ calls.may (s.ends a).conn l ∧
      Reads l = false ∧ (s.fin a = true ∨ s.broken = true → Refused l)
  | .handleRead a _ readv retrieved => s.closed a = false ∧
      ∀ n, readv = .ok n → n ≤ (s.wire a.peer).length ∧ n ≤ (s.ends a).inputBuffer.iovTotal ∧
        (n = 0 → s.broken = true ∨ s.wire a.peer = [] ∧ s.fin a.peer = true) ∧
        retrieved ≤ (s.ends a).inputBuffer.readableBytes + n
  | .destruct a => s.closed a = false
  | .reset => True

/-- The effects, and the bytes that a message callback retrieved. -/
def step (s : State) : Action → Except Fault ((List Effect × List UInt8) × State)
  | .call a l => do
    let (effects, conn) ← calls.step (s.ends a).conn l
    pure ((effects, []), s.called a effects conn)
  | .handleRead a extrabuf readv retrieved => do
    let data := readv.map ((s.wire a.peer).take ·)
    let (effects, bytes, e) ← (s.ends a).handleRead extrabuf.1 data retrieved
    let n := match readv with
      | .ok n => n
      | .error _ => 0
    pure ((effects, bytes), s.received a n e)
  | .destruct a => do
    (s.ends a).conn.destruct
    pure (([], []), { s with
      fin := Function.update s.fin a true
      closed := Function.update s.closed a true })
  | .reset => pure (([], []), { s with wire := fun _ => [], broken := true })

def pipe : Machine State Action (List Effect × List UInt8) Fault where
  may := may
  step := step

/-- Both ends constructed, on these descriptors. -/
def initial (sockfd : Side → Nat) : State where
  ends a := ⟨new (sockfd a), .initial Buffer.kInitialSize⟩
  wire _ := []
  fin _ := false
  closed _ := false
  broken := false

instance : (l : Call) → Decidable (Refused l)
  | .output (.sendInLoop _ _ (.error e)) | .output (.handleWrite (.error e)) => isTrue ⟨e, rfl⟩
  | .output (.sendInLoop _ _ (.ok _)) | .output (.handleWrite (.ok _)) =>
    isFalse fun ⟨_, h⟩ => nomatch h
  | .output .shutdown | .output .shutdownInLoop | .output (.setWriteCompleteCallback _)
  | .output (.setHighWaterMarkCallback ..) | .connectEstablished | .handleRead _ | .handleClose
  | .handleError | .connectDestroyed | .setCloseCallback _ => isTrue trivial

instance {p : Nat → Prop} [DecidablePred p] : (read : Except Errno Nat) →
    Decidable (∀ n, read = .ok n → p n)
  | .ok n => decidable_of_iff (p n) ⟨fun h _ e => Except.ok.inj e ▸ h, fun h => h n rfl⟩
  | .error _ => isTrue nofun

instance (s : State) : (act : Action) → Decidable (pipe.may s act)
  | .call .. => inferInstanceAs (Decidable (_ ∧ _ ∧ _ ∧ (_ → _)))
  | .handleRead _ _ readv retrieved => inferInstanceAs (Decidable (_ ∧ ∀ n, readv = .ok n →
      n ≤ _ ∧ n ≤ _ ∧ (n = 0 → _ ∨ _ ∧ _) ∧ retrieved ≤ _ + n))
  | .destruct _ => inferInstanceAs (Decidable (_ = _))
  | .reset => inferInstanceAs (Decidable True)

/-! ### The history of one side -/

abbrev Trace := List (Action × (List Effect × List UInt8))

/-- All data passed to `sendInLoop` on this side, in call order. -/
def sentFrom (a : Side) (tr : Trace) : List UInt8 := tr.flatMap fun
  | (.call b l, _) => if b = a then l.data else []
  | _ => []

/-- The same without the messages that were given up. -/
def keptFrom (a : Side) (tr : Trace) : List UInt8 := tr.flatMap fun
  | (.call b l, effects, _) => if b = a then keptOf (l, effects) else []
  | _ => []

/-- What write(2) has taken from it. -/
def takenFrom (a : Side) (tr : Trace) : List UInt8 := tr.flatMap fun
  | (.call b _, effects, _) => if b = a then taken effects else []
  | _ => []

/-- What the message callbacks of this side have retrieved. -/
def retrievedAt (a : Side) (tr : Trace) : List UInt8 := tr.flatMap fun
  | (.handleRead b _ _ _, _, bytes) => if b = a then bytes else []
  | _ => []

/-! ### One call -/

variable {c c' : TcpConnection} {l : Call} {effects : List Effect}

theorem taken_of_passes (h : ∀ x ∈ effects, ¬ Effect.OfSend x) : taken effects = [] := by
  refine List.flatMap_eq_nil_iff.mpr fun x hx => ?_
  have hx := h x hx
  cases x with
  | wrote => exact absurd trivial hx
  | _ => rfl

/-- A call whose write(2) fails hands over nothing. -/
theorem refused_taken (h : Queued c) (hm : calls.may c l) (hrefused : Refused l)
    (hstep : calls.step c l = .ok (effects, c')) : taken effects = [] := by
  cases hl : l.writes with
  | false => exact taken_of_passes (callStep_passes hl hstep).effects
  | true =>
    cases l with
    | output l =>
      cases l with
      | sendInLoop data len write =>
        obtain ⟨failure, rfl⟩ := hrefused
        have hdirect : taken (c.writeDirect data len (.error failure)).effects = [] := by
          unfold writeDirect
          split <;> rfl
        obtain ⟨r, hr, hspec⟩ := sendInLoop_spec h.valid hm.1 hm.2
        obtain rfl := Except.ok.inj (hr.symm.trans hstep)
        generalize c.writeDirect data len (.error failure) = d at hdirect hspec
        cases hspec with
        | direct => exact hdirect
        | appended queued b hpos hvalid hcontent hmark =>
          rw [taken, List.flatMap_append, ← taken, hdirect, List.nil_append]
          refine List.flatMap_eq_nil_iff.mpr fun x hx => ?_
          obtain ⟨set, size, rfl⟩ := hmark x hx
          rfl
      | handleWrite write =>
        obtain ⟨failure, rfl⟩ := hrefused
        obtain ⟨r, hr, hspec⟩ := handleWrite_spec h.valid hm
        obtain rfl := Except.ok.inj (hr.symm.trans hstep)
        cases hspec <;> rfl
      | shutdown | shutdownInLoop | setWriteCompleteCallback | setHighWaterMarkCallback => cases hl
    | connectEstablished | handleRead | handleClose | handleError | connectDestroyed
    | setCloseCallback => cases hl

/-- A connection that is not closed waits for POLLOUT while something is buffered. -/
def Waiting (c : TcpConnection) : Prop :=
  c.state ≠ .kDisconnected → c.outputBuffer.content ≠ [] → c.channel.isWriting = true

theorem waiting_handleClose (hstep : c.handleClose = .ok (effects, c')) : Waiting c' := by
  obtain ⟨_, -, hstep⟩ := bind_eq_ok.mp hstep
  cases hstep
  exact fun hne => absurd rfl hne

theorem waiting_step (h : Queued c) (hw : Waiting c) (hm : calls.may c l)
    (hstep : calls.step c l = .ok (effects, c')) : Waiting c' := by
  cases l with
  | output l =>
    cases l with
    | sendInLoop data len write =>
      obtain ⟨r, hr, hspec⟩ := sendInLoop_spec h.valid hm.1 hm.2
      obtain rfl := Except.ok.inj (hr.symm.trans hstep)
      cases hspec with
      | direct => exact hw
      | appended queued b =>
        intro _ _
        split
        · exact Channel.isWriting_enableWriting _
        · next hwriting => simpa using hwriting
    | handleWrite write =>
      obtain ⟨r, hr, hspec⟩ := handleWrite_spec h.valid hm
      obtain rfl := Except.ok.inj (hr.symm.trans hstep)
      cases hspec with
      | idle | failed | nothing => exact hw
      | some n b hwriting => exact fun _ _ => hwriting
      | all n b hvalid hnil => exact fun _ hne => absurd hnil hne
    | shutdown =>
      have hstep : c.shutdown = (effects, c') := Except.ok.inj hstep
      unfold shutdown shutdownInLoop at hstep
      split at hstep
      · next hs =>
        have hw' : Waiting (c.setState .kDisconnecting) := fun _ => hw (by simp [hs])
        split at hstep <;> cases hstep <;> exact hw'
      · cases hstep
        exact hw
    | shutdownInLoop =>
      have hstep : c.shutdownInLoop = (effects, c') := Except.ok.inj hstep
      unfold shutdownInLoop at hstep
      split at hstep <;> cases hstep <;> exact hw
    | setWriteCompleteCallback | setHighWaterMarkCallback =>
      cases hstep
      exact hw
  | connectEstablished =>
    obtain ⟨_, hs, hstep⟩ := bind_eq_ok.mp hstep
    cases hstep
    intro _ hne
    have hconnecting : c.state = .kConnecting := by
      by_contra hother
      rw [assert_fails hother] at hs
      cases hs
    exact (Channel.isWriting_enableReading _).trans (hw (by simp [hconnecting]) hne)
  | connectDestroyed =>
    obtain ⟨_, -, hstep⟩ := bind_eq_ok.mp hstep
    cases hstep
    exact fun hne => absurd rfl hne
  | handleClose => exact waiting_handleClose hstep
  | handleRead read =>
    simp only [calls, callStep, handleRead] at hstep
    cases read with
    | error errno =>
      cases hstep
      exact hw
    | ok n =>
      dsimp only at hstep
      split at hstep
      · cases hstep
        exact hw
      · exact waiting_handleClose hstep
  | handleError | setCloseCallback =>
    cases hstep
    exact hw

theorem handleClose_effects (hstep : c.handleClose = .ok (effects, c')) :
    .shutdownWrite ∉ effects := by
  obtain ⟨_, -, hstep⟩ := bind_eq_ok.mp hstep
  cases hstep
  split <;> simp

/-- A half-close of a connection that is not closed leaves nothing behind. -/
theorem shutdownWrite_empty (h : Queued c) (hw : Waiting c) (hm : calls.may c l)
    (hopen : c.state ≠ .kDisconnected) (hstep : calls.step c l = .ok (effects, c'))
    (hshut : .shutdownWrite ∈ effects) : l.data = [] ∧ c'.outputBuffer.content = [] := by
  have hidle (hwriting : c.channel.isWriting = false) : c.outputBuffer.content = [] := by
    by_contra hne
    cases hwriting.symm.trans (hw hopen hne)
  cases l with
  | output l =>
    cases l with
    | sendInLoop data len write =>
      obtain ⟨r, hr, hspec⟩ := sendInLoop_spec h.valid hm.1 hm.2
      obtain rfl := Except.ok.inj (hr.symm.trans hstep)
      exact absurd (hspec.effects _ hshut) id
    | handleWrite write => exact ⟨rfl, (handleWrite_bytes h.valid hm hstep).2 hshut⟩
    | shutdown =>
      have hstep : c.shutdown = (effects, c') := Except.ok.inj hstep
      refine ⟨rfl, ?_⟩
      unfold shutdown shutdownInLoop at hstep
      split at hstep
      · split at hstep
        · next hwriting =>
          cases hstep
          exact hidle (by simpa [setState] using hwriting)
        · cases hstep
          cases hshut
      · cases hstep
        cases hshut
    | shutdownInLoop =>
      have hstep : c.shutdownInLoop = (effects, c') := Except.ok.inj hstep
      refine ⟨rfl, ?_⟩
      unfold shutdownInLoop at hstep
      split at hstep
      · next hwriting =>
        cases hstep
        exact hidle (by simpa using hwriting)
      · cases hstep
        cases hshut
    | setWriteCompleteCallback | setHighWaterMarkCallback =>
      cases hstep
      cases hshut
  | connectEstablished | connectDestroyed =>
    obtain ⟨_, -, hstep⟩ := bind_eq_ok.mp hstep
    cases hstep
    cases List.mem_singleton.mp hshut
  | handleClose => exact absurd hshut (handleClose_effects hstep)
  | handleRead read =>
    simp only [calls, callStep, handleRead] at hstep
    cases read with
    | error errno =>
      cases hstep
      cases hshut
    | ok n =>
      dsimp only at hstep
      split at hstep
      · cases hstep
        cases List.mem_singleton.mp hshut
      · exact absurd hshut (handleClose_effects hstep)
  | handleError | setCloseCallback =>
    cases hstep
    cases hshut

/-! ### One read -/

variable {e e' : End} {extrabuf : Extrabuf} {data bytes : List UInt8} {retrieved : Nat}

/-- What was read goes behind what is buffered, and what is retrieved comes off the front. -/
theorem handleRead_ok (hv : e.inputBuffer.Valid) (hdata : data.length ≤ e.inputBuffer.iovTotal)
    (hret : retrieved ≤ e.inputBuffer.readableBytes + data.length)
    (h : e.handleRead extrabuf.1 (.ok data) retrieved = .ok (effects, bytes, e')) :
    e.conn.handleRead (.ok data.length) = .ok (effects, e'.conn) ∧ e'.inputBuffer.Valid ∧
      bytes ++ e'.inputBuffer.content = e.inputBuffer.content ++ data := by
  obtain ⟨b, hread, hb, hc⟩ := (Buffer.readFd_appends hv extrabuf.2 (.other 0)).1 data hdata
  simp only [End.handleRead, hread, ok_bind] at h
  obtain ⟨⟨effects', conn⟩, hconn, h⟩ := bind_eq_ok.mp h
  rw [if_neg (by omega), Int.toNat_natCast] at hconn
  by_cases hpos : 0 < data.length
  · have hreadable : retrieved ≤ b.readableBytes := by
      rw [← Buffer.length_content hb, hc, List.length_append, Buffer.length_content hv]
      exact hret
    obtain ⟨b', hret, hb', hc'⟩ := Buffer.retrieveAsString_spec hb hreadable
    simp only [if_pos (show (0 : Int) < data.length by omega), hret, ok_bind, pure_eq_ok] at h
    cases h
    exact ⟨hconn, hb', by rw [hc', List.take_append_drop, hc]⟩
  · simp only [if_neg (show ¬ (0 : Int) < data.length by omega), pure_eq_ok] at h
    cases h
    exact ⟨hconn, hb, hc⟩

theorem handleRead_error {errno : Errno}
    (h : e.handleRead extrabuf.1 (.error errno) retrieved = .ok (effects, bytes, e')) :
    e' = e ∧ bytes = [] := by
  cases h
  exact ⟨rfl, rfl⟩

/-! ### One step -/

/-- What a step comes to. -/
inductive Moves (s : State) : Action → List Effect × List UInt8 → State → Prop where
  | call (a : Side) (l : Call) (effects : List Effect) (conn : TcpConnection)
      (hm : calls.may (s.ends a).conn l)
      (hstep : calls.step (s.ends a).conn l = .ok (effects, conn))
      (hrefused : s.fin a = true ∨ s.broken = true → taken effects = []) :
    Moves s (.call a l) (effects, []) (s.called a effects conn)
  | read (a : Side) (extrabuf : Extrabuf) (n retrieved : Nat) (effects : List Effect)
      (bytes : List UInt8) (e : End)
      (hend : n = 0 → s.broken = true ∨ s.wire a.peer = [] ∧ s.fin a.peer = true)
      (hstep : calls.step (s.ends a).conn (.handleRead (.ok n)) = .ok (effects, e.conn))
      (hvalid : e.inputBuffer.Valid)
      (hbytes : bytes ++ e.inputBuffer.content =
        (s.ends a).inputBuffer.content ++ (s.wire a.peer).take n) :
    Moves s (.handleRead a extrabuf (.ok n) retrieved) (effects, bytes) (s.received a n e)
  | failed (a : Side) (extrabuf : Extrabuf) (errno : Errno) (retrieved : Nat)
      (effects : List Effect) :
    Moves s (.handleRead a extrabuf (.error errno) retrieved) (effects, [])
      (s.received a 0 (s.ends a))
  | destruct (a : Side) :
    Moves s (.destruct a) ([], []) { s with
      fin := Function.update s.fin a true
      closed := Function.update s.closed a true }
  | reset : Moves s .reset ([], []) { s with wire := fun _ => [], broken := true }

/-- What holds of each end. -/
structure Sound (e : End) : Prop where
  queued : Queued e.conn
  waiting : Waiting e.conn
  valid : e.inputBuffer.Valid

variable {s t : State} {a b : Side} {act : Action} {o : List Effect × List UInt8} {tr : Trace}

theorem step_moves (hs : ∀ a, Sound (s.ends a)) (hm : pipe.may s act)
    (hstep : pipe.step s act = .ok (o, t)) : Moves s act o t := by
  cases act with
  | call a l =>
    obtain ⟨-, hmay, -, hrefused⟩ := hm
    obtain ⟨⟨effects, conn⟩, hcall, hstep⟩ := bind_eq_ok.mp hstep
    cases hstep
    exact .call a l effects conn hmay hcall fun hend =>
      refused_taken (hs a).queued hmay (hrefused hend) hcall
  | handleRead a extrabuf readv retrieved =>
    obtain ⟨⟨effects, bytes, e⟩, hread, hstep⟩ := bind_eq_ok.mp hstep
    cases hstep
    cases readv with
    | error errno =>
      obtain ⟨rfl, rfl⟩ := handleRead_error hread
      exact .failed a extrabuf errno retrieved effects
    | ok n =>
      obtain ⟨hwire, htotal, hend, hret⟩ := hm.2 n rfl
      have hlen : ((s.wire a.peer).take n).length = n := List.length_take_of_le hwire
      obtain ⟨hconn, hvalid, hbytes⟩ := handleRead_ok (hs a).valid (by rw [hlen]; exact htotal)
        (by rw [hlen]; exact hret) hread
      rw [hlen] at hconn
      exact .read a extrabuf n retrieved effects bytes e hend hconn hvalid hbytes
  | destruct a =>
    obtain ⟨_, -, hstep⟩ := bind_eq_ok.mp hstep
    cases hstep
    exact .destruct a
  | reset =>
    cases hstep
    exact .reset

theorem Side.eq_or_peer (a b : Side) : a = b ∨ a.peer = b := by
  cases a <;> cases b <;> simp [Side.peer]

@[simp] theorem Side.peer_ne (a : Side) : a.peer ≠ a := by
  cases a <;> simp [Side.peer]

@[simp] theorem Side.peer_peer (a : Side) : a.peer.peer = a := by
  cases a <;> rfl

theorem sound_initial (sockfd : Side → Nat) (a : Side) : Sound ((initial sockfd).ends a) := by
  refine ⟨queued_new _, fun _ hne => absurd ?_ hne, Buffer.initial_valid _⟩
  exact Buffer.initial_content _

theorem sound_step (hs : ∀ a, Sound (s.ends a)) (hm : pipe.may s act)
    (hstep : pipe.step s act = .ok (o, t)) (a : Side) : Sound (t.ends a) := by
  have hupdate {b : Side} {e : End} (he : Sound e) : Sound (Function.update s.ends b e a) := by
    by_cases hab : a = b
    · rw [hab, Function.update_self]
      exact he
    · rw [Function.update_of_ne hab]
      exact hs a
  cases step_moves hs hm hstep with
  | call b l effects conn hmay hcall =>
    exact hupdate ⟨(call_step (hs b).queued hmay hcall).1,
      waiting_step (hs b).queued (hs b).waiting hmay hcall, (hs b).valid⟩
  | read b extrabuf n retrieved effects bytes e hend hcall hvalid =>
    exact hupdate ⟨(call_step (l := .handleRead (.ok n)) (hs b).queued trivial hcall).1,
      waiting_step (l := .handleRead (.ok n)) (hs b).queued (hs b).waiting trivial hcall, hvalid⟩
  | failed b => exact hupdate (hs b)
  | destruct | reset => exact hs a

theorem sound_run {sockfd : Side → Nat} (h : pipe.Run (initial sockfd) tr s) (a : Side) :
    Sound (s.ends a) :=
  h.preserves (I := fun s => ∀ a, Sound (s.ends a)) (fun _ _ _ _ hs hm hstep => sound_step hs hm hstep)
    (sound_initial sockfd) a

/-! ### Every run -/

/-- Where the bytes of one side are. -/
structure Account (tr : Trace) (s : State) (a : Side) : Prop where
  output : takenFrom a tr ++ (s.ends a).conn.outputBuffer.content = keptFrom a tr
  wire : ∃ lost, (s.broken = false → lost = []) ∧
    retrievedAt a.peer tr ++ (s.ends a.peer).inputBuffer.content ++ s.wire a ++ lost = takenFrom a tr

@[simp] theorem keptFrom_snoc (e) : keptFrom a (tr ++ [e]) = keptFrom a tr ++ keptFrom a [e] :=
  List.flatMap_append

/-- Nothing is left out where no message is given up. -/
theorem keptFrom_eq (h : ∀ l effects bytes, (.call a l, effects, bytes) ∈ tr →
    ¬ Dropped (l, effects)) : keptFrom a tr = sentFrom a tr := by
  refine List.flatMap_congr fun x hx => ?_
  obtain ⟨act, effects, bytes⟩ := x
  cases act with
  | call b l =>
    by_cases hb : b = a
    · subst hb
      simp [keptOf, h l effects bytes hx]
    · simp [hb]
  | handleRead | destruct | reset => rfl

theorem takenFrom_cons (e) : takenFrom a (e :: tr) = takenFrom a [e] ++ takenFrom a tr := by
  simp [takenFrom]

@[simp] theorem takenFrom_snoc (e) : takenFrom a (tr ++ [e]) = takenFrom a tr ++ takenFrom a [e] :=
  List.flatMap_append

@[simp] theorem retrievedAt_snoc (e) :
    retrievedAt a (tr ++ [e]) = retrievedAt a tr ++ retrievedAt a [e] :=
  List.flatMap_append

/-- What this side writes goes behind what is under way. -/
theorem Account.wrote {tr' : Trace} (h : Account tr s a) {bytes data : List UInt8}
    (hbytes : bytes ++ (t.ends a).conn.outputBuffer.content =
      (s.ends a).conn.outputBuffer.content ++ data)
    (hfailed : s.broken = true → bytes = []) (htaken : takenFrom a tr' = takenFrom a tr ++ bytes)
    (hsent : keptFrom a tr' = keptFrom a tr ++ data)
    (hretrieved : retrievedAt a.peer tr' = retrievedAt a.peer tr)
    (hinput : (t.ends a.peer).inputBuffer = (s.ends a.peer).inputBuffer)
    (hwire : t.wire a = s.wire a ++ bytes) (hbroken : t.broken = s.broken) : Account tr' t a := by
  obtain ⟨houtput, lost, hlost, hpipe⟩ := h
  refine ⟨?_, lost, by rwa [hbroken], ?_⟩
  · rw [htaken, hsent, List.append_assoc, hbytes, ← List.append_assoc, houtput]
  · rw [hretrieved, hinput, hwire, htaken, ← hpipe]
    cases hb : s.broken with
    | false => simp [hlost hb]
    | true => simp [hfailed hb]

/-- What the other side reads comes from the front of it. -/
theorem Account.read {tr' : Trace} (h : Account tr s a) (bytes : List UInt8) (n : Nat)
    (hbytes : bytes ++ (t.ends a.peer).inputBuffer.content =
      (s.ends a.peer).inputBuffer.content ++ (s.wire a).take n)
    (houtput : (t.ends a).conn.outputBuffer = (s.ends a).conn.outputBuffer)
    (htaken : takenFrom a tr' = takenFrom a tr) (hsent : keptFrom a tr' = keptFrom a tr)
    (hretrieved : retrievedAt a.peer tr' = retrievedAt a.peer tr ++ bytes)
    (hwire : t.wire a = (s.wire a).drop n) (hbroken : t.broken = s.broken) : Account tr' t a := by
  obtain ⟨hout, lost, hlost, hpipe⟩ := h
  refine ⟨by rw [htaken, hsent, houtput, hout], lost, by rwa [hbroken], ?_⟩
  rw [hretrieved, hwire, htaken, ← hpipe, List.append_assoc (retrievedAt _ _), hbytes]
  simp only [List.append_assoc, List.append_cancel_left_eq]
  rw [← List.append_assoc, List.take_append_drop]

/-- The output queue after a read. -/
theorem handleRead_outputBuffer {n : Nat}
    (h : calls.step c (.handleRead (.ok n)) = .ok (effects, c')) : c'.outputBuffer = c.outputBuffer :=
  (callStep_passes (l := .handleRead (.ok n)) rfl h).buffer

theorem account_step (hs : ∀ a, Sound (s.ends a)) (h : Account tr s a) (hm : pipe.may s act)
    (hstep : pipe.step s act = .ok (o, t)) : Account (tr ++ [(act, o)]) t a := by
  cases step_moves hs hm hstep with
  | call b l effects conn hmay hcall hrefused =>
    obtain ⟨-, hbytes⟩ := call_step (hs b).queued hmay hcall
    obtain rfl | rfl := Side.eq_or_peer a b
    · exact h.wrote (by simpa [State.called] using hbytes) (fun hb => hrefused (.inr hb))
        (by simp [takenFrom]) (by simp [keptFrom]) (by simp [retrievedAt])
        (by simp [State.called]) (by simp [State.called]) rfl
    · have hne : a ≠ a.peer := (Side.peer_ne a).symm
      exact h.read [] 0 (by simp [State.called]) (by simp [State.called, hne])
        (by simp [takenFrom]) (by simp [keptFrom]) (by simp [retrievedAt])
        (by simp [State.called, hne]) rfl
  | read b extrabuf n retrieved effects bytes e hend hcall hvalid hread =>
    have houtput := handleRead_outputBuffer hcall
    obtain rfl | rfl := Side.eq_or_peer a b
    · have hne : a ≠ a.peer := (Side.peer_ne a).symm
      exact h.read [] 0 (by simp [State.received]) (by simpa [State.received] using houtput)
        (by simp [takenFrom]) (by simp [keptFrom]) (by simp [retrievedAt, hne])
        (by simp [State.received, hne]) rfl
    · have hne : a ≠ a.peer := (Side.peer_ne a).symm
      refine h.read bytes n ?_ (by simp [State.received, hne])
        (by simp [takenFrom]) (by simp [keptFrom]) (by simp [retrievedAt])
        (by simp [State.received]) rfl
      simpa [State.received] using hread
  | failed b =>
    have hends : (s.received b 0 (s.ends b)).ends = s.ends := Function.update_eq_self b s.ends
    have hwire : (s.received b 0 (s.ends b)).wire = s.wire := Function.update_eq_self b.peer s.wire
    exact h.read [] 0 (by simp [hends]) (by rw [hends]) (by simp [takenFrom]) (by simp [keptFrom])
      (by simp [retrievedAt]) (by simp [hwire]) rfl
  | destruct b =>
    exact h.read [] 0 (by simp) rfl (by simp [takenFrom]) (by simp [keptFrom])
      (by simp [retrievedAt]) (by simp) rfl
  | reset =>
    obtain ⟨houtput, lost, hlost, hpipe⟩ := h
    refine ⟨by simpa [takenFrom, keptFrom] using houtput, s.wire a ++ lost, nofun, ?_⟩
    simpa [takenFrom, retrievedAt] using hpipe

theorem account_run {sockfd : Side → Nat} (h : pipe.Run (initial sockfd) tr s) (a : Side) :
    Account tr s a := by
  refine h.snoc_induction (P := fun tr s => Account tr s a) ⟨?_, [], fun _ => rfl, ?_⟩ ?_
  · exact Buffer.initial_content Buffer.kInitialSize
  · simp [retrievedAt, takenFrom, initial, Buffer.initial_content]
  · exact fun tr s act o t hrun ih hm hstep => account_step (sound_run hrun) ih hm hstep

/-- **Nothing is lost on the way, doubled or out of order**: what was sent on one side, but for the
messages that were given up there, has been retrieved on the other, or it is buffered there, under
way or buffered here, in that order; and a connection that breaks loses bytes only behind those
that were received. -/
theorem pipe_account {sockfd : Side → Nat} (h : pipe.Run (initial sockfd) tr s) (a : Side) :
    (∃ lost, (s.broken = false → lost = []) ∧
      retrievedAt a.peer tr ++ (s.ends a.peer).inputBuffer.content ++ s.wire a ++ lost ++
        (s.ends a).conn.outputBuffer.content = keptFrom a tr) ∧
    ((∀ l effects bytes, (.call a l, effects, bytes) ∈ tr → ¬ Dropped (l, effects)) →
      keptFrom a tr = sentFrom a tr) := by
  obtain ⟨houtput, lost, hlost, hpipe⟩ := account_run h a
  exact ⟨⟨lost, hlost, by rw [hpipe, houtput]⟩, keptFrom_eq⟩

/-- Three bytes on their way, in all the places there are. -/
theorem pipe_account_partial : ∃ tr s, pipe.Run (initial fun _ => 5) tr s ∧
    retrievedAt .server tr = [1] ∧ (s.ends .server).inputBuffer.content = [2] ∧
    s.wire .client = [3] ∧ (s.ends .client).conn.outputBuffer.content = [4] ∧
    ∃ lost, (s.broken = false → lost = []) ∧ [1] ++ [2] ++ [3] ++ lost ++ [4] = keptFrom .client tr := by
  obtain ⟨tr, s, h, -, hretrieved, hinput, hwire, houtput⟩ := pipe.exists_run_of_replay
    (s := initial fun _ => 5)
    (P := fun tr s => retrievedAt .server tr = [1] ∧
      (s.ends .server).inputBuffer.content = [2] ∧ s.wire .client = [3] ∧
      (s.ends .client).conn.outputBuffer.content = [4])
    [.call .client .connectEstablished, .call .server .connectEstablished,
      .call .client (.output (.sendInLoop [1, 2, 3, 4] 4 (.ok 2))),
      .handleRead .server ⟨List.replicate _ 0, List.length_replicate⟩ (.ok 2) 1,
      .call .client (.output (.handleWrite (.ok 1)))]
    (by decide +kernel)
  have haccount := (pipe_account h .client).1
  rw [show Side.client.peer = .server from rfl, hretrieved, hinput, hwire, houtput] at haccount
  exact ⟨tr, s, h, hretrieved, hinput, hwire, houtput, haccount⟩

/-! ### The end of a stream -/

/-- The other side has read 0. -/
def Ended (tr : Trace) (a : Side) : Prop :=
  ∃ extrabuf retrieved o, (.handleRead a.peer extrabuf (.ok 0) retrieved, o) ∈ tr

/-- After a half-close nothing more is written. -/
theorem fin_step (hs : ∀ a, Sound (s.ends a)) (hfin : s.fin a = true) (hm : pipe.may s act)
    (hstep : pipe.step s act = .ok (o, t)) :
    t.fin a = true ∧ takenFrom a [(act, o)] = [] ∧ (s.wire a = [] → t.wire a = []) := by
  cases step_moves hs hm hstep with
  | call b l effects conn hmay hcall hrefused =>
    obtain rfl | rfl := Side.eq_or_peer a b
    · simp [State.called, takenFrom, hfin, hrefused (.inl hfin)]
    · have hne : a ≠ a.peer := (Side.peer_ne a).symm
      simp [State.called, takenFrom, hfin, hne]
  | read b extrabuf n retrieved effects bytes e =>
    obtain rfl | rfl := Side.eq_or_peer a b
    · have hne : a ≠ a.peer := (Side.peer_ne a).symm
      simp [State.received, takenFrom, hfin, hne]
    · refine ⟨hfin, by simp [takenFrom], fun hwire => ?_⟩
      simp [State.received, hwire]
  | failed b =>
    have hwire : (s.received b 0 (s.ends b)).wire = s.wire := Function.update_eq_self b.peer s.wire
    exact ⟨hfin, by simp [takenFrom], fun hnil => by rw [hwire, hnil]⟩
  | destruct b =>
    refine ⟨?_, by simp [takenFrom], id⟩
    obtain rfl | rfl := Side.eq_or_peer a b
    · exact Function.update_self ..
    · exact (Function.update_of_ne (Side.peer_ne a).symm ..).trans hfin
  | reset => exact ⟨hfin, by simp [takenFrom], fun _ => rfl⟩

theorem fin_run (h : pipe.Run s tr t) (hs : ∀ a, Sound (s.ends a)) (hfin : s.fin a = true) :
    takenFrom a tr = [] := by
  induction h with
  | nil => rfl
  | cons hm hstep _ ih =>
    obtain ⟨hfin', htaken, -⟩ := fin_step hs hfin hm hstep
    have hrest := ih (fun a => sound_step hs hm hstep a) hfin'
    rw [takenFrom_cons, htaken, hrest, List.nil_append]

theorem broken_step (hs : ∀ a, Sound (s.ends a)) (hm : pipe.may s act)
    (hstep : pipe.step s act = .ok (o, t)) (h : t.broken = false) : s.broken = false := by
  cases step_moves hs hm hstep with
  | call | read | failed | destruct => exact h
  | reset => cases h

/-- Read 0 on a connection that holds, and the stream has been read to its end. -/
theorem ended_run {sockfd : Side → Nat} (h : pipe.Run (initial sockfd) tr s) (hended : Ended tr a)
    (hbroken : s.broken = false) : s.fin a = true ∧ s.wire a = [] := by
  revert hended hbroken
  refine h.snoc_induction (P := fun tr s => Ended tr a → s.broken = false →
    s.fin a = true ∧ s.wire a = []) (fun ⟨_, _, _, hmem⟩ => nomatch hmem) ?_
  rintro tr s act o t hrun ih hm hstep ⟨extrabuf, retrieved, o', hmem⟩ hbroken
  have hs := fun a => sound_run hrun a
  have hbroken' := broken_step hs hm hstep hbroken
  have hdone : s.fin a = true ∧ s.wire a = [] := by
    obtain hmem | hmem := List.mem_append.mp hmem
    · exact ih ⟨extrabuf, retrieved, o', hmem⟩ hbroken'
    · obtain ⟨rfl, rfl⟩ := Prod.mk.inj (List.mem_singleton.mp hmem)
      obtain hb | ⟨hwire, hfin⟩ := (hm.2 0 rfl).2.2.1 rfl
      · cases hb.symm.trans hbroken'
      · rw [Side.peer_peer] at hwire hfin
        exact ⟨hfin, hwire⟩
  obtain ⟨hfin, -, hwire⟩ := fin_step hs hdone.1 hm hstep
  exact ⟨hfin, hwire hdone.2⟩

variable {l : Call} {s₁ s₂ : State} {tr₁ tr₂ : Trace}

/-- **A half-close is heard after everything that was sent before it.** One side half-closes
before its own connection is closed, and the other reads 0 on a connection that has not broken:
what the other has retrieved and what its input buffer holds is all that was sent, but for the
messages that were given up. -/
theorem pipe_eof {sockfd : Side → Nat} (h₁ : pipe.Run (initial sockfd) tr₁ s₁)
    (hm : pipe.may s₁ (.call a l)) (hstep : pipe.step s₁ (.call a l) = .ok ((effects, bytes), s₂))
    (hshut : .shutdownWrite ∈ effects) (hopen : (s₁.ends a).conn.state ≠ .kDisconnected)
    (h₂ : pipe.Run s₂ tr₂ s) (hended : Ended tr₂ a) (hbroken : s.broken = false) :
    retrievedAt a.peer (tr₁ ++ (.call a l, (effects, bytes)) :: tr₂) ++
      (s.ends a.peer).inputBuffer.content = keptFrom a tr₁ := by
  have hhalf := h₁.snoc hm hstep
  have hwhole := hhalf.append h₂
  rw [List.append_assoc, List.singleton_append] at hwhole
  have hs₁ := fun b => sound_run h₁ b
  have hs₂ := fun b => sound_run hhalf b
  -- The half-close itself: nothing is left in the output buffer.
  obtain ⟨hfin, hsent⟩ : s₂.fin a = true ∧ takenFrom a (tr₁ ++ [(.call a l, (effects, bytes))]) =
      keptFrom a tr₁ := by
    obtain ⟨houtput, -⟩ := account_run hhalf a
    cases step_moves hs₁ hm hstep with
    | call _ _ _ conn hmay hcall =>
      obtain ⟨hdata, hempty⟩ := shutdownWrite_empty (hs₁ a).queued (hs₁ a).waiting hmay hopen hcall hshut
      refine ⟨by simp [State.called, hshut], ?_⟩
      simpa [State.called, keptFrom, keptOf_eq_nil hdata, hempty] using houtput
  have hlater := fin_run h₂ hs₂ hfin
  obtain ⟨-, hwire⟩ := ended_run hwhole (a := a) (by
    obtain ⟨extrabuf, retrieved, o, hmem⟩ := hended
    exact ⟨extrabuf, retrieved, o, List.mem_append_right _ (List.mem_cons_of_mem _ hmem)⟩) hbroken
  obtain ⟨-, lost, hlost, hpipe⟩ := account_run hwhole a
  have htaken : takenFrom a (tr₁ ++ (.call a l, (effects, bytes)) :: tr₂) = keptFrom a tr₁ := by
    rw [List.append_cons, takenFrom, List.flatMap_append, ← takenFrom, ← takenFrom, hsent, hlater,
      List.append_nil]
  rw [hwire, hlost hbroken, List.append_nil, List.append_nil, htaken] at hpipe
  exact hpipe

/-- What follows a half-close. -/
def farewell : List Action :=
  [.handleRead .server ⟨List.replicate _ 0, List.length_replicate⟩ (.ok 2) 1,
    .handleRead .server ⟨List.replicate _ 0, List.length_replicate⟩ (.ok 0) 0]

/-- A half-close that waits for the second of two bytes. -/
theorem pipe_eof_pending : ∃ tr s, pipe.Run (initial fun _ => 5) tr s ∧
    retrievedAt .server tr ++ (s.ends .server).inputBuffer.content = [1, 2] := by
  obtain ⟨tr₁, s₁, h₁, -, hsent, hm, hrest⟩ := pipe.exists_run_of_replay
    (s := initial fun _ => 5)
    (P := fun tr s => keptFrom .client tr = [1, 2] ∧
      pipe.may s (.call .client (.output (.handleWrite (.ok 1)))) ∧
      (match pipe.step s (.call .client (.output (.handleWrite (.ok 1)))) with
      | .ok (o, t) => decide (.shutdownWrite ∈ o.1 ∧ (s.ends .client).conn.state ≠ .kDisconnected) &&
        (pipe.replay t farewell).any fun r => !r.2.broken
      | .error _ => false) = true)
    [.call .client .connectEstablished, .call .server .connectEstablished,
      .call .client (.output (.sendInLoop [1, 2] 2 (.ok 1))), .call .client (.output .shutdown)]
    (by decide +kernel)
  cases hstep : pipe.step s₁ (.call .client (.output (.handleWrite (.ok 1)))) with
  | error fault => simp [hstep] at hrest
  | ok r =>
    obtain ⟨⟨effects, bytes⟩, s₂⟩ := r
    simp only [hstep, Bool.and_eq_true, decide_eq_true_eq] at hrest
    obtain ⟨⟨hshut, hopen⟩, hreplay⟩ := hrest
    obtain ⟨⟨tr₂, s⟩, hreplay, hbroken⟩ := (Option.any_eq_true _ _).mp hreplay
    have h₂ := Machine.Run.of_replay hreplay
    have hcalls := Machine.replay_labels hreplay
    have hended : Ended tr₂ .client := by
      have hmem : .handleRead .server ⟨List.replicate _ 0, List.length_replicate⟩ (.ok 0) 0 ∈
          tr₂.map Prod.fst := by
        rw [hcalls]
        simp [farewell]
      obtain ⟨⟨act, o⟩, hmem, rfl⟩ := List.mem_map.mp hmem
      exact ⟨_, _, o, hmem⟩
    refine ⟨_, s, (h₁.snoc hm hstep).append h₂, ?_⟩
    rw [List.append_assoc, List.singleton_append, ← hsent]
    exact pipe_eof h₁ hm hstep hshut hopen h₂ hended (by simpa using hbroken)

end Leanet.Pipe

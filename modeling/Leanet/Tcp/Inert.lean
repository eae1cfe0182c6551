import Leanet.Tcp.Capture

/-! What is left of a closed connection.

`send` looks at `state_` on the calling thread and `sendInLoop` does not look again, so a
send queued in time and run after the close writes to the socket, or fills the output
queue and asks for POLLOUT once more. Nothing else brings a closed connection back: as
long as no such functor runs, nothing is written or buffered and the channel waits for
nothing (`disconnected_inert`). A channel that was removed is not put back into the poller by
such a send: `index_` is the one it had, and the slot that is written is another's or none. -/
namespace Leanet

/-- A call of write(2). -/
def Effect.isWrite : Effect → Bool
  | .wrote _ | .writeFailed _ _ => true
  | _ => false

namespace Shared
open TcpConnection
open LifeCycle (Fits Keeps)

variable {build : Build} {c c' : TcpConnection} {s s' : State} {l : Action} {e : List Effect}
  {r : List Effect × TcpConnection} {data : List UInt8} {len : Nat} {write transfer : Transfer}
  {f : Functor} {memory : Memory}

/-- A step that leaves a closed connection as it is. -/
structure Inert (s : State) (e : List Effect) (s' : State) : Prop where
  quiet : ∀ x ∈ e, x.isWrite = false
  buffer : s'.conn.outputBuffer = s.conn.outputBuffer
  interest : s'.conn.channel.isNoneEvent = true
  removed : s'.destroyed = true → s'.conn.registered = false

/-- A functor that finds nothing to do on a closed connection: not a send, or one of no
bytes behind others that are buffered. -/
def Functor.Idle (c : TcpConnection) : Functor → Prop
  | .sendInLoop message => message.len = 0 ∧ c.outputBuffer.readableBytes ≠ 0
  | .shutdownInLoop | .connectDestroyed => True

/-- No send runs on a closed connection. -/
def Quiet (s : State) : Action → Prop
  | .functor _ => s.closed = true → ∀ f ∈ s.batch.head?, f.Idle s.conn
  | _ => True

/-! ### Calls on a closed connection -/

theorem isWriting_of_none (h : c.channel.interestedEvents = 0) : c.channel.isWriting = false := by
  rw [Channel.isWriting, h]
  rfl

theorem handleReadIn_closed (h : c.handleReadIn build transfer = .ok r) :
    (r.2 = c ∧ ∀ x ∈ r.1, x.isWrite = false) ∨ Closes c r := by
  cases transfer with
  | error failure =>
    cases h
    exact .inl ⟨rfl, by simp [handleError]⟩
  | ok n =>
    simp only [handleReadIn] at h
    split at h
    · cases h
      exact .inl ⟨rfl, by simp [Effect.isWrite]⟩
    · exact .inr (handleCloseIn_closes h)

theorem runCallback_closed (hnone : c.channel.interestedEvents = 0) {callback : Callback}
    (h : runCallback build c transfer callback = .ok r) :
    (r.2 = c ∧ ∀ x ∈ r.1, x.isWrite = false) ∨ Closes c r := by
  cases callback with
  | close => exact .inr (handleCloseIn_closes h)
  | error =>
    cases h
    exact .inl ⟨rfl, by simp [handleError]⟩
  | read => exact handleReadIn_closed h
  | write =>
    simp only [runCallback, handleWrite, isWriting_of_none hnone, Bool.false_eq_true, if_false] at h
    cases h
    exact .inl ⟨rfl, by simp⟩

/-- A send of no bytes behind others does nothing. -/
theorem sendInLoop_idle (hbuffered : c.outputBuffer.readableBytes ≠ 0)
    (h : c.sendInLoop data 0 write = .ok r) : r = ([], c) := by
  have hdirect : c.writeDirect data 0 write = ⟨[], 0, 0, false⟩ :=
    if_neg fun hd => hbuffered hd.2
  obtain ⟨_, -, h⟩ := bind_eq_ok.mp h
  rw [hdirect] at h
  cases h
  rfl

theorem runFunctor_closed (hidle : f.Idle c) (h : runFunctor build memory c write f = .ok r) :
    (f ≠ .connectDestroyed ∧ r.2 = c ∧ ∀ x ∈ r.1, x.isWrite = false) ∨
      Closes c r ∧ r.2.registered = false := by
  cases f with
  | sendInLoop message =>
    obtain ⟨hlen, hbuffered⟩ := hidle
    obtain ⟨data, -, h⟩ := bind_eq_ok.mp h
    rw [hlen] at h
    obtain rfl := sendInLoop_idle hbuffered h
    exact .inl ⟨nofun, rfl, by simp⟩
  | shutdownInLoop =>
    cases h
    refine .inl ⟨nofun, ?_⟩
    unfold shutdownInLoop
    split
    · exact ⟨rfl, by simp [Effect.isWrite]⟩
    · exact ⟨rfl, by simp⟩
  | connectDestroyed => exact .inr (connectDestroyedIn_closes h)

theorem Closes.not_isWrite (h : Closes c r) : ∀ x ∈ r.1, x.isWrite = false := by
  intro x hx
  rcases h.quiet x hx with rfl | rfl <;> rfl

/-! ### One step -/

/-- A closed connection waits for nothing, and one that is destroyed is out of the poller
for good. -/
structure Calm (s : State) : Prop where
  interest : s.closed = true → s.conn.channel.interestedEvents = 0
  dispatched : s.destroyed = true → s.dispatch = []
  removed : s.destroyed = true → s.conn.registered = false

theorem calm_initial (sockfd : Nat) (memory : Memory) : Calm (initial sockfd memory) :=
  ⟨nofun, nofun, nofun⟩

/-- A step that does not touch what a closed connection is judged by. -/
theorem Calm.still (h : Calm s) (hc : s.closed = true) (hquiet : ∀ x ∈ e, x.isWrite = false)
    (hbuffer : s'.conn.outputBuffer = s.conn.outputBuffer)
    (hevents : s'.conn.channel.interestedEvents = s.conn.channel.interestedEvents)
    (hregistered : s'.conn.registered = s.conn.registered)
    (hdestroyed : s'.destroyed = s.destroyed) (hdispatch : s.dispatch = [] → s'.dispatch = []) :
    Inert s e s' ∧ Calm s' := by
  have hnone : s'.conn.channel.interestedEvents = 0 := hevents.trans (h.interest hc)
  have hremoved : s'.destroyed = true → s'.conn.registered = false := fun hd =>
    hregistered.trans (h.removed (hdestroyed ▸ hd))
  exact ⟨⟨hquiet, hbuffer, Channel.isNoneEvent_iff.mpr hnone, hremoved⟩, fun _ => hnone,
    fun hd => hdispatch (h.dispatched (hdestroyed ▸ hd)), hremoved⟩

/-- A step that closes the connection, perhaps once more. -/
theorem calm_closes (hc : Closes s.conn r) (hconn : s'.conn = r.2)
    (hremoved : s'.destroyed = true → s'.dispatch = [] ∧ r.2.registered = false) :
    Inert s r.1 s' ∧ Calm s' := by
  have hnone : s'.conn.channel.interestedEvents = 0 := hconn ▸ hc.interest
  have hregistered : s'.destroyed = true → s'.conn.registered = false := fun hd =>
    hconn ▸ (hremoved hd).2
  exact ⟨⟨hc.not_isWrite, hconn ▸ hc.buffer, Channel.isNoneEvent_iff.mpr hnone, hregistered⟩,
    fun _ => hnone, fun hd => (hremoved hd).1, hregistered⟩

/-- Until it is closed there is nothing to keep. -/
theorem calm_open (h : Sound s) (hc : s.closed = false) : Calm s := by
  have hnever : s.closed = true → False := by simp [hc]
  exact ⟨fun hc' => (hnever hc').elim, fun hd => (hnever (h.destroyed hd)).elim,
    fun hd => (hnever (h.destroyed hd)).elim⟩

theorem inert_step (hsound : Sound s) (h : Calm s) (hc : s.closed = true) (hm : may s l)
    (hq : Quiet s l) (hs : step build s l = .ok (e, s')) : Inert s e s' ∧ Calm s' := by
  obtain ⟨hstarted, hdown⟩ := hsound.closed hc
  have hnone : s.conn.channel.isNoneEvent = true := Channel.isNoneEvent_iff.mpr (h.interest hc)
  cases l with
  | setCloseCallback | setWriteCompleteCallback | setHighWaterMarkCallback | doPendingFunctors
  | removeConnection | checkSend | pushSend | checkShutdown | storeShutdown | pushShutdown
  | store =>
    cases hs
    exact h.still hc (by simp) rfl rfl rfl rfl id
  | connectEstablished => cases hstarted.symm.trans hm.2
  | handleEvent revents => cases hnone.symm.trans hm.2.2.1
  | callback transfer =>
    obtain ⟨callback, r, -, hr, heq⟩ := callback_runs hm hs
    cases heq
    have hdispatch : s.dispatch ≠ [] := hm.2.1
    rcases runCallback_closed (h.interest hc) hr with ⟨hsame, hquiet⟩ | hcloses
    · refine h.still hc hquiet ?_ ?_ ?_ rfl fun hnil => absurd hnil hdispatch
      · exact congrArg _ hsame
      · exact congrArg (fun c => c.channel.interestedEvents) hsame
      · exact congrArg _ hsame
    · refine calm_closes hcloses rfl fun hd => ?_
      exact absurd (h.dispatched hd) hdispatch
  | functor write =>
    obtain ⟨f, r, hhead, -, hr, heq⟩ := functor_runs hm hs
    cases heq
    have hdispatch : s.dispatch = [] := hm.2.1
    rcases runFunctor_closed (hq hc f hhead) hr with ⟨hne, hsame, hquiet⟩ | ⟨hcloses, hremoved⟩
    · refine h.still hc hquiet ?_ ?_ ?_ ?_ id
      · exact congrArg _ hsame
      · exact congrArg (fun c => c.channel.interestedEvents) hsame
      · exact congrArg _ hsame
      · show (s.destroyed || f == Functor.connectDestroyed) = s.destroyed
        rw [beq_eq_false_iff_ne.mpr hne, Bool.or_false]
    · exact calm_closes hcloses rfl fun _ => ⟨hdispatch, hremoved⟩
  | send argument write =>
    simp only [step, hdown, Bool.false_eq_true, if_false] at hs
    cases hs
    exact h.still hc (by simp) rfl rfl rfl rfl id
  | shutdown =>
    have hstate : s.conn.state ≠ .kConnected := by
      intro hup
      rw [connected, hup] at hdown
      cases hdown
    simp only [step, TcpConnection.shutdown, if_neg hstate] at hs
    cases hs
    exact h.still hc (by simp) rfl rfl rfl rfl id

/-- A step closes the connection, by `handleClose` or `connectDestroyed`, or leaves it as
closed as it was. -/
theorem closed_cases (hsound : Sound s) (hm : may s l) (hs : step build s l = .ok (e, s')) :
    s'.closed = s.closed ∨ ∃ r, Closes s.conn r ∧ s'.conn = r.2 ∧
      (s'.destroyed = true → s.destroyed = true ∨ s'.dispatch = [] ∧ r.2.registered = false) := by
  cases l with
  | setCloseCallback | setWriteCompleteCallback | setHighWaterMarkCallback | handleEvent
  | doPendingFunctors | removeConnection | checkSend | pushSend | checkShutdown | storeShutdown
  | pushShutdown | store =>
    cases hs
    exact .inl rfl
  | connectEstablished =>
    obtain ⟨r, hr, hs⟩ := bind_eq_ok.mp hs
    obtain ⟨_, -, hr⟩ := bind_eq_ok.mp hr
    cases hr
    cases hs
    exact .inl (Bool.or_false _)
  | callback transfer =>
    obtain ⟨callback, r, hwrite, hr, heq⟩ := callback_runs hm hs
    cases heq
    rcases runCallback_cases hsound.valid hwrite hr with hk | hcloses
    · exact .inl (hsound.latch hk.state)
    · exact .inr ⟨r, hcloses, rfl, .inl⟩
  | functor write =>
    obtain ⟨f, r, -, hw, hr, heq⟩ := functor_runs hm hs
    cases heq
    rcases runFunctor_cases hsound.valid hw hr with ⟨-, hk⟩ | ⟨hcloses, hremoved⟩
    · exact .inl (hsound.latch hk.state)
    · exact .inr ⟨r, hcloses, rfl, fun _ => .inr ⟨hm.2.1, hremoved⟩⟩
  | send argument write =>
    obtain ⟨-, data, r, hdata, hr, heq⟩ | ⟨-, heq⟩ := send_runs hs
    · cases heq
      have hk := sendInLoop_keeps hsound.valid (Memory.load_length hdata) hm.2 hr
      exact .inl (hsound.latch hk.state)
    · cases heq
      exact .inl rfl
  | shutdown =>
    cases hs
    refine .inl ?_
    unfold TcpConnection.shutdown
    split
    · have hk := LifeCycle.shutdownInLoop_keeps (c := s.conn.setState .kDisconnecting) hsound.valid
      show (s.closed || disconnected _) = s.closed
      rw [disconnected, hk.state]
      exact Bool.or_false _
    · exact hsound.latch rfl

theorem calm_step (hsound : Sound s) (h : Calm s) (hm : may s l) (hq : Quiet s l)
    (hs : step build s l = .ok (e, s')) : Calm s' := by
  cases hc : s.closed with
  | true => exact (inert_step hsound h hc hm hq hs).2
  | false =>
    rcases closed_cases hsound hm hs with hsame | ⟨r, hcloses, hconn, hremoved⟩
    · exact calm_open (sound_step hsound hm hs) (hsame.trans hc)
    · refine (calm_closes hcloses hconn fun hd => ?_).2
      rcases hremoved hd with hd | hremoved
      · cases hc.symm.trans (hsound.destroyed hd)
      · exact hremoved

/-! ### A send that runs late -/

/-- With nothing buffered and nothing waited for, write(2) is called. -/
theorem writeDirect_writes (data : List UInt8) (len : Nat) (write : Transfer)
    (hnone : c.channel.isWriting = false)
    (hempty : c.outputBuffer.readableBytes = 0) :
    ∃ x ∈ (c.writeDirect data len write).effects, x.isWrite = true := by
  unfold writeDirect
  rw [if_pos ⟨by rw [hnone]; rfl, hempty⟩]
  cases write with
  | ok n => exact ⟨_, List.mem_cons_self, rfl⟩
  | error failure => exact ⟨_, List.mem_cons_self, rfl⟩

theorem writeDirect_subset (h : c.sendInLoop data len write = .ok (e, c')) :
    (c.writeDirect data len write).effects ⊆ e := by
  obtain ⟨_, -, h⟩ := bind_eq_ok.mp h
  generalize c.writeDirect data len write = d at h ⊢
  split at h
  · obtain ⟨⟨queued, c''⟩, -, h⟩ := bind_eq_ok.mp h
    cases h
    exact List.subset_append_left ..
  · cases h
    exact List.Subset.refl _

theorem taken_eq_nil (h : ∀ x ∈ e, x.isWrite = false) : taken e = [] := by
  refine List.flatMap_eq_nil_iff.mpr fun x hx => ?_
  cases x with
  | wrote bytes => cases h _ hx
  | writeFailed | shutdownWrite | queueWriteComplete | queueHighWaterMark | connectionCallback
  | messageCallback | closeCallback => rfl

/-- Inert, and so idle. -/
theorem idle_of_inert (hsound : Sound s) (h : Calm s) (hc : s.closed = true)
    (hm : may s (.functor write)) (hs : step build s (.functor write) = .ok (e, s'))
    (hi : Inert s e s') : Quiet s (.functor write) := by
  intro _ f hf
  cases f with
  | shutdownInLoop => trivial
  | connectDestroyed => trivial
  | sendInLoop message =>
    have hhead : s.batch.head? = some (.sendInLoop message) := hf
    have hw : Fits message.len write := by
      obtain ⟨-, f, hf', hw⟩ := hm.2
      cases hhead.symm.trans hf'
      exact hw
    rw [functor_send hhead] at hs
    obtain ⟨data, hdata, hs⟩ := bind_eq_ok.mp hs
    obtain ⟨⟨e', c'⟩, hr, hs⟩ := bind_eq_ok.mp hs
    cases hs
    have hlen := Memory.load_length hdata
    have hkept : ¬ s.conn.Drops write := fun hdrop => by
      obtain ⟨errno, hrun⟩ := sendInLoop_refused hlen hdrop
      cases hr.symm.trans hrun
      cases hi.quiet _ List.mem_cons_self
    refine ⟨?_, fun hempty => ?_⟩
    · -- what it hands over is neither written nor buffered
      have hhands := sendInLoop_hands hsound.valid hlen hw hkept hr
      have hbuffer : c'.outputBuffer = s.conn.outputBuffer := hi.buffer
      rw [taken_eq_nil hi.quiet, hbuffer, List.nil_append] at hhands
      rw [← hlen, List.append_right_eq_self.mp hhands.symm]
      rfl
    · obtain ⟨x, hx, hwrites⟩ := writeDirect_writes data message.len write
        (isWriting_of_none (h.interest hc)) hempty
      cases hwrites.symm.trans (hi.quiet x (writeDirect_subset hr hx))

/-- **A closed connection is inert exactly while no send runs on it.** In any run in which
none has run since the close, the next step writes nothing, buffers nothing and leaves the
channel waiting for nothing, out of the poller once it is removed, if and only if it is
not such a send either. -/
theorem disconnected_inert {sockfd : Nat} {memory : Memory} {tr : List (Action × List Effect)}
    (h : ((machine build).only Quiet).Run (initial sockfd memory) tr s) (hc : s.closed = true)
    (hm : may s l) (hs : step build s l = .ok (e, s')) : Inert s e s' ↔ Quiet s l := by
  have hsound := sound_run h.of_only
  have hcalm : Calm s := by
    refine (h.preserves (I := fun s => Sound s ∧ Calm s) ?_
      ⟨sound_initial sockfd memory, calm_initial sockfd memory⟩).2
    exact fun _ _ _ _ hi hm hs => ⟨sound_step hi.1 hm.1 hs, calm_step hi.1 hi.2 hm.1 hm.2 hs⟩
  constructor
  · intro hi
    cases l with
    | functor write => exact idle_of_inert hsound hcalm hc hm hs hi
    | _ => trivial
  · exact fun hq => (inert_step hsound hcalm hc hm hq hs).1

instance (c : TcpConnection) : (f : Functor) → Decidable (f.Idle c)
  | .sendInLoop _ => inferInstanceAs (Decidable (_ ∧ _))
  | .shutdownInLoop | .connectDestroyed => inferInstanceAs (Decidable True)

instance (s : State) : (l : Action) → Decidable (Quiet s l)
  | .functor _ => inferInstanceAs (Decidable (s.closed = true → ∀ f ∈ s.batch.head?, f.Idle s.conn))
  | .setCloseCallback _ | .setWriteCompleteCallback _ | .setHighWaterMarkCallback _ _
  | .removeConnection | .shutdown | .connectEstablished | .checkShutdown | .handleEvent _
  | .callback _ | .doPendingFunctors | .checkSend _ _ | .send _ _ | .pushSend _
  | .storeShutdown | .pushShutdown | .store _ _ => inferInstanceAs (Decidable True)

/-- POLLHUP and POLLOUT at once: the connection is closed, and then `handleWrite` is called. -/
theorem disconnected_inert_hangup : ∃ tr s e s',
    ((machine .release).only Quiet).Run (initial 5 fun _ => some 65) tr s ∧ s.closed = true ∧
    s.dispatch = [.write] ∧ step .release s (.callback (.ok 0)) = .ok (e, s') ∧ Inert s e s' := by
  obtain ⟨tr, s, h, -, hc, hm, hwrite, hstep⟩ :=
    ((machine .release).only Quiet).exists_run_of_replay (s := initial 5 fun _ => some 65)
      (P := fun _ s => s.closed = true ∧ may s (.callback (.ok 0)) ∧ s.dispatch = [.write] ∧
        (step .release s (.callback (.ok 0))).toOption.isSome = true)
      [.connectEstablished, .send (.pointer 0 2) (.ok 1), .handleEvent (POLLHUP ||| POLLOUT),
        .callback (.ok 0)] (by decide +kernel)
  cases hs : step .release s (.callback (.ok 0)) with
  | error fault => simp [hs, Except.toOption] at hstep
  | ok r => exact ⟨tr, s, r.1, r.2, h, hc, hwrite, hs, (disconnected_inert h hc hm hs).mpr trivial⟩

/-- A send is tested before the hang-up and queued behind `connectDestroyed`: it writes to
the socket, buffers its byte and asks for POLLOUT on a channel that the poller has removed. -/
theorem disconnected_inert_late : ∃ tr s e s',
    (machine .release).Run (initial 5 fun _ => some 65) tr s ∧ s.closed = true ∧
    s.destroyed = true ∧ s.conn.disconnected = true ∧
    step .release s (.functor (.error ⟨.EAGAIN, .EAGAIN⟩)) = .ok (e, s') ∧ e = [.writeFailed [65] .EAGAIN] ∧
    s'.conn.outputBuffer.content = [65] ∧ s'.conn.channel.isWriting = true ∧
    s'.conn.registered = false ∧ ¬ Inert s e s' := by
  obtain ⟨tr, s, h, -, hc, hd, hstate, hstep⟩ :=
    (machine .release).exists_run_of_replay (s := initial 5 fun _ => some 65)
      (P := fun _ s => s.closed = true ∧ s.destroyed = true ∧ s.conn.disconnected = true ∧
        (step .release s (.functor (.error ⟨.EAGAIN, .EAGAIN⟩))).toOption.any (fun r =>
          r.1 = [.writeFailed [65] .EAGAIN] ∧ r.2.conn.outputBuffer.content = [65] ∧
            r.2.conn.channel.isWriting = true ∧ r.2.conn.registered = false) = true)
      [.connectEstablished, .checkSend (.pointer 0 1) [65], .handleEvent POLLHUP, .callback (.ok 0),
        .removeConnection, .pushSend ⟨0, 1, [65]⟩, .doPendingFunctors, .functor (.ok 0)]
      (by decide +kernel)
  cases hs : step .release s (.functor (.error ⟨.EAGAIN, .EAGAIN⟩)) with
  | error fault => simp [hs, Except.toOption] at hstep
  | ok r =>
    obtain ⟨e, s'⟩ := r
    simp only [hs, Except.toOption, Option.any_some, decide_eq_true_eq] at hstep
    obtain ⟨rfl, hcontent, hwriting, hregistered⟩ := hstep
    refine ⟨tr, s, _, s', h, hc, hd, hstate, hs, rfl, hcontent, hwriting, hregistered, fun hi => ?_⟩
    cases hi.quiet _ List.mem_cons_self

end Shared
end Leanet

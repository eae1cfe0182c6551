import Leanet.Tcp.Capture

/-! What a step hands over, and who half-closes.

A connection among threads that leave memory alone, where write(2) does not fail. Each step
takes bytes from the front of the output queue and adds the data of a send at its back
(`hands_step`); a half-close is made by `shutdown` or by `handleWrite` with nothing left in
the queue, or by `shutdownInLoop`, which may leave something only once the connection is
closed (`halfCloses_step`). -/
namespace Leanet.Shared
open TcpConnection
open LifeCycle (Fits Keeps)

/-- write(2) does not fail. -/
def Succeeds (s : State) : Action → Prop
  | .callback transfer => s.dispatch.head? = some .write → transfer.isOk = true
  | .functor write | .send _ write => write.isOk = true
  | _ => True

instance (s : State) : (l : Action) → Decidable (Succeeds s l)
  | .callback _ => inferInstanceAs (Decidable (_ → _))
  | .functor _ | .send _ _ => inferInstanceAs (Decidable (_ = _))
  | .setCloseCallback _ | .setWriteCompleteCallback _ | .setHighWaterMarkCallback _ _
  | .removeConnection | .shutdown | .connectEstablished | .checkShutdown | .handleEvent _
  | .doPendingFunctors | .checkSend _ _ | .pushSend _ | .storeShutdown | .pushShutdown
  | .store _ _ => inferInstanceAs (Decidable True)

variable {build : Build} {c c' : TcpConnection} {s s' : State} {l : Action} {e : List Effect}
  {data : List UInt8} {len : Nat} {write transfer : Transfer}

theorem returns_of_fits (hw : Fits len write) (hok : write.isOk = true) : Returns len write := by
  cases write with
  | ok n => exact hw
  | error failure => cases hok

/-- Nothing is given up where nothing fails. -/
theorem not_drops (hok : write.isOk = true) : ¬ c.Drops write := by
  cases write with
  | ok n => exact id
  | error failure => cases hok

/-- A send does not half-close. -/
theorem sendInLoop_quiet (hv : c.outputBuffer.Valid) (hlen : data.length = len) (hw : Fits len write)
    (h : c.sendInLoop data len write = .ok (e, c')) : .shutdownWrite ∉ e := by
  obtain ⟨r, hr, hspec⟩ := sendInLoop_spec hv (Nat.le_of_eq hlen.symm) hw.le
  obtain rfl := Except.ok.inj (hr.symm.trans h)
  exact hspec.effects _

theorem stream_new (sockfd : Nat) : Stream (.new sockfd) := by
  refine ⟨Buffer.initial_valid _, ?_⟩
  rw [show (TcpConnection.new sockfd).outputBuffer.content = [] from Buffer.initial_content _]
  simp [TcpConnection.new, Channel.isWriting, Channel.new, Channel.kNoneEvent]

/-- The connection, among threads that leave memory alone: while it is open, POLLOUT is waited
for exactly as long as there is something to write. -/
structure Steady (s : State) : Prop where
  sound : Sound s
  held : Held s
  stream : s.closed = false → Stream s.conn

theorem still_open {closed b : Bool} (h : (closed || b) = false) : closed = false :=
  (Bool.or_eq_false_iff.mp h).1

theorem runCallback_stream (h : Stream s.conn) {callback : Callback} {r : List Effect × TcpConnection}
    (hw : callback = .write → Returns s.conn.outputBuffer.readableBytes transfer)
    (hr : runCallback build s.conn transfer callback = .ok r)
    (hopen : r.2.disconnected = false) : Stream r.2 := by
  cases callback with
  | close =>
    rw [disconnected, (handleCloseIn_closes hr).state] at hopen
    cases hopen
  | error =>
    cases hr
    exact h
  | read =>
    cases transfer with
    | error failure =>
      cases hr
      exact h
    | ok n =>
      simp only [runCallback, handleReadIn] at hr
      split at hr
      · cases hr
        exact h
      · rw [disconnected, (handleCloseIn_closes hr).state] at hopen
        cases hopen
  | write =>
    obtain ⟨e, c', hrun, hsends⟩ := handleWrite_sends h (hw rfl)
    cases hrun.symm.trans hr
    exact hsends.stream

theorem runFunctor_stream (h : Stream s.conn) {f : Functor} {r : List Effect × TcpConnection}
    (hw : Fits f.len write) (hok : write.isOk = true)
    (hr : runFunctor build s.memory s.conn write f = .ok r)
    (hopen : r.2.disconnected = false) : Stream r.2 := by
  cases f with
  | sendInLoop message =>
    obtain ⟨data, hdata, hr⟩ := bind_eq_ok.mp hr
    obtain ⟨e, c', hrun, hsends⟩ := sendInLoop_sends h
      (Nat.le_of_eq (Memory.load_length hdata).symm) (returns_of_fits hw hok) (not_drops hok)
    cases hrun.symm.trans hr
    exact hsends.stream
  | shutdownInLoop =>
    cases hr
    exact (shutdownInLoop_sends h).stream
  | connectDestroyed =>
    rw [disconnected, (connectDestroyedIn_closes hr).1.state] at hopen
    cases hopen

theorem stream_step (h : Steady s) (hm : may s l) (hok : Succeeds s l)
    (hs : step build s l = .ok (e, s')) (hopen : s'.closed = false) : Stream s'.conn := by
  cases l with
  | setCloseCallback | setWriteCompleteCallback | setHighWaterMarkCallback | handleEvent
  | doPendingFunctors | removeConnection | checkSend | pushSend | checkShutdown | storeShutdown
  | pushShutdown | store =>
    cases hs
    have hstream := h.stream hopen
    exact ⟨hstream.valid, hstream.writing⟩
  | connectEstablished =>
    obtain ⟨r, hr, hs⟩ := bind_eq_ok.mp hs
    obtain ⟨_, -, hr⟩ := bind_eq_ok.mp hr
    cases hr
    cases hs
    have hstream := h.stream (still_open hopen)
    refine ⟨hstream.valid, Iff.trans ?_ hstream.writing⟩
    rw [← Channel.isWriting_enableReading s.conn.channel]
    exact Iff.rfl
  | callback transfer =>
    obtain ⟨callback, hhead, hs⟩ := bind_eq_ok.mp hs
    obtain ⟨r, hr, hs⟩ := bind_eq_ok.mp hs
    cases hs
    obtain ⟨hbefore, hopen⟩ := Bool.or_eq_false_iff.mp hopen
    refine runCallback_stream (h.stream hbefore) (fun hw => ?_) hr hopen
    have hwrite : s.dispatch.head? = some .write := by rw [deref_eq_ok.mp hhead, hw]
    exact returns_of_fits (hm.2.2 hwrite) (hok hwrite)
  | functor write =>
    obtain ⟨f, r, -, hw, hr, heq⟩ := functor_runs hm hs
    cases heq
    obtain ⟨hbefore, hopen⟩ := Bool.or_eq_false_iff.mp hopen
    exact runFunctor_stream (h.stream hbefore) hw hok hr hopen
  | send argument write =>
    obtain ⟨-, data, r, hdata, hr, heq⟩ | ⟨-, heq⟩ := send_runs hs
    · cases heq
      obtain ⟨e, c', hrun, hsends⟩ := sendInLoop_sends (h.stream (still_open hopen))
        (Nat.le_of_eq (Memory.load_length hdata).symm) (returns_of_fits hm.2 hok) (not_drops hok)
      cases hrun.symm.trans hr
      exact hsends.stream
    · cases heq
      exact h.stream hopen
  | shutdown =>
    cases hs
    exact (shutdown_sends (h.stream (still_open hopen))).stream

theorem steady_step (h : Steady s) (hm : may s l) (hok : Succeeds s l)
    (hkept : Untouched s l) (hs : step build s l = .ok (e, s')) : Steady s' :=
  ⟨sound_step h.sound hm hs, held_step h.held hm hkept hs, stream_step h hm hok hs⟩

/-- What a step hands to write(2) or to the output queue: the data of a send. -/
def handed (s : State) : Action → List UInt8
  | .send argument _ =>
    match s.conn.connected, s.memory.load argument.message argument.len with
    | true, .ok data => data
    | _, _ => []
  | .functor _ =>
    match s.batch.head? with
    | some (.sendInLoop message) => message.held
    | _ => []
  | _ => []

theorem closes_hands {r : List Effect × TcpConnection} (h : Closes c r) :
    taken r.1 ++ r.2.outputBuffer.content = c.outputBuffer.content ∧ .shutdownWrite ∉ r.1 := by
  have hnone : taken r.1 = [] := List.flatMap_eq_nil_iff.mpr fun x hx => by
    rcases h.quiet x hx with rfl | rfl <;> rfl
  refine ⟨by rw [hnone, h.buffer, List.nil_append], fun hx => ?_⟩
  rcases h.quiet _ hx with hx | hx <;> cases hx

/-- A callback hands over the front of the output queue, and half-closes at its end only. -/
theorem runCallback_hands (hv : s.conn.outputBuffer.Valid) {callback : Callback}
    {r : List Effect × TcpConnection}
    (hw : callback = .write → Fits s.conn.outputBuffer.readableBytes transfer)
    (hr : runCallback build s.conn transfer callback = .ok r) :
    taken r.1 ++ r.2.outputBuffer.content = s.conn.outputBuffer.content ∧
    (.shutdownWrite ∈ r.1 → r.2.outputBuffer.content = []) := by
  cases callback with
  | close =>
    obtain ⟨hbytes, hnever⟩ := closes_hands (handleCloseIn_closes hr)
    exact ⟨hbytes, fun hx => absurd hx hnever⟩
  | error =>
    cases hr
    exact ⟨rfl, by simp [handleError]⟩
  | read =>
    cases transfer with
    | error failure =>
      cases hr
      exact ⟨rfl, by simp [handleError]⟩
    | ok n =>
      simp only [runCallback, handleReadIn] at hr
      split at hr
      · cases hr
        exact ⟨rfl, by simp⟩
      · obtain ⟨hbytes, hnever⟩ := closes_hands (handleCloseIn_closes hr)
        exact ⟨hbytes, fun hx => absurd hx hnever⟩
  | write => exact handleWrite_bytes hv (hw rfl).le hr

theorem shutdownInLoop_hands (c : TcpConnection) :
    taken c.shutdownInLoop.1 = [] ∧ c.shutdownInLoop.2 = c ∧
    (.shutdownWrite ∈ c.shutdownInLoop.1 → c.channel.isWriting = false) := by
  unfold shutdownInLoop
  cases hw : c.channel.isWriting <;> simp [taken, Effect.taken]

/-- The functor at the head, of a send: the memory is as it was at the call. -/
theorem Steady.head_held (h : Steady s) {message : Message}
    (hhead : s.batch.head? = some (.sendInLoop message)) :
    s.memory.load message.data message.len = .ok message.held := by
  refine h.held message (List.mem_append_right _ (List.mem_filterMap.mpr
    ⟨.sendInLoop message, List.mem_append_left _ ?_, rfl⟩))
  exact List.mem_of_mem_head? (Option.mem_def.mpr hhead)

/-- **One step, in bytes**: what it takes from the front and what it adds at the back. -/
theorem hands_step (h : Steady s) (hm : may s l) (hok : Succeeds s l)
    (hs : step build s l = .ok (e, s')) :
    taken e ++ s'.conn.outputBuffer.content = s.conn.outputBuffer.content ++ handed s l := by
  have hv := h.sound.valid
  cases l with
  | setCloseCallback | setWriteCompleteCallback | setHighWaterMarkCallback | handleEvent
  | doPendingFunctors | removeConnection | checkSend | pushSend | checkShutdown | storeShutdown
  | pushShutdown | store =>
    cases hs
    simp [taken, handed, setState]
  | connectEstablished =>
    obtain ⟨r, hr, hs⟩ := bind_eq_ok.mp hs
    obtain ⟨_, -, hr⟩ := bind_eq_ok.mp hr
    cases hr
    cases hs
    simp [taken, handed, Effect.taken, setState]
  | callback transfer =>
    obtain ⟨callback, r, hw, hr, heq⟩ := callback_runs hm hs
    cases heq
    simp only [handed, List.append_nil]
    exact (runCallback_hands hv hw hr).1
  | functor write =>
    obtain ⟨f, r, hhead, hw, hr, heq⟩ := functor_runs hm hs
    cases heq
    cases f with
    | sendInLoop message =>
      obtain ⟨data, hdata, hr⟩ := bind_eq_ok.mp hr
      obtain rfl := Except.ok.inj ((h.head_held hhead).symm.trans hdata)
      simp only [handed, hhead]
      exact sendInLoop_hands hv (Memory.load_length hdata) hw (not_drops hok) hr
    | shutdownInLoop =>
      cases hr
      obtain ⟨htaken, hsame, -⟩ := shutdownInLoop_hands s.conn
      simp [handed, hhead, htaken, hsame]
    | connectDestroyed =>
      simp only [handed, hhead, List.append_nil]
      exact (closes_hands (connectDestroyedIn_closes hr).1).1
  | send argument write =>
    obtain ⟨hup, data, r, hdata, hr, heq⟩ | ⟨hdown, heq⟩ := send_runs hs
    · cases heq
      simp only [handed, hup, hdata]
      exact sendInLoop_hands hv (Memory.load_length hdata) hm.2 (not_drops hok) hr
    · cases heq
      simp [taken, handed, hdown]
  | shutdown =>
    cases hs
    simp only [handed, List.append_nil]
    unfold TcpConnection.shutdown
    split
    · obtain ⟨htaken, hsame, -⟩ := shutdownInLoop_hands (s.conn.setState .kDisconnecting)
      simp only [htaken, hsame, List.nil_append]
      rfl
    · simp [taken]

/-- Who half-closes, and what is left in the output queue then. -/
inductive HalfCloses (s s' : State) : Action → Prop where
  | shutdown (nil : s'.conn.outputBuffer.content = []) : HalfCloses s s' .shutdown
  | handleWrite (transfer : Transfer) (nil : s'.conn.outputBuffer.content = []) :
    HalfCloses s s' (.callback transfer)
  | shutdownInLoop (write : Transfer) (head : s.batch.head? = some .shutdownInLoop)
    (nil : s.closed = false → s.conn.outputBuffer.content = []) : HalfCloses s s' (.functor write)

/-- POLLOUT not waited for: all is written, if the connection is open. -/
theorem Steady.nil_of_idle (h : Steady s) (hopen : s.closed = false)
    (hidle : s.conn.channel.isWriting = false) : s.conn.outputBuffer.content = [] := by
  by_contra hne
  rw [(h.stream hopen).writing.mpr hne] at hidle
  cases hidle

theorem halfCloses_step (h : Steady s) (hm : may s l)
    (hs : step build s l = .ok (e, s')) (hhalf : .shutdownWrite ∈ e) :
    HalfCloses s s' l := by
  have hv := h.sound.valid
  cases l with
  | setCloseCallback | setWriteCompleteCallback | setHighWaterMarkCallback | handleEvent
  | doPendingFunctors | removeConnection | checkSend | pushSend | checkShutdown | storeShutdown
  | pushShutdown | store =>
    cases hs
    cases hhalf
  | connectEstablished =>
    obtain ⟨r, hr, hs⟩ := bind_eq_ok.mp hs
    obtain ⟨_, -, hr⟩ := bind_eq_ok.mp hr
    cases hr
    cases hs
    simp at hhalf
  | callback transfer =>
    obtain ⟨callback, r, hw, hr, heq⟩ := callback_runs hm hs
    cases heq
    exact .handleWrite transfer ((runCallback_hands hv hw hr).2 hhalf)
  | functor write =>
    obtain ⟨f, r, hhead, hw, hr, heq⟩ := functor_runs hm hs
    cases heq
    cases f with
    | sendInLoop message =>
      obtain ⟨data, hdata, hr⟩ := bind_eq_ok.mp hr
      exact absurd hhalf (sendInLoop_quiet hv (Memory.load_length hdata) hw hr)
    | shutdownInLoop =>
      cases hr
      obtain ⟨-, -, hidle⟩ := shutdownInLoop_hands s.conn
      exact .shutdownInLoop write hhead fun hopen => h.nil_of_idle hopen (hidle hhalf)
    | connectDestroyed =>
      exact absurd hhalf (closes_hands (connectDestroyedIn_closes hr).1).2
  | send argument write =>
    obtain ⟨-, data, r, hdata, hr, heq⟩ | ⟨-, heq⟩ := send_runs hs
    · cases heq
      exact absurd hhalf (sendInLoop_quiet hv (Memory.load_length hdata) hm.2 hr)
    · cases heq
      cases hhalf
  | shutdown =>
    cases hs
    refine .shutdown ?_
    unfold TcpConnection.shutdown at hhalf ⊢
    split at hhalf
    · next hup =>
      have hopen : s.closed = false := by
        rw [← Bool.not_eq_true]
        intro hc
        have := (h.sound.closed hc).2
        rw [connected, hup] at this
        cases this
      obtain ⟨-, hsame, hidle⟩ := shutdownInLoop_hands (s.conn.setState .kDisconnecting)
      rw [if_pos hup]
      simp only [hsame]
      exact h.nil_of_idle hopen (hidle hhalf)
    · cases hhalf

end Leanet.Shared

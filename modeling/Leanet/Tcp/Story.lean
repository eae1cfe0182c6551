import Leanet.Tcp.Round

/-! The story of a connection.

What the application sees of a connection is a story with one end (`told`): up, messages, closed,
down. At each stage of it the connection and the loop's queue are in a known state (`State.At`),
and every step leads from a stage to a stage.

One mask breaks it. POLLHUP without POLLIN closes the connection, and if POLLPRI came along the
same `handleEvent` goes on to read: what is read is a message after the close, the end of the
stream a second close (`closesOnce_iff`). -/
namespace Leanet.Round
open TcpConnection
open LifeCycle (Fits Open)

inductive Stage where
  | fresh
  | up
  | closed
  | gone
  deriving DecidableEq

/-- What has been seen at a stage, with `n` messages. -/
def told (n : Nat) : Stage → List Event
  | .fresh => []
  | .up => .connection true :: List.replicate n .message
  | .closed => .connection true :: List.replicate n .message ++ [.close]
  | .gone => .connection true :: List.replicate n .message ++ [.close, .connection false, .destroyed]

theorem closesOnce_told (n : Nat) (stage : Stage) :
    ClosesOnce (decide (stage ≠ .fresh)) (told n stage) := by
  cases stage with
  | fresh => exact ⟨by simp [told], .nil, by simp [told], rfl, by simp [told], .nil⟩
  | up | closed | gone =>
    constructor <;> simp [told, List.count_replicate, List.pairwise_append, List.pairwise_replicate]

/-- The functors queued in the loop. -/
def State.queued (s : State) : List Functor :=
  match s.phase with
  | .draining batch => batch ++ s.pendingFunctors
  | _ => s.pendingFunctors

/-- The state of the connection and the loop at a stage. A connection that is up makes the close
callback first if it has to; one that is closed makes it no more, and reads only behind it. -/
def State.At (s : State) : Stage → Prop
  | .fresh => s.started = false ∧ s.phase = .polling ∧ .connectDestroyed ∉ s.queued
  | .up => s.started = true ∧ Open s.conn ∧ .connectDestroyed ∉ s.queued ∧
    ∀ dispatch, s.phase = .handling dispatch → dispatch.Nodup ∧
      (.close ∈ dispatch → Hangup s.conn.channel) ∧
      (Hangup s.conn.channel → dispatch.head? = some .close)
  | .closed => s.started = true ∧ s.conn.state = .kDisconnected ∧
    s.queued.count .connectDestroyed = 1 ∧
    ((∃ dispatch, s.phase = .handling dispatch ∧ .close ∉ dispatch ∧
        (.read ∈ dispatch → Hangup s.conn.channel)) ∨
      ∃ batch, s.phase = .draining batch ∧ .connectDestroyed ∈ batch)
  | .gone => s.started = true ∧ s.conn.state = .kDisconnected ∧ s.conn.registered = false ∧
    .connectDestroyed ∉ s.queued ∧ ∀ dispatch, s.phase ≠ .handling dispatch

variable {s s' : State} {stage : Stage} {l : Action} {e : List Event}
  {r : List Effect × TcpConnection} {transfer : Transfer}

/-! ### From stage to stage -/

/-- What holds at every stage. -/
structure Sound (s : State) : Prop where
  valid : s.conn.outputBuffer.Valid
  callback : s.conn.closeCallback = true

theorem sound_initial (sockfd : Nat) : Sound (initial sockfd) := ⟨Buffer.initial_valid _, rfl⟩

theorem told_message (n : Nat) : told n .up ++ [.message] = told (n + 1) .up := by
  rw [told, told, List.replicate_succ', List.cons_append]

theorem told_close (n : Nat) : told n .up ++ [.close] = told n .closed := rfl

theorem told_gone (n : Nat) : told n .closed ++ [.connection false, .destroyed] = told n .gone := by
  simp [told]

theorem queued_perform (s : State) (r : List Effect × TcpConnection) :
    (s.perform r).2.queued = s.queued ++ r.1.filterMap Functor.of := by
  unfold State.queued State.perform
  cases s.phase <;> simp

theorem hangup_congr {c c' : Channel} (h : c'.receivedEvents = c.receivedEvents) :
    Hangup c' ↔ Hangup c := by
  rw [Hangup, Hangup, h]

theorem Sound.silent (h : Sound s) (hr : Silent s.conn r) : Sound (s.perform r).2 :=
  ⟨hr.keeps.valid, hr.callback.trans h.callback⟩

theorem State.At.silent (h : s.At stage) (hr : Silent s.conn r) (hstage : stage ≠ .gone) :
    (s.perform r).2.At stage := by
  have hnone : (s.perform r).2.queued.count .connectDestroyed = s.queued.count .connectDestroyed := by
    rw [queued_perform, List.count_append, List.count_eq_zero.mpr hr.functors, Nat.add_zero]
  have hqueued : .connectDestroyed ∉ s.queued → .connectDestroyed ∉ (s.perform r).2.queued := by
    rw [← List.count_eq_zero, ← List.count_eq_zero, hnone]
    exact id
  have hhangup := hangup_congr hr.received
  cases stage with
  | fresh => exact ⟨h.1, h.2.1, hqueued h.2.2⟩
  | up =>
    obtain ⟨hstarted, hopen, hq, hdispatch⟩ := h
    refine ⟨hstarted, ?_, hqueued hq, fun dispatch hd => ?_⟩
    · show r.2.state = .kConnected ∨ r.2.state = .kDisconnecting
      rw [hr.keeps.state]
      exact hopen
    · obtain ⟨hnodup, hclose, hfirst⟩ := hdispatch dispatch hd
      exact ⟨hnodup, fun hc => hhangup.mpr (hclose hc), fun hh => hfirst (hhangup.mp hh)⟩
  | closed =>
    obtain ⟨hstarted, hstate, hq, hphase⟩ := h
    refine ⟨hstarted, hr.keeps.state.trans hstate, hnone.trans hq, ?_⟩
    rcases hphase with ⟨dispatch, hd, hclose, hread⟩ | hdraining
    · exact .inl ⟨dispatch, hd, hclose, fun hmem => hhangup.mpr (hread hmem)⟩
    · exact .inr hdraining
  | gone => exact absurd rfl hstage

/-- A callback other than the close callback is over. -/
theorem State.At.next (h : s.At stage) {callback : Callback} {rest : List Callback}
    (hphase : s.phase = .handling (callback :: rest)) (hne : callback ≠ .close) :
    ({ s with phase := .handling rest } : State).At stage ∧ (stage = .up ∨ stage = .closed) := by
  have hqueued : ({ s with phase := .handling rest } : State).queued = s.queued := by
    simp only [State.queued, hphase]
  cases stage with
  | fresh => cases hphase.symm.trans h.2.1
  | up =>
    obtain ⟨hstarted, hopen, hq, hdispatch⟩ := h
    refine ⟨⟨hstarted, hopen, hqueued ▸ hq, fun dispatch hd => ?_⟩, .inl rfl⟩
    cases hd
    obtain ⟨hnodup, hclose, hfirst⟩ := hdispatch _ hphase
    have hnot : ¬ Hangup s.conn.channel := fun hh => hne (Option.some.inj (hfirst hh))
    exact ⟨hnodup.of_cons, fun hc => hclose (List.mem_cons_of_mem _ hc), fun hh => absurd hh hnot⟩
  | closed =>
    obtain ⟨hstarted, hstate, hq, ⟨dispatch, hd, hclose, hread⟩ | ⟨batch, hb, -⟩⟩ := h
    · cases hphase.symm.trans hd
      refine ⟨⟨hstarted, hstate, hqueued ▸ hq, .inl ⟨rest, rfl, ?_, ?_⟩⟩, .inr rfl⟩
      · exact fun hc => hclose (List.mem_cons_of_mem _ hc)
      · exact fun hr => hread (List.mem_cons_of_mem _ hr)
    · cases hphase.symm.trans hb
  | gone => exact absurd hphase (h.2.2.2.2 _)

/-- The connection is closed by the callback before these. -/
theorem State.At.close (h : s.At .up) {callback : Callback} {rest : List Callback}
    (hphase : s.phase = .handling (callback :: rest)) (hclose : .close ∉ rest)
    (hread : .read ∈ rest → Hangup s.conn.channel) :
    (({ s with phase := .handling rest } : State).perform
      ([.closeCallback], (s.conn.setState .kDisconnected).setInterest .disableAll)).2.At .closed := by
  obtain ⟨hstarted, -, hq, -⟩ := h
  have hqueued : ({ s with phase := .handling rest } : State).queued = s.queued := by
    simp only [State.queued, hphase]
  refine ⟨hstarted, rfl, ?_, .inl ⟨rest, rfl, hclose, hread⟩⟩
  rw [queued_perform, hqueued, List.count_append, List.count_eq_zero.mpr hq]
  rfl

/-- What is told of a step, and where it leads. -/
def Tells (n : Nat) (stage : Stage) (e : List Event) (s' : State) : Prop :=
  Sound s' ∧ ∃ stage' n', told n stage ++ e = told n' stage' ∧ s'.At stage'

theorem tells_silent (hsound : Sound s) (h : s.At stage) (n : Nat) {callback : Callback}
    {rest : List Callback} (hphase : s.phase = .handling (callback :: rest)) (hne : callback ≠ .close)
    (hr : Silent s.conn r) (heq : (e, s') = ({ s with phase := .handling rest } : State).perform r) :
    Tells n stage e s' := by
  obtain ⟨hnext, hstage⟩ := h.next hphase hne
  have hgone : stage ≠ .gone := by
    rintro rfl
    simp at hstage
  obtain ⟨rfl, rfl⟩ := Prod.mk.inj heq
  have hsound' : Sound ({ s with phase := .handling rest } : State) := ⟨hsound.valid, hsound.callback⟩
  refine ⟨hsound'.silent hr, stage, n, ?_, hnext.silent hr hgone⟩
  show told n stage ++ r.1.filterMap (Event.of r.2.connected) = told n stage
  rw [hr.events, List.append_nil]

/-- `handleClose` from a connection that is up. -/
theorem tells_close (hsound : Sound s) (h : s.At .up) (n : Nat) {callback : Callback}
    {rest : List Callback} (hphase : s.phase = .handling (callback :: rest)) (hclose : .close ∉ rest)
    (hread : .read ∈ rest → Hangup s.conn.channel) (hr : s.conn.handleCloseIn .release = .ok r)
    (heq : (e, s') = ({ s with phase := .handling rest } : State).perform r) : Tells n .up e s' := by
  rw [handleCloseIn_release hsound.callback] at hr
  cases hr
  cases heq
  exact ⟨⟨hsound.valid, hsound.callback⟩, .closed, n, told_close n, h.close hphase hclose hread⟩

/-- A callback at a stage, reads failing where they have to. -/
theorem callback_at (hsound : Sound s) (h : s.At stage) (n : Nat) (hm : may s (.callback transfer))
    (hf : Fails s (.callback transfer)) (hs : step s (.callback transfer) = .ok (e, s')) :
    Tells n stage e s' := by
  obtain ⟨callback, rest, r, hphase, hfits, hr, heq⟩ := callback_runs hm hs
  cases callback with
  | close =>
    cases stage with
    | fresh => cases hphase.symm.trans h.2.1
    | up =>
      obtain ⟨hnodup, hclose, -⟩ := h.2.2.2 _ hphase
      exact tells_close hsound h n hphase (List.nodup_cons.mp hnodup).1
        (fun _ => hclose List.mem_cons_self) hr heq
    | closed =>
      obtain ⟨-, -, -, ⟨dispatch, hd, hclose, -⟩ | ⟨batch, hb, -⟩⟩ := h
      · cases hphase.symm.trans hd
        exact absurd List.mem_cons_self hclose
      · cases hphase.symm.trans hb
    | gone => exact absurd hphase (h.2.2.2.2 _)
  | error =>
    cases hr
    exact tells_silent hsound h n hphase (by simp) (silent_nil hsound.valid) heq
  | write =>
    exact tells_silent hsound h n hphase (by simp) (handleWrite_silent hsound.valid (hfits rfl) hr) heq
  | read =>
    cases transfer with
    | error errno =>
      cases hr
      exact tells_silent hsound h n hphase (by simp) (silent_nil hsound.valid) heq
    | ok k =>
      obtain ⟨hnext, rfl | rfl⟩ := h.next hphase (by simp)
      · obtain ⟨hnodup, hclose, hfirst⟩ := h.2.2.2 _ hphase
        simp only [Shared.runCallback, handleReadIn] at hr
        split at hr
        · cases hr
          cases heq
          exact ⟨⟨hsound.valid, hsound.callback⟩, .up, n + 1, told_message n,
            hnext.silent (r := ([], s.conn)) (silent_nil hsound.valid) (by simp)⟩
        · refine tells_close hsound h n hphase (fun hc => ?_) (fun hmem => ?_) hr heq
          · cases hfirst (hclose (List.mem_cons_of_mem _ hc))
          · exact absurd hmem (List.nodup_cons.mp hnodup).1
      · have hhangup : Hangup s.conn.channel := by
          obtain ⟨-, -, -, ⟨dispatch, hd, -, hread⟩ | ⟨batch, hb, -⟩⟩ := h
          · cases hphase.symm.trans hd
            exact hread List.mem_cons_self
          · cases hphase.symm.trans hb
        have hfailed := hf (by rw [State.next, hphase]; rfl) hhangup
        cases hfailed

@[simp] theorem queued_drain (s : State) (rest : List Functor) :
    ({ s with phase := .drain rest } : State).queued = rest ++ s.pendingFunctors := by
  cases rest <;> rfl

theorem drain_ne_handling (rest : List Functor) (dispatch : List Callback) :
    Phase.drain rest ≠ .handling dispatch := by
  cases rest <;> simp [Phase.drain]

theorem drain_of_mem {f : Functor} {rest : List Functor} (h : f ∈ rest) :
    Phase.drain rest = .draining rest := by
  cases rest with
  | nil => cases h
  | cons => rfl

/-- A functor of the application is over. -/
theorem State.At.drained (h : s.At stage) {f : Functor} {rest : List Functor}
    (hphase : s.phase = .draining (f :: rest)) (hne : f ≠ .connectDestroyed) :
    ({ s with phase := .drain rest } : State).At stage := by
  have hqueued : s.queued = f :: (rest ++ s.pendingFunctors) := by
    simp only [State.queued, hphase, List.cons_append]
  have hrest : .connectDestroyed ∉ s.queued →
      .connectDestroyed ∉ ({ s with phase := .drain rest } : State).queued := by
    rw [hqueued, queued_drain, List.mem_cons, not_or]
    exact And.right
  cases stage with
  | fresh => cases hphase.symm.trans h.2.1
  | up =>
    obtain ⟨hstarted, hopen, hq, -⟩ := h
    exact ⟨hstarted, hopen, hrest hq, fun dispatch hd => absurd hd (drain_ne_handling rest dispatch)⟩
  | closed =>
    obtain ⟨hstarted, hstate, hq, ⟨dispatch, hd, -⟩ | ⟨batch, hb, hmem⟩⟩ := h
    · cases hphase.symm.trans hd
    · cases hphase.symm.trans hb
      have hmem := (List.mem_cons.mp hmem).resolve_left (Ne.symm hne)
      rw [hqueued, List.count_cons_of_ne hne] at hq
      exact ⟨hstarted, hstate, by rw [queued_drain, hq], .inr ⟨rest, drain_of_mem hmem, hmem⟩⟩
  | gone =>
    obtain ⟨hstarted, hstate, hregistered, hq, -⟩ := h
    exact ⟨hstarted, hstate, hregistered, hrest hq, drain_ne_handling rest⟩

/-- A functor of the batch at a stage. -/
theorem functor_at (hsound : Sound s) (h : s.At stage) (n : Nat) (hm : may s .functor)
    (hs : step s .functor = .ok (e, s')) : Tells n stage e s' := by
  obtain ⟨f, rest, r, es, hphase, hr, heq, rfl⟩ := functor_runs hm hs
  by_cases hf : f = .connectDestroyed
  · subst hf
    have hqueued : s.queued = .connectDestroyed :: (rest ++ s.pendingFunctors) := by
      simp only [State.queued, hphase, List.cons_append]
    have hmem : .connectDestroyed ∈ s.queued := hqueued ▸ List.mem_cons_self
    rw [runFunctor, connectDestroyedIn_release] at hr
    cases hr
    obtain rfl : s' = _ := congrArg Prod.snd heq
    obtain rfl : es = _ := congrArg Prod.fst heq
    cases stage with
    | fresh => exact absurd hmem h.2.2
    | up => exact absurd hmem h.2.2.1
    | gone => exact absurd hmem h.2.2.2.1
    | closed =>
      obtain ⟨hstarted, -, hq, -⟩ := h
      rw [hqueued, List.count_cons_self, Nat.add_eq_right, List.count_eq_zero] at hq
      refine ⟨⟨hsound.valid, hsound.callback⟩, .gone, n, told_gone n, hstarted, rfl, rfl, ?_,
        drain_ne_handling rest⟩
      rw [queued_perform, queued_drain]
      simpa [Functor.of] using hq
  · have hnil : r = ([], s.conn) := by
      cases f with
      | connectDestroyed => exact absurd rfl hf
      | writeCompleteCallback | highWaterMarkCallback =>
        cases hr
        rfl
    subst hnil
    cases heq.trans (perform_nil { s with phase := .drain rest })
    rw [if_neg hf]
    exact ⟨⟨hsound.valid, hsound.callback⟩, stage, n, List.append_nil _, h.drained hphase hf⟩

/-- A step that does not touch what a stage is. -/
theorem State.At.still (h : s.At stage) (hstarted : s'.started = s.started)
    (hstate : s'.conn.state = s.conn.state) (hregistered : s'.conn.registered = s.conn.registered)
    (hreceived : s'.conn.channel.receivedEvents = s.conn.channel.receivedEvents)
    (hphase : s'.phase = s.phase) (hpending : s'.pendingFunctors = s.pendingFunctors) :
    s'.At stage := by
  have hqueued : s'.queued = s.queued := by rw [State.queued, State.queued, hphase, hpending]
  have hopen : Open s'.conn ↔ Open s.conn := by rw [Open, Open, hstate]
  have hhangup := hangup_congr hreceived
  cases stage with
  | fresh => rwa [State.At, hstarted, hphase, hqueued]
  | up => rwa [State.At, hstarted, hphase, hqueued, hopen, hhangup]
  | closed => rwa [State.At, hstarted, hstate, hphase, hqueued, hhangup]
  | gone => rwa [State.At, hstarted, hstate, hregistered, hphase, hqueued]

/-- `shutdown` half-closes a connection that is up, and no other. -/
theorem shutdown_at (hsound : Sound s) (h : s.At stage) (n : Nat)
    (heq : (e, s') = s.perform s.conn.shutdown) (hstarted : s.started = true) : Tells n stage e s' := by
  unfold TcpConnection.shutdown at heq
  split at heq
  · next hup =>
    cases stage with
    | fresh => cases hstarted.symm.trans h.1
    | closed => cases hup.symm.trans h.2.1
    | gone => cases hup.symm.trans h.2.1
    | up =>
      obtain ⟨-, -, hq, hdispatch⟩ := h
      have hhalf : ({ s with conn := s.conn.setState .kDisconnecting } : State).At .up :=
        ⟨hstarted, .inr rfl, hq, hdispatch⟩
      have hr := shutdownInLoop_silent (c := s.conn.setState .kDisconnecting) hsound.valid
      obtain rfl : s' = _ := congrArg Prod.snd heq
      obtain rfl : e = _ := congrArg Prod.fst heq
      refine ⟨⟨hr.keeps.valid, hr.callback.trans hsound.callback⟩, .up, n, ?_,
        hhalf.silent (r := (s.conn.setState .kDisconnecting).shutdownInLoop) hr (by simp)⟩
      exact (congrArg _ (hr.events _)).trans (List.append_nil _)
  · cases heq.trans (perform_nil s)
    exact ⟨hsound, stage, n, List.append_nil _, h⟩

/-- `doPendingFunctors` takes over what is queued, `connectDestroyed` with it. -/
theorem doPendingFunctors_at (hsound : Sound s) (h : s.At stage) (n : Nat)
    (hm : may s .doPendingFunctors) (hs : step s .doPendingFunctors = .ok (e, s')) :
    Tells n stage e s' := by
  have hhandled : s.phase = .polling ∨ s.phase = .handling [] := by
    have hhandled : s.phase.isHandled = true := hm.2
    simpa [Phase.isHandled] using hhandled
  have hqueued : s.queued = s.pendingFunctors := by
    rcases hhandled with hphase | hphase <;> simp only [State.queued, hphase]
  cases hs
  refine ⟨⟨hsound.valid, hsound.callback⟩, stage, n, List.append_nil _, ?_⟩
  have hqueued' : ({ s with phase := .drain s.pendingFunctors, pendingFunctors := [] } : State).queued =
      s.queued := by
    rw [hqueued]
    exact (queued_drain { s with pendingFunctors := [] } _).trans (List.append_nil _)
  cases stage with
  | fresh => cases (hm.1 rfl).symm.trans h.1
  | up =>
    obtain ⟨hstarted, hopen, hq, -⟩ := h
    exact ⟨hstarted, hopen, hqueued' ▸ hq, fun dispatch hd => absurd hd (drain_ne_handling _ _)⟩
  | closed =>
    obtain ⟨hstarted, hstate, hq, -⟩ := h
    have hmem : .connectDestroyed ∈ s.pendingFunctors := by
      rw [← hqueued, ← List.count_pos_iff, hq]
      exact Nat.one_pos
    exact ⟨hstarted, hstate, hqueued' ▸ hq, .inr ⟨_, drain_of_mem hmem, hmem⟩⟩
  | gone =>
    obtain ⟨hstarted, hstate, hregistered, hq, -⟩ := h
    exact ⟨hstarted, hstate, hregistered, hqueued' ▸ hq, drain_ne_handling _⟩

/-- **One step at a stage**, reads failing where they have to. -/
theorem step_at (hsound : Sound s) (h : s.At stage) (n : Nat) (hm : may s l) (hf : Fails s l)
    (hs : step s l = .ok (e, s')) : Tells n stage e s' := by
  cases l with
  | setWriteCompleteCallback | setHighWaterMarkCallback =>
    cases hs
    exact ⟨⟨hsound.valid, hsound.callback⟩, stage, n, List.append_nil _,
      h.still rfl rfl rfl rfl rfl rfl⟩
  | connectEstablished =>
    cases stage with
    | fresh =>
      rw [step, connectEstablishedIn_release] at hs
      cases hs
      obtain ⟨-, hphase, hq⟩ := h
      refine ⟨⟨hsound.valid, hsound.callback⟩, .up, 0, rfl, rfl, .inl rfl, ?_, fun dispatch hd => ?_⟩
      · simpa [State.queued, hphase, Functor.of] using hq
      · cases hphase.symm.trans hd
    | up | closed | gone => cases h.1.symm.trans hm.2
  | handleEvent revents =>
    obtain ⟨hstarted, hphase, hregistered, -⟩ := hm
    cases hs
    cases stage with
    | fresh => cases (hstarted rfl).symm.trans h.1
    | up =>
      obtain ⟨-, hopen, hq, -⟩ := h
      refine ⟨⟨hsound.valid, hsound.callback⟩, .up, n, List.append_nil _, hstarted rfl, hopen, ?_,
        fun dispatch hd => ?_⟩
      · simpa only [State.queued, hphase] using hq
      · cases hd
        exact handleEvent_dispatch _
    | closed =>
      obtain ⟨-, -, -, ⟨dispatch, hd, -⟩ | ⟨batch, hb, -⟩⟩ := h
      · cases hphase.symm.trans hd
      · cases hphase.symm.trans hb
    | gone => cases hregistered.symm.trans h.2.2.1
  | callback transfer => exact callback_at hsound h n hm hf hs
  | doPendingFunctors => exact doPendingFunctors_at hsound h n hm hs
  | functor => exact functor_at hsound h n hm hs
  | send data write =>
    simp only [step] at hs
    split at hs
    · next hup =>
      obtain ⟨r, hr, hs⟩ := bind_eq_ok.mp hs
      have hsilent := sendInLoop_silent hsound.valid hm.2 hr
      have hgone : stage ≠ .gone := by
        rintro rfl
        rw [connected, h.2.1] at hup
        cases hup
      cases hs
      exact ⟨hsound.silent hsilent, stage, n,
        (congrArg _ (hsilent.events _)).trans (List.append_nil _), h.silent hsilent hgone⟩
    · cases hs
      exact ⟨hsound, stage, n, List.append_nil _, h⟩
  | shutdown => exact shutdown_at hsound h n (Except.ok.inj hs).symm (hm.1 rfl)

/-- Whatever is asked for is answered. -/
theorem step_answered (hsound : Sound s) (hm : may s l) : ∃ e s', step s l = .ok (e, s') := by
  cases l with
  | setWriteCompleteCallback | setHighWaterMarkCallback | handleEvent | doPendingFunctors
  | shutdown => exact ⟨_, _, rfl⟩
  | connectEstablished =>
    rw [step, connectEstablishedIn_release]
    exact ⟨_, _, rfl⟩
  | callback transfer =>
    have hfits := hm.2.2
    unfold State.next at hfits
    simp only [step]
    split
    · next callback rest hphase =>
      rw [hphase] at hfits
      have hrun : ∃ r, Shared.runCallback .release s.conn transfer callback = .ok r := by
        cases callback with
        | close => exact ⟨_, handleCloseIn_release hsound.callback⟩
        | error => exact ⟨_, rfl⟩
        | write =>
          obtain ⟨r, hr, -⟩ := LifeCycle.handleWrite_keeps hsound.valid (hfits rfl)
          exact ⟨r, hr⟩
        | read =>
          cases transfer with
          | error errno => exact ⟨_, rfl⟩
          | ok k =>
            simp only [Shared.runCallback, handleReadIn]
            split
            · exact ⟨_, rfl⟩
            · exact ⟨_, handleCloseIn_release hsound.callback⟩
      obtain ⟨r, hr⟩ := hrun
      rw [hr]
      exact ⟨_, _, rfl⟩
    · exact ⟨_, _, rfl⟩
  | functor =>
    simp only [step]
    split
    · next f rest hphase =>
      cases f with
      | connectDestroyed =>
        rw [runFunctor, connectDestroyedIn_release]
        exact ⟨_, _, rfl⟩
      | writeCompleteCallback | highWaterMarkCallback => exact ⟨_, _, rfl⟩
    · exact ⟨_, _, rfl⟩
  | send data write =>
    simp only [step]
    split
    · obtain ⟨r, hr, -⟩ := LifeCycle.sendInLoop_keeps hsound.valid hm.2
      rw [hr]
      exact ⟨_, _, rfl⟩
    · exact ⟨_, _, rfl⟩

/-! ### Every run -/

theorem at_initial (sockfd : Nat) : (initial sockfd).At .fresh := ⟨rfl, rfl, List.not_mem_nil⟩

theorem log_append (tr : List (Action × List Event)) (l : Action) (e : List Event) :
    log (tr ++ [(l, e)]) = log tr ++ e := by
  simp [log]

/-- **The story of a connection whose reads fail where they have to.** -/
theorem story {sockfd : Nat} {tr : List (Action × List Event)}
    (h : (machine.only Fails).Run (initial sockfd) tr s) :
    Sound s ∧ ∃ stage n, log tr = told n stage ∧ s.At stage := by
  refine h.snoc_induction (P := fun tr s => Sound s ∧ ∃ stage n, log tr = told n stage ∧ s.At stage)
    ⟨sound_initial sockfd, .fresh, 0, rfl, at_initial sockfd⟩ ?_
  rintro tr s l e s' - ⟨hsound, stage, n, hlog, hat⟩ hm hs
  obtain ⟨hsound', stage', n', htold, hat'⟩ := step_at hsound hat n hm.1 hm.2 hs
  exact ⟨hsound', stage', n', by rw [log_append, hlog, htold], hat'⟩

theorem State.At.started_eq (h : s.At stage) : s.started = decide (stage ≠ .fresh) := by
  cases stage with
  | fresh => exact h.1
  | up | closed | gone => exact h.1

/-- A read that succeeds where it has to fail is a message after the close, or a second close. -/
theorem not_once_of_read (hsound : Sound s) (h : s.At stage) (n : Nat) (hm : may s l)
    (hf : ¬ Fails s l) (hs : step s l = .ok (e, s')) :
    1 < (told n stage ++ e).count .close ∨
      ¬ (told n stage ++ e).Pairwise fun a b => a = .close → b ≠ .message := by
  cases l with
  | callback transfer =>
    simp only [Fails, Classical.not_imp] at hf
    obtain ⟨hnext, hhangup, hok⟩ := hf
    obtain ⟨callback, rest, r, hphase, -, hr, heq⟩ := callback_runs hm hs
    rw [State.next, hphase] at hnext
    obtain rfl : callback = .read := Option.some.inj hnext
    obtain ⟨-, rfl | rfl⟩ := h.next hphase (by simp)
    · cases (h.2.2.2 _ hphase).2.2 hhangup
    · cases transfer with
      | error errno => exact absurd rfl hok
      | ok k =>
        simp only [Shared.runCallback, handleReadIn] at hr
        split at hr
        · cases hr
          cases heq
          right
          simp [told, Event.of, List.pairwise_append]
        · rw [handleCloseIn_release hsound.callback] at hr
          cases hr
          cases heq
          left
          simp [told, Event.of]
  | _ => exact absurd trivial hf

/-- **A connection closes once exactly if, whenever poll(2) reports POLLHUP without POLLIN, a read
in that dispatch fails.** -/
theorem closesOnce_iff {sockfd : Nat} {tr : List (Action × List Event)}
    (h : machine.Run (initial sockfd) tr s) :
    ClosesOnce s.started (log tr) ↔ (machine.only Fails).Run (initial sockfd) tr s := by
  constructor
  · intro honce
    refine h.snoc_induction (P := fun tr s => (log tr).count .close ≤ 1 →
      ((log tr).Pairwise fun a b => a = .close → b ≠ .message) →
        (machine.only Fails).Run (initial sockfd) tr s)
      (fun _ _ => .nil _) ?_ honce.close honce.message
    intro tr s l e s' _ ih hm hs hclose hmessage
    rw [log_append] at hclose hmessage
    rw [List.count_append] at hclose
    have hrun := ih (by omega) (List.pairwise_append.mp hmessage).1
    obtain ⟨hsound, stage, n, hlog, hat⟩ := story hrun
    rw [hlog] at hclose hmessage
    refine hrun.snoc ⟨hm, ?_⟩ hs
    by_contra hf
    rcases not_once_of_read hsound hat n hm hf hs with htwice | hlate
    · rw [List.count_append] at htwice
      omega
    · exact hlate hmessage
  · intro hrun
    obtain ⟨-, stage, n, hlog, hat⟩ := story hrun
    rw [hlog, hat.started_eq]
    exact closesOnce_told n stage

/-- Half-closed by its own message callback, then hung up on while a byte is unwritten. -/
theorem closesOnce_iff_hangup : ∃ tr s, machine.Run (initial 5) tr s ∧
    tr.map Prod.fst = [.connectEstablished, .send [65, 66] (.ok 1), .handleEvent POLLIN,
      .callback (.ok 3), .shutdown, .doPendingFunctors, .handleEvent (POLLHUP ||| POLLOUT),
      .callback (.ok 0), .callback (.ok 0), .doPendingFunctors, .functor] ∧
    (ClosesOnce s.started (log tr) ↔ (machine.only Fails).Run (initial 5) tr s) := by
  obtain ⟨tr, s, h, hacts, -⟩ := machine.exists_run_of_replay (s := initial 5) (P := fun _ _ => True)
    [.connectEstablished, .send [65, 66] (.ok 1), .handleEvent POLLIN, .callback (.ok 3), .shutdown,
      .doPendingFunctors, .handleEvent (POLLHUP ||| POLLOUT), .callback (.ok 0), .callback (.ok 0),
      .doPendingFunctors, .functor] (by decide +kernel)
  exact ⟨tr, s, h, hacts, closesOnce_iff h⟩

/-- POLLHUP and POLLPRI at once: the end of the stream closes the connection a second time, and it
is destroyed twice; a byte that is still there is a message after the close. -/
theorem closes_twice :
    (∃ tr s, machine.Run (initial 5) tr s ∧
      tr.map Prod.fst = [.connectEstablished, .handleEvent (POLLHUP ||| POLLPRI), .callback (.ok 0),
        .callback (.ok 0), .doPendingFunctors, .functor, .functor] ∧
      log tr = [.connection true, .close, .close, .connection false, .destroyed, .connection false,
        .destroyed] ∧ ¬ ClosesOnce s.started (log tr)) ∧
    ∃ tr s, machine.Run (initial 5) tr s ∧
      tr.map Prod.fst = [.connectEstablished, .handleEvent (POLLHUP ||| POLLPRI), .callback (.ok 0),
        .callback (.ok 1)] ∧
      log tr = [.connection true, .close, .message] ∧ ¬ ClosesOnce s.started (log tr) := by
  constructor
  · obtain ⟨tr, s, h, hacts, hlog⟩ := machine.exists_run_of_replay (s := initial 5)
      (P := fun tr _ => log tr = [.connection true, .close, .close, .connection false, .destroyed,
        .connection false, .destroyed])
      [.connectEstablished, .handleEvent (POLLHUP ||| POLLPRI), .callback (.ok 0), .callback (.ok 0),
        .doPendingFunctors, .functor, .functor] (by decide +kernel)
    refine ⟨tr, s, h, hacts, hlog, fun honce => ?_⟩
    have hclose := honce.close
    rw [hlog] at hclose
    revert hclose
    decide
  · obtain ⟨tr, s, h, hacts, hlog⟩ := machine.exists_run_of_replay (s := initial 5)
      (P := fun tr _ => log tr = [.connection true, .close, .message])
      [.connectEstablished, .handleEvent (POLLHUP ||| POLLPRI), .callback (.ok 0), .callback (.ok 1)]
      (by decide +kernel)
    refine ⟨tr, s, h, hacts, hlog, fun honce => ?_⟩
    have hmessage := honce.message
    rw [hlog] at hmessage
    revert hmessage
    decide

end Leanet.Round

import Leanet.Connector.Outcome

/-! The connector as a client uses it.

`start` is called once and `stop` from any thread afterwards; `restart` on the loop's
thread, by a connected connector that was not stopped, in a later turn of the loop than
the one that handed the connection over. A turn is a round of events and then the functors
queued by its end, and a retry timer fires in a later turn than the one that set it.

`handleWrite` is cut once more here, between its test of `connected_` and the call of
`newConnectionCallback_`: other threads can get in there too, and `calling` is the socket
that is about to be passed on. Whoever uses the connector like this keeps to `Calm`
(`Used.calm`). -/
namespace Leanet

namespace Client
open Connector (Single)

structure State where
  connector : Connector.State
  /-- The turns of the loop begun. -/
  turn : Nat
  /-- The events of the turn are over. -/
  draining : Bool
  /-- The turn each retry timer was set in. -/
  timers : List Nat
  calling : Option Nat
  /-- The turn of the last call of `newConnectionCallback_`. -/
  called : Option Nat
  started : Bool
  /-- A `stop` has stored its flag. -/
  stopped : Bool
  deriving DecidableEq

/-- Before the loop runs. -/
def initial : State where
  connector := Connector.initial
  turn := 0
  draining := true
  timers := []
  calling := none
  called := none
  started := false
  stopped := false

inductive Action where
  /-- The next turn begins. -/
  | poll
  /-- The retry timer set in this turn fires. -/
  | timer (setIn : Nat)
  /-- `newConnectionCallback_` is called. -/
  | call
  | act (a : Connector.Action)
  deriving DecidableEq

/-- An action of the loop's thread. -/
def onLoop : Connector.Action → Bool
  | .beginStart | .endStart | .beginStop | .endStop => false
  | _ => true

def isStart : Connector.Action → Bool
  | .start | .beginStart => true
  | _ => false

def isStop : Connector.Action → Bool
  | .stop | .beginStop => true
  | _ => false

def mayAct (s : State) : Connector.Action → Prop
  | .start | .beginStart => s.started = false
  | .restart => s.connector.state = .kConnected ∧ s.stopped = false ∧ ∃ i ∈ s.called, i < s.turn
  | .stop | .beginStop => s.started = true
  | .handleEvent _ | .doPendingFunctors => s.draining = false
  | .functor => s.draining = true
  | .timer => False
  | _ => True

def may (s : State) : Action → Prop
  | .poll => s.connector.outside ∧ s.connector.batch = [] ∧ s.calling = none ∧ s.draining = true
  | .timer setIn => Connector.may s.connector .timer ∧ s.calling = none ∧ s.draining = false ∧
    setIn ∈ s.timers ∧ setIn < s.turn
  | .call => s.calling.isSome = true
  | .act a => Connector.may s.connector a ∧ mayAct s a ∧ (onLoop a = true → s.calling = none)

/-- What an action of the connector lets out, but for the call that is still to come. -/
def State.after (s : State) (a : Connector.Action) (r : List Connector.Effect × Connector.State) :
    List Connector.Effect × State :=
  (r.1.filter (fun e => e.passed.isNone), { s with
    connector := r.2
    draining := a == .doPendingFunctors || s.draining
    timers := List.replicate (r.1.countP Connector.Effect.isRunAfter) s.turn ++ s.timers
    calling := (r.1.findSome? Connector.Effect.passed).or s.calling
    started := isStart a || s.started
    stopped := isStop a || s.stopped })

def step (s : State) : Action → Except Fault (List Connector.Effect × State)
  | .poll => pure ([], { s with turn := s.turn + 1, draining := false })
  | .timer setIn => do
    let (effects, connector) ← Connector.step s.connector .timer
    pure (effects, { s with connector, timers := s.timers.erase setIn })
  | .call => do
    let sockfd ← deref s.calling
    pure ([.newConnection sockfd], { s with calling := none, called := some s.turn })
  | .act a => do
    let r ← Connector.step s.connector a
    pure (s.after a r)

def machine : Machine State Action (List Connector.Effect) Fault where
  may := may
  step := step

instance (s : State) : (a : Connector.Action) → Decidable (mayAct s a)
  | .start | .beginStart | .stop | .beginStop | .handleEvent _ | .doPendingFunctors | .functor =>
    inferInstanceAs (Decidable (_ = _))
  | .restart => inferInstanceAs (Decidable (_ ∧ _ ∧ ∃ i ∈ s.called, i < s.turn))
  | .timer => inferInstanceAs (Decidable False)
  | .endStart | .endStop | .startInLoop _ | .connect _ | .scheduleRetry | .callback _ _ =>
    inferInstanceAs (Decidable True)

instance (s : State) : (l : Action) → Decidable (may s l)
  | .poll => inferInstanceAs (Decidable (_ ∧ _ ∧ _ ∧ _))
  | .timer _ => inferInstanceAs (Decidable (_ ∧ _ ∧ _ ∧ _ ∧ _))
  | .call => inferInstanceAs (Decidable (_ = _))
  | .act a => inferInstanceAs (Decidable (Connector.may s.connector a ∧ mayAct s a ∧ (_ → _)))

instance (s : State) (l : Action) : Decidable (machine.may s l) :=
  inferInstanceAs (Decidable (may s l))

/-! ### Keeping to it -/

/-- A removed channel is reset by the end of the turn, and what could begin an attempt has
been set in the same turn. -/
structure Waiting (s : State) : Prop where
  queued : .resetChannel ∈ if s.draining then s.connector.batch else s.connector.pendingFunctors
  timers : ∀ i ∈ s.timers, i = s.turn
  called : s.connector.state = .kConnected → s.calling = none → ∀ i ∈ s.called, i = s.turn

/-- The invariant. -/
structure Used (s : State) : Prop where
  single : Single s.connector
  fresh : s.started = false → s.connector = Connector.initial
  connected : s.started = true → (s.connector.connected = true ↔ s.stopped = false)
  began : s.stopped = true → s.started = true
  stops : 0 < s.connector.stopping ∨ .stopInLoop ∈ s.connector.queue → s.stopped = true
  timers : s.timers.length = s.connector.retryTimers
  drained : s.draining = false → s.connector.batch = []
  dispatched : s.connector.dispatch ≠ [] → s.draining = false
  calling : s.calling.isSome = true → s.connector.state = .kConnected ∧ s.connector.inside = none
  waiting : s.stopped = false → s.connector.channel.isSome = true →
    s.connector.registered = false → Waiting s

theorem used_initial : Used initial where
  single := Connector.single_initial
  fresh := fun _ => rfl
  connected := nofun
  began := nofun
  stops := by simp [initial, Connector.initial, Connector.State.queue]
  timers := rfl
  drained := nofun
  dispatched := fun h => absurd rfl h
  calling := nofun
  waiting := nofun

variable {s s' : State} {l : Action} {e : List Connector.Effect} {a : Connector.Action}
  {r : List Connector.Effect × Connector.State}

namespace Used

theorem disconnected (h : Used s) (hs : s.stopped = true) : s.connector.connected = false := by
  rw [← Bool.not_eq_true, h.connected (h.began hs), hs]
  exact nofun

theorem unstopped (h : Used s) (hs : s.started = false) : s.stopped = false := by
  rw [← Bool.not_eq_true]
  intro hstopped
  cases hs.symm.trans (h.began hstopped)

/-- A client that waits its turn keeps to what the connector relies on. -/
theorem calm (h : Used s) (hm : may s (.act a)) : Connector.Calm s.connector a := by
  cases a with
  | start =>
    rw [h.fresh hm.2.1]
    exact ⟨rfl, rfl, rfl⟩
  | beginStart =>
    rw [h.fresh hm.2.1]
    exact ⟨rfl, rfl⟩
  | restart =>
    obtain ⟨-, ⟨hstate, hstopped, i, hi, hlt⟩, hcalling⟩ := hm
    refine ⟨h.single.quiet (by rw [hstate]; exact nofun), ?_⟩
    by_contra hne
    have hreg : s.connector.registered = false := by
      rw [← Bool.not_eq_true, ← h.single.connecting, hstate]
      exact nofun
    have := (h.waiting hstopped (Option.isSome_iff_ne_none.mpr hne) hreg).called hstate
      (hcalling rfl) i hi
    omega
  | timer => exact hm.2.1.elim
  | stop | endStart | beginStop | endStop | startInLoop | connect | scheduleRetry | handleEvent
  | callback | doPendingFunctors | functor => trivial

theorem calm_timer (h : Used s) {setIn : Nat} (hm : may s (.timer setIn)) :
    Connector.Calm s.connector .timer := by
  obtain ⟨⟨hout, hbatch, hpos⟩, -, -, hmem, hlt⟩ := hm
  cases hstopped : s.stopped with
  | true => exact .inr (h.disconnected hstopped)
  | false =>
    refine .inl ?_
    by_contra hne
    have hstate := h.single.disconnected (by rw [Connector.State.outstanding]; omega)
    have := (h.waiting hstopped (Option.isSome_iff_ne_none.mpr hne)
      (h.single.unregistered hstate)).timers setIn hmem
    omega

/-- Nothing is about to be passed on while the loop's thread is elsewhere. -/
theorem calling_none (hnone : s.calling = none) {P : Prop} : s.calling.isSome = true → P := by
  rw [hnone]
  exact nofun

/-- A client that has started is not fresh. -/
theorem started_ne (hstarted : s.started = true) {P : Prop} : s.started = false → P := by
  intro hf
  cases hstarted.symm.trans hf

theorem stopped_ne (hstopped : s.stopped = true) {P : Prop} : s.stopped = false → P := by
  intro hs
  cases hstopped.symm.trans hs

theorem connected_of_stopped (hstopped : s.stopped = true) (hc : s.connector.connected = false) :
    s.connector.connected = true ↔ s.stopped = false := by
  simp [hstopped, hc]

/-- Where the attempt that the loop's thread is in comes from, the client has started. -/
theorem started_of (h : Used s) (hne : s.connector ≠ Connector.initial) : s.started = true := by
  by_contra hs
  exact hne (h.fresh (by simpa using hs))

/-- The functors waiting for their turn, after one more. -/
theorem mem_push {f g : Connector.Functor} {draining : Bool} {batch pending : List Connector.Functor}
    (h : f ∈ if draining then batch else pending) :
    f ∈ if draining then batch else pending ++ [g] := by
  cases draining with
  | true => exact h
  | false => exact List.mem_append_left _ h

theorem mem_queue_push {c : Connector.State} {f g : Connector.Functor} :
    f ∈ (Connector.queueInLoop c g).queue ↔ f ∈ c.queue ∨ f = g := by
  simp [Connector.queueInLoop, Connector.State.queue, or_assoc]

/-- Other threads, and `stop` on the loop's. -/
theorem act_other (h : Used s) (hm : may s (.act a)) (ha : onLoop a = false ∨ a = .stop)
    (hr : Connector.step s.connector a = .ok r) (hsingle : Single r.2) : Used (s.after a r).2 := by
  cases a with
  | beginStart =>
    cases hr
    have hstopped := h.unstopped hm.2.1
    have hfresh := h.fresh hm.2.1
    exact { h with
      single := hsingle, fresh := started_ne rfl, connected := fun _ => iff_of_true rfl hstopped
      began := fun _ => rfl
      waiting := fun _ hc => by simp [State.after, hfresh, Connector.initial] at hc }
  | endStart =>
    cases hr
    have hpos : 0 < s.connector.starting := hm.1
    have hstarted := h.started_of fun hinitial => by
      rw [hinitial] at hpos
      cases hpos
    refine { h with
      single := hsingle, fresh := started_ne hstarted, stops := ?_
      waiting := fun hs hc hreg => ?_ }
    · rintro (hstopping | hmem)
      · exact h.stops (.inl hstopping)
      · exact h.stops (.inr ((mem_queue_push.mp hmem).resolve_right (by simp)))
    · have hw := h.waiting hs hc hreg
      exact { hw with queued := mem_push hw.queued }
  | beginStop =>
    cases hr
    have hstarted : s.started = true := hm.2.1
    exact { h with
      single := hsingle, fresh := started_ne hstarted
      connected := fun _ => connected_of_stopped rfl rfl
      began := fun _ => hstarted, stops := fun _ => rfl, waiting := stopped_ne rfl }
  | endStop =>
    cases hr
    have hstopped : s.stopped = true := h.stops (.inl hm.1)
    exact { h with
      single := hsingle, fresh := started_ne (h.began hstopped)
      stops := fun _ => hstopped, waiting := stopped_ne hstopped }
  | stop =>
    cases hr
    have hstarted : s.started = true := hm.2.1
    exact { h with
      single := hsingle, fresh := started_ne hstarted
      connected := fun _ => connected_of_stopped rfl rfl
      began := fun _ => hstarted, stops := fun _ => rfl
      calling := calling_none (hm.2.2 rfl), waiting := stopped_ne rfl }
  | start | restart | startInLoop | connect | scheduleRetry | handleEvent | callback | timer
  | doPendingFunctors | functor =>
    rcases ha with ha | ha <;> cases ha

/-- `start` and `restart` on the loop's thread. -/
theorem act_begin (h : Used s) (hm : may s (.act a)) (ha : a = .start ∨ a = .restart)
    (hr : Connector.step s.connector a = .ok r) (hsingle : Single r.2) : Used (s.after a r).2 := by
  have hcalm := h.calm hm
  rcases ha with rfl | rfl
  · cases hr
    have hstopped := h.unstopped hm.2.1
    have hnone : s.connector.channel = none := hcalm.2.2
    exact { h with
      single := hsingle, fresh := started_ne rfl, connected := fun _ => iff_of_true rfl hstopped
      began := fun _ => rfl
      calling := calling_none (hm.2.2 rfl)
      waiting := fun _ hc => by simp [State.after, Connector.start, hnone] at hc }
  · cases hr
    obtain ⟨hstate, hstopped, -⟩ := hm.2.1
    have hnone : s.connector.channel = none := hcalm.2
    have hstarted := h.started_of fun hinitial => by
      rw [hinitial] at hstate
      cases hstate
    exact { h with
      single := hsingle, fresh := started_ne hstarted
      connected := fun _ => iff_of_true rfl hstopped
      calling := calling_none (hm.2.2 rfl)
      waiting := fun _ hc => by simp [State.after, Connector.restart, hnone] at hc }

theorem act_startInLoop (h : Used s) {fd : Nat} (hm : may s (.act (.startInLoop fd)))
    (hr : Connector.startInLoop s.connector fd = .ok r) (hsingle : Single r.2) :
    Used (s.after (.startInLoop fd) r).2 := by
  have hstarted := h.started_of fun hinitial => by cases hinitial ▸ hm.1.1
  have hnone : s.calling = none := hm.2.2 rfl
  obtain ⟨_, -, hr⟩ := bind_eq_ok.mp hr
  split at hr
  · cases hr
    exact { h with
      single := hsingle, fresh := started_ne hstarted
      calling := calling_none hnone
      waiting := fun hs hc hreg => { h.waiting hs hc hreg with } }
  · cases hr
    exact { h with
      single := hsingle, fresh := started_ne hstarted
      calling := calling_none hnone
      waiting := fun hs hc hreg => { h.waiting hs hc hreg with } }

theorem act_connect (h : Used s) {savedErrno : Option Errno} (hm : may s (.act (.connect savedErrno)))
    (hr : Connector.step s.connector (.connect savedErrno) = .ok r) (hsingle : Single r.2) :
    Used (s.after (.connect savedErrno) r).2 := by
  obtain ⟨_, hin, fd, rfl⟩ := hm.1
  have hin : s.connector.inside = some (.connect fd) := hin
  have hstarted := h.started_of fun hinitial => by cases hinitial ▸ hin
  have hnone : s.calling = none := hm.2.2 rfl
  have hchannel := (h.single.socket fd hin).1
  simp only [Connector.step, hin] at hr
  rcases Connector.connect_cases s.connector fd savedErrno with hrun | hrun | hrun
  · rw [Connector.connecting_eq (s := { s.connector with inside := none }) hchannel] at hrun
    cases hrun.symm.trans hr
    exact { h with
      single := hsingle, fresh := started_ne hstarted
      calling := calling_none hnone, waiting := fun _ _ hreg => by cases hreg }
  · cases hrun.symm.trans hr
    exact { h with
      single := hsingle, fresh := started_ne hstarted
      calling := calling_none hnone
      waiting := fun _ hc => by cases (congrArg Option.isSome hchannel).symm.trans hc }
  · cases hrun.symm.trans hr
    exact { h with
      single := hsingle, fresh := started_ne hstarted
      calling := calling_none hnone
      waiting := fun _ hc => by cases (congrArg Option.isSome hchannel).symm.trans hc }

theorem act_scheduleRetry (h : Used s) (hm : may s (.act .scheduleRetry))
    (hsingle : Single (Connector.scheduleRetry s.connector).2) :
    Used (s.after .scheduleRetry (Connector.scheduleRetry s.connector)).2 := by
  have hstarted := h.started_of fun hinitial => by cases hinitial ▸ hm.1
  have hnone : s.calling = none := hm.2.2 rfl
  unfold Connector.scheduleRetry at hsingle ⊢
  split
  · next hconnected =>
    rw [if_pos hconnected] at hsingle
    refine { h with
      single := hsingle, fresh := started_ne hstarted
      timers := congrArg (· + 1) h.timers
      calling := calling_none hnone, waiting := fun hs hc hreg => ?_ }
    have hw := h.waiting hs hc hreg
    refine { hw with timers := fun i hi => ?_ }
    rcases List.mem_cons.mp hi with rfl | hi
    · rfl
    · exact hw.timers i hi
  · next hconnected =>
    rw [if_neg hconnected] at hsingle
    exact { h with
      single := hsingle, fresh := started_ne hstarted
      calling := calling_none hnone
      waiting := fun hs hc hreg => { h.waiting hs hc hreg with } }

/-- A timer that has been set and not fired, or an attempt in progress, is none of a
connecting connector. -/
theorem timers_of_connecting (h : Used s) (hc : s.connector.state = .kConnecting) :
    s.timers = [] := by
  have hquiet := Connector.Single.of_quiet (h.single.quiet (by rw [hc]; exact nofun))
  exact List.eq_nil_of_length_eq_zero (h.timers.trans hquiet.2.2.1)

theorem act_callback (h : Used s) {soError : Option Errno} {selfConnected : Bool}
    (hm : may s (.act (.callback soError selfConnected)))
    (hr : Connector.step s.connector (.callback soError selfConnected) = .ok r)
    (hsingle : Single r.2) : Used (s.after (.callback soError selfConnected) r).2 := by
  have hdispatch : s.connector.dispatch ≠ [] := hm.1.2
  have hstarted := h.started_of fun hinitial => hdispatch (by rw [hinitial]; rfl)
  have hevents : s.draining = false := h.dispatched hdispatch
  have hnone : s.calling = none := hm.2.2 rfl
  obtain ⟨e, c'⟩ := r
  rcases Connector.callback_mayEnd h.single hm.1 hr with ⟨rfl, rfl⟩ | ⟨hc, c, -, hends⟩
  · exact { h with
      single := hsingle, fresh := started_ne hstarted
      dispatched := fun _ => hevents
      calling := calling_none hnone
      waiting := fun hs hc hreg => { h.waiting hs hc hreg with } }
  · have htimers := h.timers_of_connecting hc
    have hstops : 0 < s.connector.stopping ∨
        .stopInLoop ∈ (({ s.connector with dispatch := s.connector.dispatch.tail } :
          Connector.State).removed c).queue → s.stopped = true := by
      rintro (hstopping | hmem)
      · exact h.stops (.inl hstopping)
      · exact h.stops (.inr ((mem_queue_push.mp hmem).resolve_right (by simp)))
    have hqueued : .resetChannel ∈ if s.draining then s.connector.batch
        else s.connector.pendingFunctors ++ [.resetChannel] := by
      rw [hevents]
      exact List.mem_append_right _ List.mem_cons_self
    cases hends with
    | retry =>
      exact { h with
        single := hsingle, fresh := started_ne hstarted
        stops := hstops, dispatched := fun _ => hevents
        calling := calling_none hnone
        waiting := fun _ _ _ => ⟨hqueued, by simp [State.after, htimers, Connector.Effect.isRunAfter],
          fun hc => by cases hc⟩ }
    | passed hconnected =>
      have hinside : s.connector.inside = none := hm.1.1
      exact { h with
        single := hsingle, fresh := started_ne hstarted
        stops := hstops, dispatched := fun _ => hevents
        calling := fun _ => ⟨rfl, hinside⟩
        waiting := fun _ _ _ => ⟨hqueued, by simp [State.after, htimers, Connector.Effect.isRunAfter],
          fun _ hnone => by cases hnone⟩ }
    | stopped hconnected =>
      -- a client that has not stopped is connected
      have hconnected : s.connector.connected = false := hconnected
      exact { h with
        single := hsingle, fresh := started_ne hstarted
        stops := hstops, dispatched := fun _ => hevents
        calling := calling_none hnone
        waiting := fun hs => by
          cases hconnected.symm.trans ((h.connected hstarted).mpr hs) }

theorem act_functor (h : Used s) (hm : may s (.act .functor))
    (hr : Connector.step s.connector .functor = .ok r) (hsingle : Single r.2) :
    Used (s.after .functor r).2 := by
  have hstarted := h.started_of fun hinitial => hm.1.2 (by rw [hinitial]; rfl)
  have hnone : s.calling = none := hm.2.2 rfl
  have hdraining : s.draining = true := hm.2.1
  obtain ⟨e, c'⟩ := r
  obtain ⟨f, rest, hrest, hcases⟩ := Connector.functor_cases h.single hm.1 hr
  have hrun : ∀ g, g ∈ rest ++ s.connector.pendingFunctors → g ∈ s.connector.queue := fun g hg => by
    rw [Connector.State.queue, hrest]
    exact List.mem_cons_of_mem f hg
  have hstops : 0 < s.connector.stopping ∨ .stopInLoop ∈ rest ++ s.connector.pendingFunctors →
      s.stopped = true := fun hs => h.stops (hs.imp_right (hrun _))
  -- a functor that is still to come is behind another one
  have hqueued : Waiting s → f ≠ .resetChannel →
      .resetChannel ∈ if s.draining then rest else s.connector.pendingFunctors := by
    intro hw hne
    have := hw.queued
    rw [hdraining, hrest] at this
    rw [hdraining]
    exact (List.mem_cons.mp this).resolve_left fun heq => hne heq.symm
  rcases hcases with ⟨rfl, rfl, rfl⟩ | ⟨rfl, ⟨rfl, rfl⟩ | ⟨hc, c, -, rfl, rfl⟩⟩ | ⟨rfl, rfl, rfl⟩
  · exact { h with
      single := hsingle, fresh := started_ne hstarted
      stops := hstops, drained := fun hf => by cases hdraining.symm.trans hf
      calling := calling_none hnone
      waiting := fun hs hc hreg =>
        { h.waiting hs hc hreg with queued := hqueued (h.waiting hs hc hreg) (by simp) } }
  · exact { h with
      single := hsingle, fresh := started_ne hstarted
      stops := hstops, drained := fun hf => by cases hdraining.symm.trans hf
      calling := calling_none hnone
      waiting := fun hs hc hreg =>
        { h.waiting hs hc hreg with queued := hqueued (h.waiting hs hc hreg) (by simp) } }
  · have hstopped : s.stopped = true :=
      h.stops (.inr (by rw [Connector.State.queue, hrest]; exact List.mem_cons_self))
    exact { h with
      single := hsingle, fresh := started_ne hstarted
      stops := fun _ => hstopped, drained := fun hf => by cases hdraining.symm.trans hf
      dispatched := fun hd => absurd hm.1.1.2 hd
      calling := calling_none hnone
      waiting := stopped_ne hstopped }
  · exact { h with
      single := hsingle, fresh := started_ne hstarted
      stops := hstops, drained := fun hf => by cases hdraining.symm.trans hf
      calling := calling_none hnone, waiting := fun _ hc => by cases hc }

theorem act_handleEvent (h : Used s) {revents : BitVec 32} (hm : may s (.act (.handleEvent revents)))
    (hr : Connector.step s.connector (.handleEvent revents) = .ok r) (hsingle : Single r.2) :
    Used (s.after (.handleEvent revents) r).2 := by
  obtain ⟨hout, -, hreg, -⟩ := hm.1
  have hstarted := h.started_of fun hinitial => by cases hinitial ▸ hreg
  obtain ⟨c, -, hr⟩ := bind_eq_ok.mp hr
  cases hr
  exact { h with
    single := hsingle, fresh := started_ne hstarted
    dispatched := fun _ => hm.2.1
    calling := calling_none (hm.2.2 rfl)
    waiting := fun _ _ hne => by cases hreg.symm.trans hne }

theorem act_doPendingFunctors (h : Used s) (hm : may s (.act .doPendingFunctors))
    (hr : Connector.step s.connector .doPendingFunctors = .ok r) (hsingle : Single r.2) :
    Used (s.after .doPendingFunctors r).2 := by
  cases hr
  obtain ⟨⟨hout, hbatch⟩, hevents, hcalling⟩ := hm
  have hevents : s.draining = false := hevents
  refine { h with
    single := hsingle, fresh := fun hf => by simp [State.after, h.fresh hf, Connector.initial]
    stops := ?_, drained := nofun
    dispatched := fun hd => absurd hout.2 hd
    calling := calling_none (hcalling rfl), waiting := fun hs hc hreg => ?_ }
  · rintro (hstopping | hmem)
    · exact h.stops (.inl hstopping)
    · refine h.stops (.inr (List.mem_append_right _ ?_))
      simpa [State.after, Connector.State.queue] using hmem
  · have hw := h.waiting hs hc hreg
    have hqueued := hw.queued
    rw [hevents] at hqueued
    exact { hw with queued := hqueued }

/-- Every step of the connector under a client. -/
theorem act_step (h : Used s) (hm : may s (.act a)) :
    ∃ r, Connector.step s.connector a = .ok r ∧ Used (s.after a r).2 := by
  obtain ⟨e, c', hr, hsingle⟩ := Connector.single_step h.single hm.1 (h.calm hm)
  refine ⟨(e, c'), hr, ?_⟩
  cases a with
  | start => exact h.act_begin hm (.inl rfl) hr hsingle
  | restart => exact h.act_begin hm (.inr rfl) hr hsingle
  | stop => exact h.act_other hm (.inr rfl) hr hsingle
  | beginStart | endStart | beginStop | endStop => exact h.act_other hm (.inl rfl) hr hsingle
  | startInLoop fd => exact h.act_startInLoop hm hr hsingle
  | connect savedErrno => exact h.act_connect hm hr hsingle
  | scheduleRetry =>
    have hr : Connector.scheduleRetry s.connector = (e, c') := Except.ok.inj hr
    rw [← hr]
    exact h.act_scheduleRetry hm (by rw [hr]; exact hsingle)
  | handleEvent revents => exact h.act_handleEvent hm hr hsingle
  | callback soError selfConnected => exact h.act_callback hm hr hsingle
  | timer => exact hm.2.1.elim
  | doPendingFunctors => exact h.act_doPendingFunctors hm hr hsingle
  | functor => exact h.act_functor hm hr hsingle

theorem poll (h : Used s) (hm : may s .poll) :
    Used { s with turn := s.turn + 1, draining := false } := by
  obtain ⟨hout, hbatch, -, hdraining⟩ := hm
  refine { h with
    drained := fun _ => hbatch, dispatched := fun hd => absurd hout.2 hd
    waiting := fun hs hc hreg => ?_ }
  have hqueued := (h.waiting hs hc hreg).queued
  rw [hdraining, hbatch] at hqueued
  cases hqueued

theorem timer (h : Used s) {setIn : Nat} (hm : may s (.timer setIn)) :
    ∃ r, Connector.step s.connector .timer = .ok r ∧ r.1 = [] ∧
      Used { s with connector := r.2, timers := s.timers.erase setIn } := by
  obtain ⟨e, c', hr, hsingle⟩ := Connector.single_step h.single hm.1 (h.calm_timer hm)
  cases hr
  obtain ⟨⟨-, -, hpos⟩, hnone, -, hmem, -⟩ := hm
  have hstarted := h.started_of fun hinitial => by
    rw [hinitial] at hpos
    cases hpos
  refine ⟨_, rfl, rfl, { h with
    single := hsingle, fresh := started_ne hstarted
    timers := (List.length_erase_of_mem hmem).trans (congrArg (· - 1) h.timers)
    calling := calling_none hnone, waiting := fun hs hc hreg => ?_ }⟩
  have hw := h.waiting hs hc hreg
  exact { hw with timers := fun i hi => hw.timers i (List.mem_of_mem_erase hi) }

theorem call (h : Used s) : Used { s with calling := none, called := some s.turn } := { h with
  calling := nofun
  waiting := fun hs hc hreg =>
    { h.waiting hs hc hreg with called := fun _ _ _ hi => (Option.some.inj hi).symm } }

end Used

/-- Every admitted step is answered, and the invariant survives it. -/
theorem used_inductive : machine.Inductive Used := by
  intro s l h hm
  cases l with
  | poll => exact ⟨_, _, rfl, h.poll hm⟩
  | timer setIn =>
    obtain ⟨r, hr, -, hnext⟩ := h.timer hm
    exact ⟨_, _, bind_eq_ok.mpr ⟨r, hr, rfl⟩, hnext⟩
  | call =>
    obtain ⟨sockfd, hsockfd⟩ := Option.isSome_iff_exists.mp hm
    exact ⟨_, _, bind_eq_ok.mpr ⟨sockfd, by rw [hsockfd]; rfl, rfl⟩, h.call⟩
  | act a =>
    obtain ⟨r, hr, hnext⟩ := h.act_step hm
    exact ⟨_, _, bind_eq_ok.mpr ⟨r, hr, rfl⟩, hnext⟩

end Client
end Leanet

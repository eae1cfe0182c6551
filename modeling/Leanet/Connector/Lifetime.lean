import Leanet.Connector.Abandoned

/-! How long a connector lives, and a connection.

A `TcpClient` may be destroyed on its loop's thread at any time. With a connection it has that
connection close without it and lets go of its connector. Without one it stops the connector and
has a timer, one second long, hold it; a retry timer holds it too. The functors that the connector
queues hold nothing: they are bound to `this`. `connection_` is let go of as well, and the poller
holds nothing either: somebody else must have the connection until it closes.

So the connector must not have a functor queued when the last of its holders lets go, nor the
connection be in the poller when the last of its own does (`Clean`). That is all it takes: then
nothing that is gone is touched and no descriptor is left open. Where a functor is queued the loop
comes to it after the connector is deleted, and where the connection is in the poller, its channel
stays there (`client_lifetime`). -/
namespace Leanet.Lifetime
open Connector (Abandoned RunsDown Single)

structure State where
  /-- What is left of it after `~TcpClient` is the loop, the connector and the connection. -/
  client : TcpClient.State
  /-- Not destroyed. -/
  alive : Bool
  /-- The turn in which the timer of `removeConnector` was set, while it is. -/
  grace : Option Nat
  /-- Somebody besides the client has a `TcpConnectionPtr` of the connection in the poller: the
  application, or a functor that is queued. -/
  shared : Bool
  deriving DecidableEq

/-- `TcpClient(loop, serverAddr, name)`. -/
def initial : State where
  client := TcpClient.initial
  alive := true
  grace := none
  shared := false

/-- `*connector_`. -/
def State.connector (s : State) : Connector.State := s.client.client.connector

/-- Somebody has a `ConnectorPtr`: the client, the timer of `removeConnector`, a retry timer that
is set, or one that has fired and is in the connector. -/
def State.referenced (s : State) : Prop :=
  s.alive = true ∨ s.grace.isSome = true ∨ 0 < s.connector.retryTimers ∨ s.connector.inside.isSome = true

instance (s : State) : Decidable s.referenced := inferInstanceAs (Decidable (_ ∨ _ ∨ _ ∨ _))

/-- The connection is deleted, and its channel is in the poller. -/
def State.lost (s : State) : Prop :=
  s.alive = false ∧ s.shared = false ∧ s.client.registered ≠ []

instance (s : State) : Decidable s.lost := inferInstanceAs (Decidable (_ ∧ _ ∧ _))

inductive Action where
  /-- `~TcpClient`. -/
  | destruct
  /-- The timer of `removeConnector` fires, and is deleted. -/
  | removeConnector
  /-- Somebody copies `connection()`. -/
  | hold
  /-- Nobody else has it any more. -/
  | letGo
  | act (a : TcpClient.Action)
  deriving DecidableEq

/-- A call of the client, which whoever destroys it makes no more. -/
def isCall : TcpClient.Action → Bool
  | .newConnection _ | .removeConnection _ | .connector _ => false
  | _ => true

/-- An event of the connection. -/
def closes : TcpClient.Action → Bool
  | .removeConnection _ => true
  | _ => false

/-- A function of the connector, or one of its channel. -/
def touches : TcpClient.Action → Bool
  | .connector .poll | .connector (.act .doPendingFunctors) | .removeConnection _ => false
  | _ => true

/-- `~TcpClient`, but for its members. -/
def destruct (s : State) : Except Fault (List TcpClient.Effect × State) :=
  if s.client.connection.isSome then
    -- `setCloseCallback` runs at once
    pure ([], { s with alive := false })
  else do
    let (effects, client) ← s.client.connector (.act .stop)
    pure (effects, { s with client, alive := false, grace := some client.client.turn })

/-- `detail::removeConnection`, the close callback that `~TcpClient` has left. -/
def removeConnection (s : TcpClient.State) (id : Nat) : List TcpClient.Effect × TcpClient.State :=
  ([.connectDestroyed id], { s with registered := s.registered.filter (·.1 ≠ id) })

def act (s : TcpClient.State) (alive : Bool) : TcpClient.Action →
    Except Fault (List TcpClient.Effect × TcpClient.State)
  | .newConnection bind =>
    if alive then TcpClient.step s (.newConnection bind) else .error .dangling
  | .removeConnection id =>
    if alive then TcpClient.step s (.removeConnection id) else pure (removeConnection s id)
  | a => TcpClient.step s a

/-- A step, up to the destruction of the connector and the connection. -/
def body (s : State) : Action → Except Fault (List TcpClient.Effect × State)
  | .destruct => destruct s
  | .removeConnector => pure ([], { s with grace := none })
  | .hold => pure ([], { s with shared := true })
  | .letGo => pure ([], { s with shared := false })
  | .act a =>
    if touches a = true ∧ ¬ s.referenced ∨ closes a = true ∧ s.lost then .error .dangling
    else do
      let (effects, client) ← act s.client s.alive a
      pure (effects, { s with client, shared := s.shared && !client.registered.isEmpty })

/-- `~Connector`. -/
def destructConnector (build : Build) (c : Connector.State) : Except Fault Unit :=
  build.assert (c.channel = none)

/-- `~TcpConnection` of a connection in the poller, which is not `kDisconnected` yet. -/
def destructConnection (build : Build) : Except Fault Unit := build.assert False

/-- What the step from `s` to `t` has let go of is deleted. -/
def destructs (build : Build) (s t : State) : Except Fault Unit := do
  if ¬ s.lost ∧ t.lost then destructConnection build
  if s.referenced ∧ ¬ t.referenced then destructConnector build t.connector

def step (build : Build) (s : State) (l : Action) : Except Fault (List TcpClient.Effect × State) := do
  let (effects, t) ← body s l
  destructs build s t
  pure (effects, t)

def may (s : State) : Action → Prop
  | .destruct => s.alive = true ∧ s.client.outside ∧ s.client.disconnecting = 0 ∧
      s.client.stopping = 0 ∧ s.connector.starting = 0 ∧ s.connector.stopping = 0
  | .removeConnector => s.grace.isSome = true ∧ s.client.outside ∧ s.client.client.draining = false
  | .hold => s.alive = true ∧ s.client.connection.isSome = true
  | .letGo => s.shared = true
  | .act a => TcpClient.machine.may s.client a ∧ (isCall a = true → s.alive = true)

def machine (build : Build) : Machine State Action (List TcpClient.Effect) Fault where
  may := may
  step := step build

instance (build : Build) (s : State) : (l : Action) → Decidable ((machine build).may s l)
  | .destruct => inferInstanceAs (Decidable (_ ∧ _ ∧ _ ∧ _ ∧ _ ∧ _))
  | .removeConnector => inferInstanceAs (Decidable (_ ∧ _ ∧ _))
  | .hold => inferInstanceAs (Decidable (_ ∧ _))
  | .letGo => inferInstanceAs (Decidable (_ = _))
  | .act a => inferInstanceAs (Decidable (TcpClient.machine.may s.client a ∧ (_ → _)))

/-- bind(2) succeeds. -/
def Binds : Action → Prop
  | .act a => TcpClient.Binds a
  | _ => True

/-- Where the step lets go of the connector, none of its functors is queued, and the connection it
lets go of is not in the poller. -/
def Clean (s : State) (l : Action) : Prop :=
  ∀ e t, body s l = .ok (e, t) →
    (s.referenced → ¬ t.referenced → t.connector.queue = []) ∧ (¬ s.lost → ¬ t.lost)

instance (s : State) (l : Action) : Decidable (Clean s l) :=
  decidable_of_iff (∀ r ∈ (body s l).toOption,
      (s.referenced → ¬ r.2.referenced → r.2.connector.queue = []) ∧ (¬ s.lost → ¬ r.2.lost))
    ⟨fun h e t hb => h (e, t) (by simp [hb, Except.toOption]), fun h r hr => by
      cases hb : body s l with
      | error f =>
        rw [hb] at hr
        cases hr
      | ok r' =>
        rw [hb] at hr
        cases hr
        exact h _ _ hb⟩

/-! ### One step -/

/-- The invariant, whoever lets go of the connector and when. -/
structure Kept (s : State) : Prop where
  held : s.alive = true → TcpClient.Held s.client
  grace : s.alive = true → s.grace = none
  abandoned : s.alive = false → Abandoned s.connector
  calling : s.alive = false → s.client.client.calling = none
  drained : s.client.client.draining = false → s.connector.batch = []
  dispatch : s.connector.dispatch ≠ [] → s.alive = true ∨ s.grace.isSome = true

theorem kept_initial : Kept initial where
  held := fun _ => TcpClient.held_initial
  grace := fun _ => rfl
  abandoned := nofun
  calling := nofun
  drained := nofun
  dispatch := fun h => absurd rfl h

variable {s t : State} {l : Action} {e : List TcpClient.Effect} {build : Build}
  {tr : List (Action × List TcpClient.Effect)}

/-- Who has the connection is nothing to the connector. -/
theorem Kept.share (h : Kept s) (shared : Bool) : Kept { s with shared } := { h with }

/-- What a turn of the loop does to a connector that nobody will start. -/
inductive Idles (c : Client.State) (a : Client.Action) (c' : Client.State) : Prop
  | poll : c.draining = true → c.connector.batch = [] →
      c' = { c with turn := c.turn + 1, draining := false } → Idles c a c'
  | drain : c.draining = false → c.connector.batch = [] → c'.turn = c.turn → c'.draining = true →
      c'.connector = { c.connector with
        batch := c.connector.pendingFunctors, pendingFunctors := [] } → Idles c a c'
  | runsDown : touches (.connector a) = true → RunsDown c.connector c'.connector →
      c'.turn = c.turn → c'.draining = c.draining → Idles c a c'

/-- The loop of a client that is gone. -/
theorem idles_step {c : Client.State} {a : Client.Action} (h : Abandoned c.connector)
    (hnone : c.calling = none) (hown : TcpClient.Own a) (hm : Client.may c a) :
    ∃ e c', Client.step c a = .ok (e, c') ∧ Abandoned c'.connector ∧ c'.calling = none ∧
      Idles c a c' := by
  cases a with
  | call => exact hown.elim
  | poll => exact ⟨_, _, rfl, h, hnone, .poll hm.2.2.2 hm.2.1 rfl⟩
  | timer setIn =>
    obtain ⟨e, c', hrun, hsingle, hd, -⟩ :=
      h.step (a := .timer) (by simp [TcpClient.Own]) hm.1 (by simp)
    exact ⟨e, { c with connector := c', timers := c.timers.erase setIn },
      by rw [Client.step, hrun]; rfl, h.runsDown hd hsingle, hnone, .runsDown rfl hd rfl rfl⟩
  | act a =>
    by_cases ha : a = .doPendingFunctors
    · subst ha
      have hbatch : c.connector.batch = [] := hm.1.2
      exact ⟨_, _, rfl, h.drain hbatch, hnone, .drain hm.2.1 hbatch rfl rfl rfl⟩
    · have htouches : touches (.connector (.act a)) = true := by
        cases a <;> first | rfl | exact absurd rfl ha
      obtain ⟨e, c', hrun, hsingle, hd, he⟩ := h.step hown hm.1 ha
      have hpassed : e.findSome? Connector.Effect.passed = none := by
        refine List.findSome?_eq_none_iff.mpr fun x hx => ?_
        obtain ⟨fd, rfl⟩ := he x hx
        rfl
      refine ⟨_, (c.after a (e, c')).2, by rw [Client.step, hrun]; rfl, h.runsDown hd hsingle, ?_,
        .runsDown htouches hd rfl ?_⟩
      · simp [Client.State.after, hpassed, hnone]
      · simp [Client.State.after, ha]

/-- `~TcpClient` leaves the connector to itself. -/
theorem destruct_spec (h : Kept s) (hm : may s .destruct) :
    ∃ e t, destruct s = .ok (e, t) ∧ Kept t := by
  obtain ⟨halive, ⟨⟨hinside, hdispatch⟩, hcalling⟩, -, -, hstarting, hstopping⟩ := hm
  have hheld := h.held halive
  have hentering (fd : Nat) : s.connector.inside ≠ some (.connect fd) := by
    rw [State.connector, hinside]
    exact nofun
  unfold destruct
  split
  · next hconn =>
    obtain ⟨id, hid⟩ := Option.isSome_iff_exists.mp hconn
    obtain ⟨c, hc, -⟩ := hheld.mem_iff.mp hid
    have hstate : s.connector.state = .kConnected := (hheld.settled c hc).1
    exact ⟨_, _, rfl, {
      held := nofun, grace := nofun
      abandoned := fun _ => {
        single := hheld.used.single
        asked := .inr hstate
        alone := ⟨hstarting, hstopping⟩
        entering := hentering
        stops := fun hc => by cases hstate.symm.trans hc }
      calling := fun _ => hcalling
      drained := h.drained
      dispatch := fun hne => absurd hdispatch hne }⟩
  · exact ⟨_, _, rfl, {
      held := nofun, grace := nofun
      abandoned := fun _ => {
        single := Connector.single_push_stop hheld.used.single (.inl rfl)
        asked := .inl rfl
        alone := ⟨hstarting, hstopping⟩
        entering := hentering
        stops := fun _ => by
          simp [State.connector, Connector.stop, Connector.queueInLoop, Connector.State.queue] }
      calling := fun _ => hcalling
      drained := h.drained
      dispatch := fun hne => absurd hdispatch hne }⟩

/-- An attempt of a connector that is registered is not outstanding. -/
theorem referenced_of_registered (h : Single s.connector) (hreg : s.connector.registered = true)
    (hr : s.referenced) : s.alive = true ∨ s.grace.isSome = true := by
  have hconnecting := h.connecting.mpr hreg
  obtain ⟨-, -, htimers, hinside⟩ := Single.of_quiet (h.quiet (by rw [hconnecting]; exact nofun))
  simpa [State.referenced, htimers, hinside, or_assoc] using hr

theorem not_isCall {a : TcpClient.Action} (halive : s.alive = false) (hm : may s (.act a)) :
    isCall a = false := by
  by_contra hne
  cases halive.symm.trans (hm.2 (by simpa using hne))

/-- The connector passes no socket on to a client that is gone. -/
theorem Kept.not_newConnection (h : Kept s) (halive : s.alive = false) (bind : Option Errno) :
    ¬ may s (.act (.newConnection bind)) := fun hm => by
  have hsome : s.client.client.calling.isSome = true := hm.1
  rw [h.calling halive] at hsome
  cases hsome

/-- After `~TcpClient`. -/
theorem act_dead {a : TcpClient.Action} (h : Kept s) (halive : s.alive = false)
    (hm : may s (.act a)) (hr : touches a = true → s.referenced) :
    ∃ e client, act s.client false a = .ok (e, client) ∧ Kept { s with client } ∧
      (client.client = s.client.client ∨
        ∃ b, a = .connector b ∧ Idles s.client.client b client.client) := by
  have hdead {P : Prop} : s.alive = true → P := fun ha => by cases halive.symm.trans ha
  have hcall := not_isCall halive hm
  cases a with
  | connect | enableRetry | disconnect | beginDisconnect | endDisconnect | stop | beginStop
  | endStop => cases hcall
  | newConnection bind => exact absurd hm (h.not_newConnection halive bind)
  | removeConnection id => exact ⟨_, _, rfl, { h with held := hdead }, .inl rfl⟩
  | connector a =>
    obtain ⟨e, c', hrun, habandoned, hnone, hidles⟩ :=
      idles_step (h.abandoned halive) (h.calling halive) hm.1.1 hm.1.2
    refine ⟨e.map .connector, { s.client with client := c' }, ?_, {
      held := hdead
      grace := h.grace
      abandoned := fun _ => habandoned
      calling := fun _ => hnone
      drained := ?_, dispatch := ?_ }, .inr ⟨a, rfl, hidles⟩⟩
    · show TcpClient.State.connector s.client a = _
      rw [TcpClient.State.connector, hrun]
      rfl
    · intro hdraining
      cases hidles with
      | poll _ hbatch hc =>
        rw [State.connector, hc]
        exact hbatch
      | drain _ _ _ hd => cases hd.symm.trans hdraining
      | runsDown _ hd _ hdrain =>
        have hbatch : s.client.client.connector.batch = [] := h.drained (hdrain.symm.trans hdraining)
        exact List.suffix_nil.mp (hbatch ▸ hd.batch)
    · intro hne
      cases hidles with
      | poll _ _ hc =>
        rw [State.connector, hc] at hne
        exact h.dispatch hne
      | drain _ _ _ _ hc =>
        rw [State.connector, hc] at hne
        exact h.dispatch hne
      | runsDown htouches hd _ _ =>
        rcases hd.dispatch hne with hne | hreg
        · exact h.dispatch hne
        · exact referenced_of_registered (s := s) (h.abandoned halive).single hreg (hr htouches)

/-- What is not gone is answered, if it can bind. -/
theorem body_spec (h : Kept s) (hm : may s l) (hbinds : Binds l)
    (hr : ∀ a, l = .act a → (touches a = true → s.referenced) ∧ (closes a = true → ¬ s.lost)) :
    ∃ e t, body s l = .ok (e, t) ∧ Kept t := by
  cases l with
  | destruct => exact destruct_spec h hm
  | removeConnector =>
    obtain ⟨hgrace, ⟨⟨-, hdispatch⟩, -⟩, -⟩ := hm
    exact ⟨_, _, rfl, { h with
      grace := fun _ => rfl, dispatch := fun hne => absurd hdispatch hne }⟩
  | hold | letGo => exact ⟨_, _, rfl, h.share _⟩
  | act a =>
    obtain ⟨hthere, hkept⟩ := hr a rfl
    have hnot : ¬ (touches a = true ∧ ¬ s.referenced ∨ closes a = true ∧ s.lost) := by
      rintro (⟨ht, hn⟩ | ⟨hc, hl⟩)
      · exact hn (hthere ht)
      · exact hkept hc hl
    rw [body, if_neg hnot]
    cases halive : s.alive with
    | false =>
      obtain ⟨e, client, hrun, hkept, -⟩ := act_dead h halive hm hthere
      have hkept : Kept { s with client } := hkept
      rw [hrun]
      exact ⟨e, _, rfl, halive ▸ hkept.share _⟩
    | true =>
      obtain ⟨e, client, hrun, hheld, -⟩ := TcpClient.held_step (h.held halive) hm.1 hbinds
      have hact : act s.client true a = .ok (e, client) := by
        cases a <;> exact hrun
      rw [hact]
      exact ⟨e, _, rfl, {
        held := fun _ => hheld
        grace := fun _ => h.grace halive
        abandoned := nofun
        calling := nofun
        drained := hheld.used.drained
        dispatch := fun _ => .inl rfl }⟩

theorem step_of_body (hb : body s l = .ok (e, t)) (hlost : ¬ s.lost → ¬ t.lost)
    (hnone : s.referenced → ¬ t.referenced → t.connector.channel = none) :
    step build s l = .ok (e, t) := by
  have hdestructs : destructs build s t = .ok () := by
    rw [destructs, if_neg fun hl => hlost hl.1 hl.2]
    split
    · next hgone =>
      rw [destructConnector, Build.assert, if_pos (.inr (hnone hgone.1 hgone.2))]
    · rfl
  rw [step, hb, ok_bind]
  dsimp only
  rw [hdestructs]
  rfl

theorem body_of_step (hs : step build s l = .ok (e, t)) : body s l = .ok (e, t) := by
  obtain ⟨⟨e', t'⟩, hb, hs⟩ := bind_eq_ok.mp hs
  obtain ⟨_, -, hs⟩ := bind_eq_ok.mp hs
  cases hs
  exact hb

/-- An action that is answered has touched nothing that is gone. -/
theorem body_act {a : TcpClient.Action} (hb : body s (.act a) = .ok (e, t)) :
    (touches a = true → s.referenced) ∧ (closes a = true → ¬ s.lost) ∧
      ∃ client, act s.client s.alive a = .ok (e, client) ∧
        t = { s with client, shared := s.shared && !client.registered.isEmpty } := by
  rw [body] at hb
  split at hb
  · cases hb
  · next hthere =>
    obtain ⟨⟨e', client⟩, hrun, hb⟩ := bind_eq_ok.mp hb
    cases hb
    obtain ⟨htouches, hcloses⟩ := not_or.mp hthere
    refine ⟨fun ht => ?_, fun hc hl => hcloses ⟨hc, hl⟩, client, hrun, rfl⟩
    by_contra hgone
    exact htouches ⟨ht, hgone⟩

/-- What is answered has bound its socket. -/
theorem binds_of_body (hm : may s l) (hb : body s l = .ok (e, t)) : Binds l := by
  cases l with
  | act a =>
    obtain ⟨-, -, client, hrun, -⟩ := body_act hb
    cases a with
    | newConnection bind =>
      cases halive : s.alive with
      | true =>
        rw [halive] at hrun
        exact TcpClient.binds_of_step (l := .newConnection bind) hm.1 hrun
      | false =>
        rw [halive] at hrun
        cases hrun
    | _ => trivial
  | _ => trivial

theorem kept_of_body (h : Kept s) (hm : may s l) (hb : body s l = .ok (e, t)) : Kept t := by
  have hthere (a : TcpClient.Action) (hl : l = .act a) :
      (touches a = true → s.referenced) ∧ (closes a = true → ¬ s.lost) := by
    subst hl
    exact ⟨(body_act hb).1, (body_act hb).2.1⟩
  obtain ⟨e', t', hb', hkept⟩ := body_spec h hm (binds_of_body hm hb) hthere
  cases hb.symm.trans hb'
  exact hkept

theorem kept_run (h : (machine build).Run initial tr s) : Kept s :=
  h.preserves (fun _ _ _ _ hs hm hstep => kept_of_body hs hm (body_of_step hstep)) kept_initial

/-! ### Without a reference -/

theorem not_alive (hgone : ¬ s.referenced) : s.alive = false := by
  by_contra hne
  exact hgone (.inl (by simpa using hne))

theorem Kept.outside (h : Kept s) (hgone : ¬ s.referenced) : s.connector.outside := by
  constructor
  · by_contra hne
    exact hgone (.inr (.inr (.inr (Option.isSome_iff_ne_none.mpr hne))))
  · by_contra hne
    rcases h.dispatch hne with ha | hg
    · exact hgone (.inl ha)
    · exact hgone (.inr (.inl hg))

/-- Only functors, and events of a channel that is still in the poller, come to a connector that
is gone. -/
theorem touches_gone {a : TcpClient.Action} (h : Kept s) (hgone : ¬ s.referenced)
    (hm : may s (.act a)) (ht : touches a = true) :
    s.connector.batch ≠ [] ∨ s.connector.registered = true := by
  have halive := not_alive hgone
  obtain ⟨hinside, hdispatch⟩ := h.outside hgone
  have habandoned := h.abandoned halive
  have hcall := not_isCall halive hm
  cases a with
  | connect | enableRetry | disconnect | beginDisconnect | endDisconnect | stop | beginStop
  | endStop => cases hcall
  | newConnection bind => exact absurd hm (h.not_newConnection halive bind)
  | removeConnection id => cases ht
  | connector l =>
    obtain ⟨hown, hm⟩ := hm.1
    cases l with
    | call => exact hown.elim
    | poll => cases ht
    | timer setIn =>
      have hpos : 0 < s.connector.retryTimers := hm.1.2.2
      exact absurd (.inr (.inr (.inl hpos))) hgone
    | act b =>
      have hmay := hm.1
      cases b with
      | start | restart | stop | beginStart | beginStop => simp [TcpClient.Own] at hown
      | endStart =>
        have hpos : 0 < s.connector.starting := hmay
        rw [habandoned.alone.1] at hpos
        cases hpos
      | endStop =>
        have hpos : 0 < s.connector.stopping := hmay
        rw [habandoned.alone.2] at hpos
        cases hpos
      | startInLoop => cases hinside.symm.trans hmay.1
      | connect =>
        obtain ⟨i, hi, -⟩ := hmay
        cases hinside.symm.trans hi
      | scheduleRetry => cases hinside.symm.trans hmay
      | callback => exact absurd hdispatch hmay.2
      | timer => exact hm.2.1.elim
      | doPendingFunctors => cases ht
      | handleEvent => exact .inr hmay.2.2.1
      | functor => exact .inl hmay.2

/-- Who is gone stays gone, with the functors that it has left. -/
theorem body_gone (h : Kept s) (hgone : ¬ s.referenced) (hm : may s l) (hb : body s l = .ok (e, t)) :
    ¬ t.referenced ∧ t.connector.queue = s.connector.queue := by
  have halive := not_alive hgone
  cases l with
  | destruct => cases halive.symm.trans hm.1
  | removeConnector => exact absurd (.inr (.inl hm.1)) hgone
  | hold => cases halive.symm.trans hm.1
  | letGo =>
    cases hb
    exact ⟨hgone, rfl⟩
  | act a =>
    obtain ⟨hthere, -, client, hrun, rfl⟩ := body_act hb
    have ht : touches a = false := by
      by_contra hne
      exact hgone (hthere (by simpa using hne))
    rw [halive] at hrun
    obtain ⟨e', client', hrun', -, hidles⟩ := act_dead h halive hm hthere
    cases hrun.symm.trans hrun'
    have hqueue : client.client.connector.retryTimers = s.connector.retryTimers ∧
        client.client.connector.inside = s.connector.inside ∧
        client.client.connector.queue = s.connector.queue := by
      rcases hidles with heq | ⟨b, rfl, hidles⟩
      · rw [heq]
        exact ⟨rfl, rfl, rfl⟩
      · cases hidles with
        | poll _ _ hc =>
          rw [hc]
          exact ⟨rfl, rfl, rfl⟩
        | drain _ hbatch _ _ hc =>
          rw [hc]
          exact ⟨rfl, rfl, by simp [Connector.State.queue, State.connector, hbatch]⟩
        | runsDown htouches => cases ht.symm.trans htouches
    obtain ⟨htimers, hinside, hqueue⟩ := hqueue
    refine ⟨?_, hqueue⟩
    simpa [State.referenced, State.connector, halive, htimers, hinside] using hgone

/-- No action deletes a connection. -/
theorem lost_of_act {a : TcpClient.Action} (hm : may s (.act a)) (hb : body s (.act a) = .ok (e, t))
    (hl : t.lost) : s.lost := by
  obtain ⟨-, -, client, hrun, rfl⟩ := body_act hb
  obtain ⟨halive, hshared, hregistered⟩ := hl
  have halive : s.alive = false := halive
  have hsub : client.registered ⊆ s.client.registered := by
    have hcall := not_isCall halive hm
    rw [halive] at hrun
    cases a with
    | connect | enableRetry | disconnect | beginDisconnect | endDisconnect | stop | beginStop
    | endStop => cases hcall
    | newConnection bind => cases hrun
    | removeConnection id =>
      cases hrun
      exact List.filter_subset_self _
    | connector a =>
      obtain ⟨r, -, hrun⟩ := bind_eq_ok.mp hrun
      cases hrun
      exact List.Subset.refl _
  have hmore : s.client.registered ≠ [] := fun hnil => by
    rw [hnil] at hsub
    exact hregistered (List.subset_nil.mp hsub)
  refine ⟨halive, ?_, hmore⟩
  have hempty : client.registered.isEmpty = false := by
    rw [List.isEmpty_eq_false_iff]
    exact hregistered
  simpa [hempty] using hshared

/-- A connection that is deleted stays where it is. -/
theorem lost_body (hl : s.lost) (hm : may s l) (hb : body s l = .ok (e, t)) : t.lost := by
  obtain ⟨halive, hshared, hregistered⟩ := hl
  cases l with
  | destruct | hold => cases halive.symm.trans hm.1
  | removeConnector =>
    cases hb
    exact ⟨halive, hshared, hregistered⟩
  | letGo => cases hshared.symm.trans hm
  | act a =>
    obtain ⟨-, hcloses, client, hrun, rfl⟩ := body_act hb
    have hcall := not_isCall halive hm
    rw [halive] at hrun
    cases a with
    | connect | enableRetry | disconnect | beginDisconnect | endDisconnect | stop | beginStop
    | endStop => cases hcall
    | newConnection bind => cases hrun
    | removeConnection id => exact absurd ⟨halive, hshared, hregistered⟩ (hcloses rfl)
    | connector a =>
      obtain ⟨r, -, hrun⟩ := bind_eq_ok.mp hrun
      cases hrun
      exact ⟨halive, by simp [hshared], hregistered⟩

/-- A connector that nobody will start is done once its functors have run. -/
theorem channel_none {c : Connector.State} (h : Abandoned c) (hqueue : c.queue = []) :
    c.registered = false ∧ c.channel = none ∧ c.sockets = [] := by
  have hreg : c.registered = false := by
    by_contra hne
    have hmem := h.stops (h.single.connecting.mpr (by simpa using hne))
    rw [hqueue] at hmem
    cases hmem
  have hresets := h.single.resets
  rw [hqueue] at hresets
  refine ⟨hreg, ?_, h.single.closed hreg h.entering⟩
  by_contra hne
  rw [if_pos ⟨Option.isSome_iff_ne_none.mpr hne, hreg⟩] at hresets
  cases hresets

/-- The invariant of a connector and a connection that are let go of in time. -/
structure Sound (s : State) : Prop where
  kept : Kept s
  gone : ¬ s.referenced → s.connector.queue = []
  there : ¬ s.lost

theorem sound_initial : Sound initial :=
  ⟨kept_initial, fun hgone => absurd (.inl rfl) hgone, fun hl => by cases hl.1⟩

theorem Sound.touched (h : Sound s) (hm : may s l) (a : TcpClient.Action) (hl : l = .act a) :
    (touches a = true → s.referenced) ∧ (closes a = true → ¬ s.lost) := by
  subst hl
  refine ⟨fun ht => ?_, fun _ => h.there⟩
  by_contra hgone
  have hqueue := h.gone hgone
  rcases touches_gone h.kept hgone hm ht with hbatch | hreg
  · exact hbatch (List.append_eq_nil_iff.mp hqueue).1
  · cases hreg.symm.trans (channel_none (h.kept.abandoned (not_alive hgone)) hqueue).1

/-- What is let go of in time is not missed. -/
theorem sound_of_body (h : Sound s) (hm : may s l) (hclean : Clean s l)
    (hb : body s l = .ok (e, t)) : Sound t := by
  refine ⟨kept_of_body h.kept hm hb, fun ht => ?_, (hclean e t hb).2 h.there⟩
  by_cases hs : s.referenced
  · exact (hclean e t hb).1 hs ht
  · exact (body_gone h.kept hs hm hb).2.trans (h.gone hs)

theorem sound_step (h : Sound s) (hm : may s l) (hclean : Clean s l) (hbinds : Binds l) :
    ∃ e t, step build s l = .ok (e, t) ∧ Sound t := by
  obtain ⟨e, t, hb, hkept⟩ := body_spec h.kept hm hbinds (h.touched hm)
  have ht := sound_of_body h hm hclean hb
  refine ⟨e, t, step_of_body hb (hclean e t hb).2 fun _ hgone => ?_, ht⟩
  exact (channel_none (hkept.abandoned (not_alive hgone)) (ht.gone hgone)).2.1

/-! ### A functor of a deleted connector -/

/-- The next functor of the batch. -/
def functor : Action := .act (.connector (.act .functor))

def doPendingFunctors : Action := .act (.connector (.act .doPendingFunctors))

def poll : Action := .act (.connector .poll)

theorem functor_dangles (h : Kept s) (hgone : ¬ s.referenced) (hbatch : s.connector.batch ≠ []) :
    (machine build).may s functor ∧ step build s functor = .error .dangling := by
  have hdraining : s.client.client.draining = true := by
    by_contra hne
    exact hbatch (h.drained (by simpa using hne))
  refine ⟨⟨⟨by simp [TcpClient.Own], ⟨h.outside hgone, hbatch⟩, hdraining,
    fun _ => h.calling (not_alive hgone)⟩, nofun⟩, ?_⟩
  rw [step, functor, body, if_pos (.inl ⟨rfl, hgone⟩)]
  rfl

/-- The functors that have been queued become the batch. -/
theorem drain_dangles (h : Kept s) (hgone : ¬ s.referenced) (hqueue : s.connector.queue ≠ [])
    (hdraining : s.client.client.draining = false) :
    ∃ tr t, (machine build).Run s tr t ∧ (machine build).may t functor ∧
      step build t functor = .error .dangling := by
  have hbatch : s.connector.batch = [] := h.drained hdraining
  have hm : may s doPendingFunctors := ⟨⟨by simp [TcpClient.Own], ⟨h.outside hgone, hbatch⟩,
    hdraining, fun _ => h.calling (not_alive hgone)⟩, nofun⟩
  obtain ⟨t, hb, hpending⟩ : ∃ t, body s doPendingFunctors = .ok ([], t) ∧
      t.connector.batch = s.connector.pendingFunctors := by
    rw [doPendingFunctors, body, if_neg (by simp [touches, closes])]
    exact ⟨_, rfl, rfl⟩
  obtain ⟨hgone', -⟩ := body_gone h hgone hm hb
  refine ⟨_, t, .single (l := doPendingFunctors) hm
      (step_of_body hb (mt (lost_of_act hm hb)) fun hs => absurd hs hgone),
    functor_dangles (kept_of_body h hm hb) hgone' ?_⟩
  rw [hpending]
  intro hnil
  exact hqueue (List.append_eq_nil_iff.mpr ⟨hbatch, hnil⟩)

/-- The loop comes to what has been queued. -/
theorem comes_to_functor (h : Kept s) (hgone : ¬ s.referenced) (hqueue : s.connector.queue ≠ []) :
    ∃ tr t, (machine build).Run s tr t ∧ (machine build).may t functor ∧
      step build t functor = .error .dangling := by
  by_cases hbatch : s.connector.batch = []
  · cases hdraining : s.client.client.draining with
    | false => exact drain_dangles h hgone hqueue hdraining
    | true =>
      have hm : may s poll := ⟨⟨trivial, h.outside hgone, hbatch,
        h.calling (not_alive hgone), hdraining⟩, nofun⟩
      obtain ⟨t, hb, hdraining'⟩ : ∃ t, body s poll = .ok ([], t) ∧ t.client.client.draining = false := by
        rw [poll, body, if_neg (by simp [touches, closes])]
        exact ⟨_, rfl, rfl⟩
      obtain ⟨hgone', hqueue'⟩ := body_gone h hgone hm hb
      obtain ⟨tr, u, hrun, hdangles⟩ : ∃ tr u, (machine build).Run t tr u ∧
          (machine build).may u functor ∧ step build u functor = .error .dangling :=
        drain_dangles (kept_of_body h hm hb) hgone' (hqueue' ▸ hqueue) hdraining'
      exact ⟨_, u, .cons (l := poll) hm
        (step_of_body hb (mt (lost_of_act hm hb)) fun hs => absurd hs hgone) hrun, hdangles⟩
  · exact ⟨[], s, .nil s, functor_dangles h hgone hbatch⟩

/-- Whatever comes first, the loop comes to it. -/
theorem doomed (h : Kept s) (hgone : ¬ s.referenced) (hqueue : s.connector.queue ≠ [])
    (hrun : (machine build).Run s tr t) :
    ∃ tr' u, (machine build).Run t tr' u ∧ (machine build).may u functor ∧
      step build u functor = .error .dangling := by
  obtain ⟨hkept, hgone', hqueue'⟩ : Kept t ∧ ¬ t.referenced ∧ t.connector.queue = s.connector.queue := by
    refine hrun.preserves (I := fun t => Kept t ∧ ¬ t.referenced ∧
      t.connector.queue = s.connector.queue) ?_ ⟨h, hgone, rfl⟩
    rintro t l e u ⟨hkept, hgone, hsame⟩ hm hstep
    have hb := body_of_step hstep
    obtain ⟨hgone', hqueue'⟩ := body_gone hkept hgone hm hb
    exact ⟨kept_of_body hkept hm hb, hgone', hqueue'.trans hsame⟩
  exact comes_to_functor hkept hgone' (hqueue' ▸ hqueue)

/-- An event of a deleted connection. -/
theorem lost_dangles (hl : s.lost) (id : Nat) :
    step build s (.act (.removeConnection id)) = .error .dangling := by
  rw [step, body, if_pos (.inr ⟨rfl, hl⟩)]
  rfl

/-- **A connector may be let go of exactly if none of its functors is queued, and a connection if
it is not in the poller.** As long as that is kept to, in either build, everything is answered:
`~Connector` finds no channel, no socket is left, and what `newConnection` of a destroyed client is
bound to is never called. Where it is not, the step fails, or whatever comes after it the loop can
go on to a functor of the deleted connector, or the poller keeps the channel of a deleted
connection for good. -/
theorem client_lifetime (h : ((machine build).only Clean).Run initial tr s) :
    (∀ l, may s l → Clean s l → Binds l → ∃ e t, step build s l = .ok (e, t)) ∧
    (¬ s.referenced → s.connector.channel = none ∧ s.connector.sockets = []) ∧ ¬ s.lost ∧
    (s.alive = false → ∀ bind, ¬ may s (.act (.newConnection bind))) ∧
    ∀ l, may s l → ¬ Clean s l → (∃ f, step build s l = .error f) ∨
      ∃ e t, step build s l = .ok (e, t) ∧
        ((∀ tr' u, (machine build).Run t tr' u →
          ∃ tr'' v, (machine build).Run u tr'' v ∧ (machine build).may v functor ∧
            step build v functor = .error .dangling) ∨
        ∀ tr' u, (machine build).Run t tr' u → u.lost ∧
          ∀ id, step build u (.act (.removeConnection id)) = .error .dangling) := by
  have hsound : Sound s := h.preserves (fun _ _ _ _ hs hm hstep =>
    sound_of_body hs hm.1 hm.2 (body_of_step hstep)) sound_initial
  refine ⟨fun l hm hclean hbinds => ?_, fun hgone => ?_, hsound.there,
    fun halive bind => hsound.kept.not_newConnection halive bind, fun l hm hclean => ?_⟩
  · obtain ⟨e, t, hstep, -⟩ : ∃ e t, step build s l = .ok (e, t) ∧ Sound t :=
      sound_step hsound hm hclean hbinds
    exact ⟨e, t, hstep⟩
  · exact (channel_none (hsound.kept.abandoned (not_alive hgone)) (hsound.gone hgone)).2
  · cases hstep : step build s l with
    | error f => exact .inl ⟨f, rfl⟩
    | ok r =>
      obtain ⟨e, t⟩ := r
      have hb := body_of_step hstep
      refine .inr ⟨e, t, rfl, ?_⟩
      by_cases hlost : t.lost
      · refine .inr fun tr' u hrun => ?_
        have hu : u.lost := hrun.preserves
          (fun _ _ _ _ hl hm hstep => lost_body hl hm (body_of_step hstep)) hlost
        exact ⟨hu, lost_dangles hu⟩
      · refine .inl fun tr' u hrun => ?_
        have hlast : ¬ t.referenced ∧ t.connector.queue ≠ [] := by
          by_contra hne
          refine hclean fun e' t' hb' => ?_
          cases hb.symm.trans hb'
          refine ⟨fun _ hgone => ?_, fun _ => hlost⟩
          by_contra hqueue
          exact hne ⟨hgone, hqueue⟩
        exact doomed (kept_of_body hsound.kept hm hb) hlast.1 hlast.2 hrun

/-- A client is destroyed while the connector waits for the socket, and the loop turns twice. -/
def destroying : List Action :=
  [.act (.connect true), .act (.connector (.act (.startInLoop 5))),
    .act (.connector (.act (.connect (some .EINPROGRESS)))), .destruct, poll, doPendingFunctors,
    functor, .act (.connector (.act .scheduleRetry)), poll]

/-- A second that is over after two turns. -/
theorem client_lifetime_two_turns : ∃ tr s e t, ((machine .release).only Clean).Run initial tr s ∧
    s.grace = some 0 ∧ s.client.client.turn = 2 ∧ step .release s .removeConnector = .ok (e, t) ∧
    ∃ tr' u, (machine .release).Run t tr' u ∧ step .release u functor = .error .dangling := by
  obtain ⟨tr, s, h, -, hgrace, hturn, hnone, hm, hclean, hok⟩ :=
    ((machine .release).only Clean).exists_run_of_replay (s := initial)
      (P := fun _ s => s.grace = some 0 ∧ s.client.client.turn = 2 ∧ s.client.registered = [] ∧
        (machine .release).may s .removeConnector ∧ ¬ Clean s .removeConnector ∧
        (step .release s .removeConnector).isOk = true)
      destroying (by decide +kernel)
  rcases (client_lifetime h).2.2.2.2 .removeConnector hm hclean with
    ⟨f, hf⟩ | ⟨e, t, hstep, hdoomed | hlost⟩
  · rw [hf] at hok
    cases hok
  · obtain ⟨tr', u, hrun, -, hdangles⟩ := hdoomed [] t (.nil t)
    exact ⟨tr, s, e, t, h, hgrace, hturn, hstep, tr', u, hrun, hdangles⟩
  · obtain ⟨⟨-, -, hsome⟩, -⟩ := hlost [] t (.nil t)
    cases body_of_step hstep
    exact absurd hnone hsome

end Leanet.Lifetime

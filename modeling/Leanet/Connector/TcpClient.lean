import Leanet.Connector.Ledger

/-! A client and the connections that come and go under it.

`connect` is called once, `disconnect` and `stop` from any thread afterwards. The constructor of a
connection binds the socket that is connected already, and aborts where bind(2) does not let it; on
Linux it does not. A connection is registered by `newConnection` and found by a later poll(2), so
that its close comes in a later turn than the one it was made in; it is reported once. `removeConnection` then forgets the
connection and restarts the connector if it may. Its test of `connected_` and the store in
`restart` are one step here: a `stop` that gets between the two is undone by the second.

The connections come one after the other, numbered from one (`connections_in_turn`): there is
none when the connector passes a socket on, and the one that closes is the one that is known. Once
`disconnect` has stored its flag no connection is made but for the attempt in progress, which
`disconnect` does not call off (`at_most_one_more`). -/
namespace Leanet

namespace Client
open Connector (Single)

/-- A connector that has passed its socket on stays where it is until it is restarted. -/
theorem Used.settled {s s' : State} {l : Action} {e : List Connector.Effect} (h : Used s)
    (hstate : s.connector.state = .kConnected) (hnone : s.calling = none) (hm : may s l)
    (hl : l ≠ .act .restart) (hstep : step s l = .ok (e, s')) :
    s'.connector.state = .kConnected ∧ s'.calling = none ∧ s'.called = s.called := by
  have hquiet := h.single.quiet (by rw [hstate]; exact nofun)
  obtain ⟨hstarting, hqueue, htimers, hinside⟩ := Single.of_quiet hquiet
  cases l with
  | poll =>
    cases hstep
    exact ⟨hstate, hnone, rfl⟩
  | timer setIn =>
    have hpos : 0 < s.connector.retryTimers := hm.1.2.2
    omega
  | call =>
    have hsome : s.calling.isSome = true := hm
    rw [hnone] at hsome
    cases hsome
  | act a =>
    obtain ⟨r, hr, hstep⟩ := bind_eq_ok.mp hstep
    cases hstep
    have hmay := hm.1
    cases a with
    | start | beginStart =>
      have hfresh := h.fresh hm.2.1
      rw [hfresh] at hstate
      cases hstate
    | restart => exact absurd rfl hl
    | stop | beginStop | endStop | doPendingFunctors =>
      cases hr
      exact ⟨hstate, hnone, rfl⟩
    | endStart =>
      have hpos : 0 < s.connector.starting := hmay
      omega
    | startInLoop =>
      have hin : s.connector.inside = some .startInLoop := hmay.1
      cases hinside.symm.trans hin
    | connect =>
      obtain ⟨i, hi, -⟩ := hmay
      rw [hinside] at hi
      cases hi
    | scheduleRetry =>
      have hin : s.connector.inside = some .retry := hmay
      cases hinside.symm.trans hin
    | handleEvent =>
      have hconnecting := h.single.connecting.mpr hmay.2.2.1
      cases hstate.symm.trans hconnecting
    | callback => exact absurd hstate (h.single.unconnected hmay.2)
    | timer => exact hm.2.1.elim
    | functor =>
      obtain ⟨e, c⟩ := r
      obtain ⟨f, rest, hrest, hcases⟩ := Connector.functor_cases h.single hmay hr
      have hmem : f ∈ s.connector.queue := by
        rw [Connector.State.queue, hrest]
        exact List.mem_cons_self
      rcases hcases with ⟨rfl, -⟩ | ⟨rfl, ⟨rfl, rfl⟩ | ⟨hconnecting, -⟩⟩ | ⟨rfl, rfl, rfl⟩
      · exact absurd hmem hqueue
      · exact ⟨hstate, hnone, rfl⟩
      · cases hstate.symm.trans hconnecting
      · exact ⟨hstate, hnone, rfl⟩

/-- Who has started and who has stopped is not forgotten. -/
theorem step_flags {s s' : State} {l : Action} {e : List Connector.Effect}
    (hstep : step s l = .ok (e, s')) :
    (s.started = true → s'.started = true) ∧
    ((∀ a, l = .act a → isStop a = false) → s'.stopped = s.stopped) := by
  cases l with
  | poll =>
    cases hstep
    exact ⟨id, fun _ => rfl⟩
  | timer setIn =>
    obtain ⟨r, -, hstep⟩ := bind_eq_ok.mp hstep
    cases hstep
    exact ⟨id, fun _ => rfl⟩
  | call =>
    obtain ⟨sockfd, -, hstep⟩ := bind_eq_ok.mp hstep
    cases hstep
    exact ⟨id, fun _ => rfl⟩
  | act a =>
    obtain ⟨r, -, hstep⟩ := bind_eq_ok.mp hstep
    cases hstep
    exact ⟨fun hs => by simp [hs], fun hl => by simp [hl a rfl]⟩

end Client

namespace TcpClient

structure State where
  /-- `connector_`, and the loop it lives on. -/
  client : Client.State
  retry : Bool
  connected : Bool
  nextConnId : Nat
  /-- `connection_`, by its number. -/
  connection : Option Nat
  /-- The connections in the poller, with the turn they were made in. -/
  registered : List (Nat × Nat)
  /-- Other threads inside `disconnect`, past the store. -/
  disconnecting : Nat
  /-- Other threads inside `stop`, past the store. -/
  stopping : Nat
  deriving DecidableEq

inductive Effect where
  | connector (e : Connector.Effect)
  /-- `connectEstablished` of the connection with this number. -/
  | connectEstablished (id : Nat)
  | shutdown (id : Nat)
  /-- `connectDestroyed` is queued. -/
  | connectDestroyed (id : Nat)
  deriving DecidableEq

/-- `TcpClient(loop, serverAddr, name)`. -/
def initial : State where
  client := Client.initial
  retry := false
  connected := true
  nextConnId := 1
  connection := none
  registered := []
  disconnecting := 0
  stopping := 0

/-- One step of the connector. -/
def State.connector (s : State) (l : Client.Action) : Except Fault (List Effect × State) := do
  let (effects, client) ← Client.step s.client l
  pure (effects.map .connector, { s with client })

def connect (s : State) (l : Connector.Action) : Except Fault (List Effect × State) :=
  ({ s with connected := true } : State).connector (.act l)

/-- `disconnect`, its critical section. -/
def shutdown (s : State) : List Effect :=
  match s.connection with
  | some id => [.shutdown id]
  | none => []

/-- `sockets::bindOrDie`, for what bind(2) returns. -/
def bindOrDie (bind : Option Errno) : Except Fault Unit :=
  if bind.isSome then .error .fatal else .ok ()

def newConnection (s : State) (bind : Option Errno) : Except Fault (List Effect × State) := do
  let (effects, s) ← s.connector .call
  let id := s.nextConnId
  let s := { s with nextConnId := id + 1 }
  -- the constructor of `TcpConnection`
  bindOrDie bind
  let s := { s with connection := some id }
  pure (effects ++ [.connectEstablished id],
    { s with registered := (id, s.client.turn) :: s.registered })

def removeConnection (s : State) (id : Nat) : Except Fault (List Effect × State) := do
  assert (s.connection = some id)
  let s := { s with connection := none }
  if s.retry ∧ s.connected then
    let (effects, s) ← s.connector (.act .restart)
    pure (.connectDestroyed id :: effects, s)
  else pure ([.connectDestroyed id], s)

/-! ### The machine -/

inductive Action where
  /-- `connect`, which calls `start` on the loop's thread or on another. -/
  | connect (onLoop : Bool)
  | enableRetry
  | disconnect
  /-- Another thread calls `disconnect`, up to the store. -/
  | beginDisconnect
  | endDisconnect
  | stop
  /-- Another thread calls `stop`, up to the store. -/
  | beginStop
  | endStop
  /-- The new connection, whose bind(2) returns this. -/
  | newConnection (bind : Option Errno)
  /-- `handleClose` of a connection, which has left the poller then. -/
  | removeConnection (id : Nat)
  | connector (l : Client.Action)
  deriving DecidableEq

/-- `start` on the loop's thread or on another. -/
def startOf (onLoop : Bool) : Connector.Action := if onLoop then .start else .beginStart

/-- What the connector does when nobody calls it. -/
def Own : Client.Action → Prop
  | .call => False
  | .act a => a ≠ .start ∧ a ≠ .beginStart ∧ a ≠ .restart ∧ a ≠ .stop ∧ a ≠ .beginStop
  | _ => True

/-- The loop's thread is not in a function of the connector. -/
def State.outside (s : State) : Prop := s.client.connector.outside ∧ s.client.calling = none

def may (s : State) : Action → Prop
  | .connect onLoop => Client.may s.client (.act (startOf onLoop))
  | .enableRetry => True
  | .disconnect => s.client.started = true ∧ s.outside
  | .beginDisconnect | .beginStop => s.client.started = true
  | .endDisconnect => 0 < s.disconnecting
  | .stop => Client.may s.client (.act .stop)
  | .endStop => 0 < s.stopping
  | .newConnection _ => Client.may s.client .call
  | .removeConnection id => s.outside ∧ s.client.draining = false ∧
      ∃ c ∈ s.registered, c.1 = id ∧ c.2 < s.client.turn
  | .connector l => Own l ∧ Client.may s.client l

def step (s : State) : Action → Except Fault (List Effect × State)
  | .connect onLoop => connect s (startOf onLoop)
  | .enableRetry => pure ([], { s with retry := true })
  | .disconnect => pure (shutdown s, { s with connected := false })
  | .beginDisconnect => pure ([], { s with connected := false, disconnecting := s.disconnecting + 1 })
  | .endDisconnect => pure (shutdown s, { s with disconnecting := s.disconnecting - 1 })
  | .stop => ({ s with connected := false } : State).connector (.act .stop)
  | .beginStop => pure ([], { s with connected := false, stopping := s.stopping + 1 })
  | .endStop => ({ s with stopping := s.stopping - 1 } : State).connector (.act .beginStop)
  | .newConnection bind => newConnection s bind
  | .removeConnection id =>
    removeConnection { s with registered := s.registered.filter (·.1 ≠ id) } id
  | .connector l => s.connector l

def machine : Machine State Action (List Effect) Fault where
  may := may
  step := step

/-- bind(2) succeeds. -/
def Binds : Action → Prop
  | .newConnection bind => bind = none
  | _ => True

instance : (l : Client.Action) → Decidable (Own l)
  | .call => inferInstanceAs (Decidable False)
  | .act _ => inferInstanceAs (Decidable (_ ∧ _ ∧ _ ∧ _ ∧ _))
  | .poll | .timer _ => inferInstanceAs (Decidable True)

instance (s : State) : Decidable s.outside := inferInstanceAs (Decidable (_ ∧ _))

instance (s : State) : (l : Action) → Decidable (machine.may s l)
  | .connect onLoop => inferInstanceAs (Decidable (Client.may s.client (.act (startOf onLoop))))
  | .stop => inferInstanceAs (Decidable (Client.may s.client (.act .stop)))
  | .newConnection _ => inferInstanceAs (Decidable (Client.may s.client .call))
  | .enableRetry => inferInstanceAs (Decidable True)
  | .disconnect | .connector _ => inferInstanceAs (Decidable (_ ∧ _))
  | .beginDisconnect | .beginStop => inferInstanceAs (Decidable (_ = _))
  | .endDisconnect | .endStop => inferInstanceAs (Decidable (_ < _))
  | .removeConnection id => inferInstanceAs (Decidable (s.outside ∧ s.client.draining = false ∧
      ∃ c ∈ s.registered, c.1 = id ∧ c.2 < s.client.turn))

/-! ### The history -/

/-- The connection an effect establishes. -/
def Effect.established : Effect → Option Nat
  | .connectEstablished id => some id
  | _ => none

/-- The connection an effect sends to its end. -/
def Effect.destroyed : Effect → Option Nat
  | .connectDestroyed id => some id
  | _ => none

/-- The connections made, in order. -/
def established (tr : List (Action × List Effect)) : List Nat :=
  tr.flatMap fun e => e.2.filterMap Effect.established

/-- The connections closed, in order. -/
def destroyed (tr : List (Action × List Effect)) : List Nat :=
  tr.flatMap fun e => e.2.filterMap Effect.destroyed

/-! ### One step -/

/-- The invariant. -/
structure Held (s : State) : Prop where
  used : Client.Used s.client
  ahead : s.connected = true → s.client.stopped = false
  stopping : 0 < s.stopping → s.client.started = true ∧ s.connected = false
  known : s.registered.map Prod.fst = s.connection.toList
  settled : ∀ c ∈ s.registered, s.client.connector.state = .kConnected ∧
    s.client.calling = none ∧ s.client.called = some c.2

theorem held_initial : Held initial where
  used := Client.used_initial
  ahead := fun _ => rfl
  stopping := nofun
  known := rfl
  settled := nofun

variable {s t : State} {l : Action} {e : List Effect} {tr : List (Action × List Effect)}
  {bind : Option Errno}

/-- A connection that is known is in the poller, and the other way round. -/
theorem Held.mem_iff (h : Held s) {id : Nat} :
    s.connection = some id ↔ ∃ c ∈ s.registered, c.1 = id := by
  rw [← Option.mem_toList, ← h.known, List.mem_map]

/-- The client around a connector that has taken a step. -/
theorem Held.after {a : Client.Action} (h : Held s) (hm : Client.may s.client a)
    (hrestart : a = .act .restart → s.registered = [])
    (hstop : ∀ c, a = .act c → Client.isStop c = true → s.connected = false) :
    ∃ (effects : List Connector.Effect) (client : Client.State),
      Client.step s.client a = .ok (effects, client) ∧
      s.connector a = .ok (effects.map .connector, { s with client }) ∧
      Held { s with client } := by
  obtain ⟨effects, client, hstep, hused⟩ := Client.used_inductive s.client a h.used hm
  have hstep : Client.step s.client a = .ok (effects, client) := hstep
  obtain ⟨hstarted, hstopped⟩ := Client.step_flags hstep
  refine ⟨effects, client, hstep, by rw [State.connector, hstep]; rfl, hused, fun hc => ?_,
    fun hpos => ?_, h.known, fun c hc => ?_⟩
  · refine (hstopped fun a ha => ?_).trans (h.ahead hc)
    by_contra hstops
    cases hc.symm.trans (hstop a ha (by simpa using hstops))
  · exact ⟨hstarted (h.stopping hpos).1, (h.stopping hpos).2⟩
  · obtain ⟨hstate, hnone, hcalled⟩ := h.settled c hc
    have hl : a ≠ .act .restart := fun heq => by
      rw [hrestart heq] at hc
      cases hc
    obtain ⟨hstate', hnone', hcalled'⟩ := h.used.settled hstate hnone hm hl hstep
    exact ⟨hstate', hnone', hcalled'.trans hcalled⟩

/-- What a step adds to the history. -/
structure Adds (s : State) (e : List Effect) (t : State) : Prop where
  numbers : ∃ n, t.nextConnId = s.nextConnId + n ∧
    e.filterMap Effect.established = List.range' s.nextConnId n
  order : s.connection.toList ++ e.filterMap Effect.established =
    e.filterMap Effect.destroyed ++ t.connection.toList

theorem established_connector (effects : List Connector.Effect) :
    (effects.map Effect.connector).filterMap Effect.established = [] := by
  simp [List.filterMap_map, Function.comp_def, Effect.established]

theorem destroyed_connector (effects : List Connector.Effect) :
    (effects.map Effect.connector).filterMap Effect.destroyed = [] := by
  simp [List.filterMap_map, Function.comp_def, Effect.destroyed]

/-- A step that neither makes nor closes a connection. -/
theorem adds_nothing (hid : t.nextConnId = s.nextConnId) (hconn : t.connection = s.connection)
    (hestablished : e.filterMap Effect.established = [])
    (hdestroyed : e.filterMap Effect.destroyed = []) : Adds s e t :=
  ⟨⟨0, hid, hestablished⟩, by rw [hestablished, hdestroyed, hconn, List.append_nil, List.nil_append]⟩

theorem adds_connector (hid : t.nextConnId = s.nextConnId) (hconn : t.connection = s.connection)
    (effects : List Connector.Effect) : Adds s (effects.map .connector) t :=
  adds_nothing hid hconn (established_connector effects) (destroyed_connector effects)

theorem shutdown_effects (s : State) : (shutdown s).filterMap Effect.established = [] ∧
    (shutdown s).filterMap Effect.destroyed = [] := by
  unfold shutdown
  split <;> exact ⟨rfl, rfl⟩

theorem newConnection_step (h : Held s) (bind : Option Errno) (hm : may s (.newConnection bind)) :
    s.connection = none ∧
      ∃ e t, newConnection s none = .ok (e, t) ∧ Held t ∧ Adds s e t := by
  have hcalling : s.client.calling.isSome = true := hm
  obtain ⟨hstate, -⟩ := h.used.calling hcalling
  -- A connection that is there has settled the connector.
  have hnone : s.registered = [] := by
    refine List.eq_nil_iff_forall_not_mem.mpr fun c hc => ?_
    rw [(h.settled c hc).2.1] at hcalling
    cases hcalling
  have hconn : s.connection = none := by
    have := h.known
    rw [hnone] at this
    exact Option.toList_eq_nil_iff.mp this.symm
  refine ⟨hconn, ?_⟩
  obtain ⟨effects, client, hstep, hrun, hheld⟩ := h.after (a := .call) hm (by simp) (by simp)
  obtain ⟨sockfd, -, hstep⟩ := bind_eq_ok.mp hstep
  cases hstep
  refine ⟨_, _, by rw [newConnection, hrun]; rfl, ?_, ?_⟩
  · exact {
      used := hheld.used, ahead := hheld.ahead, stopping := hheld.stopping
      known := by simp [hnone]
      settled := fun c hc => by
        obtain rfl : c = (s.nextConnId, s.client.turn) := by simpa [hnone] using hc
        exact ⟨hstate, rfl, rfl⟩ }
  · exact ⟨⟨1, rfl, rfl⟩, by rw [hconn]; rfl⟩

/-- The connection that closes is the one that is known, and a restart finds the connector at
rest. -/
theorem removeConnection_step (h : Held s) {id : Nat} (hm : may s (.removeConnection id)) :
    ∃ e t, step s (.removeConnection id) = .ok (e, t) ∧ Held t ∧ Adds s e t := by
  obtain ⟨⟨hout, hcalling⟩, -, c, hc, rfl, hlt⟩ := hm
  obtain ⟨hstate, -, hcalled⟩ := h.settled c hc
  have hconn : s.connection = some c.1 := h.mem_iff.mpr ⟨c, hc, rfl⟩
  -- It is the only one.
  have hnone : s.registered.filter (·.1 ≠ c.1) = [] := by
    refine List.filter_eq_nil_iff.mpr fun d hd => ?_
    have := h.mem_iff.mpr ⟨d, hd, rfl⟩
    rw [hconn] at this
    simpa using (Option.some.inj this).symm
  let u : State := { s with registered := [], connection := none }
  have hu : Held u := ⟨h.used, h.ahead, h.stopping, rfl, nofun⟩
  simp only [step, removeConnection, hnone, assert_holds hconn, ok_bind]
  by_cases hretry : s.retry = true ∧ s.connected = true
  · have hmay : Client.may u.client (.act .restart) :=
      ⟨hout, ⟨hstate, h.ahead hretry.2, c.2, hcalled, hlt⟩, fun _ => hcalling⟩
    obtain ⟨effects, client, -, hrun, hheld⟩ := hu.after hmay (fun _ => rfl) (by simp [Client.isStop])
    have hestablished : (Effect.connectDestroyed c.1 :: effects.map .connector).filterMap
        Effect.established = [] := established_connector effects
    have hdestroyed : (Effect.connectDestroyed c.1 :: effects.map .connector).filterMap
        Effect.destroyed = [c.1] := congrArg (c.1 :: ·) (destroyed_connector effects)
    refine ⟨.connectDestroyed c.1 :: effects.map .connector, { u with client },
      by rw [if_pos hretry, hrun]; rfl, hheld, ⟨0, rfl, hestablished⟩, ?_⟩
    rw [hestablished, hdestroyed, hconn]
    rfl
  · exact ⟨_, _, by rw [if_neg hretry]; rfl, hu, ⟨0, rfl, rfl⟩, by rw [hconn]; rfl⟩

/-- A connection whose socket cannot be bound ends the process. -/
theorem newConnection_fatal (hm : may s (.newConnection bind)) (hbind : bind ≠ none) :
    newConnection s bind = .error .fatal := by
  have hcalling : s.client.calling.isSome = true := hm
  obtain ⟨sockfd, hsockfd⟩ := Option.isSome_iff_exists.mp hcalling
  obtain ⟨errno, rfl⟩ := Option.ne_none_iff_exists'.mp hbind
  simp [newConnection, State.connector, Client.step, hsockfd, bindOrDie]

/-- What is answered has bound its socket. -/
theorem binds_of_step (hm : may s l) (hstep : step s l = .ok (e, t)) : Binds l := by
  cases l with
  | newConnection bind =>
    by_contra hbind
    cases hstep.symm.trans (newConnection_fatal hm hbind)
  | _ => trivial

/-- Every admitted step is answered, if it can bind. -/
theorem held_step (h : Held s) (hm : may s l) (hbinds : Binds l) :
    ∃ e t, step s l = .ok (e, t) ∧ Held t ∧ Adds s e t := by
  cases l with
  | newConnection bind =>
    obtain rfl : bind = none := hbinds
    exact (newConnection_step h none hm).2
  | removeConnection id => exact removeConnection_step h hm
  | connect onLoop =>
    have hstarted : s.client.started = false := by
      cases onLoop <;> exact hm.2.1
    have hu : Held { s with connected := true } := { h with
      ahead := fun _ => h.used.unstopped hstarted
      stopping := fun hpos => by cases hstarted.symm.trans (h.stopping hpos).1 }
    obtain ⟨effects, client, -, hrun, hheld⟩ := hu.after (a := .act (startOf onLoop)) hm
      (by cases onLoop <;> simp [startOf]) (by cases onLoop <;> simp [startOf, Client.isStop])
    exact ⟨_, _, hrun, hheld, adds_connector (by rfl) (by rfl) effects⟩
  | enableRetry => exact ⟨_, _, rfl, { h with }, adds_nothing (by rfl) (by rfl) rfl rfl⟩
  | disconnect =>
    obtain ⟨hestablished, hdestroyed⟩ := shutdown_effects s
    exact ⟨_, _, rfl, { h with
      ahead := nofun, stopping := fun hpos => ⟨(h.stopping hpos).1, rfl⟩ },
      adds_nothing (by rfl) (by rfl) hestablished hdestroyed⟩
  | beginDisconnect => exact ⟨_, _, rfl, { h with
      ahead := nofun, stopping := fun hpos => ⟨(h.stopping hpos).1, rfl⟩ },
      adds_nothing (by rfl) (by rfl) rfl rfl⟩
  | endDisconnect =>
    obtain ⟨hestablished, hdestroyed⟩ := shutdown_effects s
    exact ⟨_, _, rfl, { h with }, adds_nothing (by rfl) (by rfl) hestablished hdestroyed⟩
  | beginStop => exact ⟨_, _, rfl, { h with
      ahead := nofun, stopping := fun _ => ⟨hm, rfl⟩ }, adds_nothing (by rfl) (by rfl) rfl rfl⟩
  | stop =>
    have hu : Held { s with connected := false } := { h with
      ahead := nofun, stopping := fun hpos => ⟨(h.stopping hpos).1, rfl⟩ }
    obtain ⟨effects, client, -, hrun, hheld⟩ := hu.after (a := .act .stop) hm (by simp)
      fun _ _ _ => rfl
    exact ⟨_, _, hrun, hheld, adds_connector (by rfl) (by rfl) effects⟩
  | endStop =>
    obtain ⟨hstarted, hconnected⟩ := h.stopping hm
    have hu : Held { s with stopping := s.stopping - 1 } := { h with
      stopping := fun _ => ⟨hstarted, hconnected⟩ }
    obtain ⟨effects, client, -, hrun, hheld⟩ := hu.after (a := .act .beginStop)
      ⟨trivial, hstarted, nofun⟩ (by simp) fun _ _ _ => hconnected
    exact ⟨_, _, hrun, hheld, adds_connector (by rfl) (by rfl) effects⟩
  | connector a =>
    obtain ⟨hown, hmay⟩ := hm
    obtain ⟨effects, client, -, hrun, hheld⟩ := h.after hmay
      (by rintro rfl; exact absurd rfl hown.2.2.1)
      (by
        rintro c rfl hc
        obtain ⟨-, -, -, hstop, hbegin⟩ := hown
        cases c <;> first | exact absurd rfl hstop | exact absurd rfl hbegin | cases hc)
    exact ⟨_, _, hrun, hheld, adds_connector (by rfl) (by rfl) effects⟩

/-! ### Every run -/

/-- An answered step keeps the invariant and adds to the history. -/
theorem held_of_step (h : Held s) (hm : may s l) (hstep : step s l = .ok (e, t)) :
    Held t ∧ Adds s e t := by
  obtain ⟨e', t', hstep', ht, hadds⟩ := held_step h hm (binds_of_step hm hstep)
  cases hstep.symm.trans hstep'
  exact ⟨ht, hadds⟩

theorem held_run (h : machine.Run initial tr s) : Held s :=
  h.preserves (fun _ _ _ _ hs hm hstep => (held_of_step hs hm hstep).1) held_initial

/-- **The connections of a client come one after the other.** They are numbered from one in the
order in which they are made, all but `connection_` are closed, in the same order, and none is
there when the connector passes the next socket on; no assertion on the way fails. A socket that
cannot be bound once more ends the process. -/
theorem connections_in_turn (h : machine.Run initial tr s) :
    established tr = List.range' 1 (s.nextConnId - 1) ∧
    established tr = destroyed tr ++ s.connection.toList ∧
    (∀ bind, machine.may s (.newConnection bind) → s.connection = none ∧
      (bind ≠ none → machine.step s (.newConnection bind) = .error .fatal)) ∧
    ∀ l, machine.may s l → Binds l → ∃ e t, machine.step s l = .ok (e, t) := by
  have hheld := held_run h
  obtain ⟨⟨n, hid, hnumbers⟩, horder⟩ : (∃ n, s.nextConnId = 1 + n ∧
      established tr = List.range' 1 n) ∧ established tr = destroyed tr ++ s.connection.toList := by
    refine h.snoc_induction (P := fun tr s => (∃ n, s.nextConnId = 1 + n ∧
      established tr = List.range' 1 n) ∧ established tr = destroyed tr ++ s.connection.toList)
      ⟨⟨0, rfl, rfl⟩, rfl⟩ ?_
    rintro tr s l e t hrun ⟨⟨n, hid, hnumbers⟩, horder⟩ hm hstep
    obtain ⟨-, ⟨k, hk, hnew⟩, hadds⟩ := held_of_step (held_run hrun) hm hstep
    have hsnoc : established (tr ++ [(l, e)]) = established tr ++ e.filterMap Effect.established := by
      simp [established]
    rw [hsnoc]
    constructor
    · refine ⟨n + k, by omega, ?_⟩
      rw [hnumbers, hnew, hid, List.range'_append_1]
    · have hsnoc : destroyed (tr ++ [(l, e)]) = destroyed tr ++ e.filterMap Effect.destroyed := by
        simp [destroyed]
      rw [hsnoc, horder, List.append_assoc, hadds, List.append_assoc]
  refine ⟨by rw [hnumbers, hid, Nat.add_sub_cancel_left], horder,
    fun bind hm => ⟨(newConnection_step hheld bind hm).1, newConnection_fatal hm⟩, fun l hm hbinds => ?_⟩
  obtain ⟨e, t, hstep, -⟩ := held_step hheld hm hbinds
  exact ⟨e, t, hstep⟩

/-- The socket of the attempt in progress is connected, and passed on. -/
def establishing : List Action :=
  [.connector .poll, .connector (.act (.handleEvent POLLOUT)),
    .connector (.act (.callback none false)), .newConnection none]

/-- A connection that is closed and made again. -/
theorem connections_in_turn_again : ∃ tr s, machine.Run initial tr s ∧
    established tr = [1, 2] ∧ destroyed tr = [1] ∧ s.connection = some 2 ∧
    established tr = destroyed tr ++ s.connection.toList := by
  obtain ⟨tr, s, h, -, hestablished, hdestroyed, hconn⟩ := machine.exists_run_of_replay
    (s := initial)
    (P := fun tr s => established tr = [1, 2] ∧ destroyed tr = [1] ∧ s.connection = some 2)
    ([.enableRetry, .connect true, .connector (.act (.startInLoop 5)),
        .connector (.act (.connect (some .EINPROGRESS)))] ++ establishing ++
      [.connector (.act .doPendingFunctors), .connector (.act .functor), .connector .poll,
        .removeConnection 1, .connector (.act (.startInLoop 5)), .connector (.act (.connect none)),
        .connector (.act .doPendingFunctors)] ++ establishing)
    (by decide +kernel)
  exact ⟨tr, s, h, hestablished, hdestroyed, hconn, (connections_in_turn h).2.1⟩

/-! ### After `disconnect` -/

/-- The connector has nothing more to pass on. -/
def Settled (c : Client.State) : Prop := c.connector.state = .kConnected ∧ c.calling = none

/-- What a step of a client that is not to be connected does to the count. -/
structure Ebbs (s : State) (e : List Effect) (t : State) : Prop where
  started : t.client.started = true
  connected : t.connected = false
  settled : Settled s.client → e.filterMap Effect.established = [] ∧ Settled t.client
  last : e.filterMap Effect.established = [] ∨
    (e.filterMap Effect.established).length = 1 ∧ Settled t.client

/-- A step of the connector alone. -/
theorem ebbs_connector {u : State} {a : Client.Action} (h : Held s) (hstarted : s.client.started = true)
    (hu : u.client = s.client) (hconnected : u.connected = false) (hm : Client.may s.client a)
    (ha : a ≠ .act .restart) (hstep : u.connector a = .ok (e, t)) : Ebbs s e t := by
  obtain ⟨⟨effects, client⟩, hclient, hstep⟩ := bind_eq_ok.mp hstep
  cases hstep
  rw [hu] at hclient
  refine ⟨(Client.step_flags hclient).1 hstarted, hconnected, fun hs => ?_,
    .inl (established_connector effects)⟩
  obtain ⟨hstate, hnone, -⟩ := h.used.settled hs.1 hs.2 hm ha hclient
  exact ⟨established_connector effects, hstate, hnone⟩

theorem ebbs_step (h : Held s) (hstarted : s.client.started = true) (hconnected : s.connected = false)
    (hm : machine.may s l) (hstep : machine.step s l = .ok (e, t)) : Ebbs s e t := by
  cases l with
  | connect onLoop =>
    have hfresh : s.client.started = false := by
      cases onLoop <;> exact hm.2.1
    cases hstarted.symm.trans hfresh
  | enableRetry | beginDisconnect | beginStop =>
    cases hstep
    exact ⟨hstarted, by first | rfl | exact hconnected, fun hs => ⟨rfl, hs⟩, .inl rfl⟩
  | disconnect | endDisconnect =>
    obtain ⟨hestablished, -⟩ := shutdown_effects s
    cases hstep
    exact ⟨hstarted, by first | rfl | exact hconnected, fun hs => ⟨hestablished, hs⟩,
      .inl hestablished⟩
  | stop =>
    exact ebbs_connector (a := .act .stop) (u := { s with connected := false }) h hstarted rfl rfl hm
      (by simp) hstep
  | endStop =>
    exact ebbs_connector (a := .act .beginStop) (u := { s with stopping := s.stopping - 1 }) h hstarted
      rfl hconnected ⟨trivial, hstarted, nofun⟩ (by simp) hstep
  | connector a =>
    exact ebbs_connector h hstarted rfl hconnected hm.2 (by rintro rfl; exact absurd rfl hm.1.2.2.1) hstep
  | newConnection bind =>
    obtain rfl : bind = none := binds_of_step (l := .newConnection bind) hm hstep
    have hcalling : s.client.calling.isSome = true := hm
    obtain ⟨⟨effects, u⟩, hclient, hstep⟩ := bind_eq_ok.mp hstep
    obtain ⟨⟨effects, client⟩, hclient, hu⟩ := bind_eq_ok.mp hclient
    obtain ⟨sockfd, -, hclient⟩ := bind_eq_ok.mp hclient
    cases hclient
    cases hu
    cases hstep
    refine ⟨hstarted, hconnected, fun hs => ?_, .inr ⟨rfl, (h.used.calling hcalling).1, rfl⟩⟩
    rw [hs.2] at hcalling
    cases hcalling
  | removeConnection id =>
    obtain ⟨_, -, hstep⟩ := bind_eq_ok.mp hstep
    rw [if_neg (by simp [hconnected])] at hstep
    cases hstep
    exact ⟨hstarted, hconnected, fun hs => ⟨rfl, hs⟩, .inl rfl⟩

theorem ebbs_run (h : machine.Run s tr t) (hheld : Held s) (hstarted : s.client.started = true)
    (hconnected : s.connected = false) :
    (established tr).length ≤ 1 ∧ (Settled s.client → established tr = []) := by
  induction h with
  | nil => exact ⟨Nat.zero_le _, fun _ => rfl⟩
  | @cons s u t l e tr hm hstep _ ih =>
    have hebbs := ebbs_step hheld hstarted hconnected hm hstep
    have hu : Held u := (held_of_step hheld hm hstep).1
    obtain ⟨hlength, hnone⟩ := ih hu hebbs.started hebbs.connected
    have hcons : established ((l, e) :: tr) = e.filterMap Effect.established ++ established tr := rfl
    rw [hcons]
    refine ⟨?_, fun hs => ?_⟩
    · obtain hnil | ⟨hone, hsettled⟩ := hebbs.last
      · rwa [hnil, List.nil_append]
      · rw [hnone hsettled, List.append_nil]
        exact Nat.le_of_eq hone
    · obtain ⟨hnil, hsettled⟩ := hebbs.settled hs
      rw [hnil, hnone hsettled, List.append_nil]

/-- **Once `disconnect` or `stop` has stored its flag, one more connection is made at most**, that
of the attempt in progress, and none while there is one. -/
theorem at_most_one_more {tr₁ tr₂ : List (Action × List Effect)} (h₁ : machine.Run initial tr₁ s)
    (hstarted : s.client.started = true) (hconnected : s.connected = false)
    (h₂ : machine.Run s tr₂ t) :
    (established tr₂).length ≤ 1 ∧ (s.connection ≠ none → established tr₂ = []) := by
  have hheld := held_run h₁
  obtain ⟨hlength, hnone⟩ := ebbs_run h₂ hheld hstarted hconnected
  refine ⟨hlength, fun hsome => ?_⟩
  obtain ⟨id, hid⟩ := Option.ne_none_iff_exists'.mp hsome
  obtain ⟨c, hc, -⟩ := hheld.mem_iff.mp hid
  obtain ⟨hstate, hcalling, -⟩ := hheld.settled c hc
  exact hnone ⟨hstate, hcalling⟩

/-- `disconnect` while the client is connecting, and a connection after it. -/
theorem at_most_one_more_connecting : ∃ tr₁ s tr₂ t, machine.Run initial tr₁ s ∧
    s.connected = false ∧ machine.Run s tr₂ t ∧ established tr₂ = [1] ∧
    (established tr₂).length ≤ 1 := by
  obtain ⟨tr₁, s, h₁, -, hstarted, hconnected, hreplay⟩ := machine.exists_run_of_replay (s := initial)
    (P := fun _ s => s.client.started = true ∧ s.connected = false ∧
      (machine.replay s (.endDisconnect :: establishing)).any
        (fun r => established r.1 = [1]) = true)
    [.connect false, .connector (.act .endStart), .connector .poll,
      .connector (.act .doPendingFunctors), .connector (.act .functor),
      .connector (.act (.startInLoop 5)), .connector (.act (.connect none)), .beginDisconnect]
    (by decide +kernel)
  obtain ⟨⟨tr₂, t⟩, hreplay, hone⟩ := (Option.any_eq_true _ _).mp hreplay
  have h₂ := Machine.Run.of_replay hreplay
  exact ⟨tr₁, s, tr₂, t, h₁, hconnected, h₂, by simpa using hone,
    (at_most_one_more h₁ hstarted hconnected h₂).1⟩

end TcpClient
end Leanet

import Leanet.Connector.Lifetime

/-! Who may destroy a client when.

A client that is connected, was not stopped and has been connected for a turn of the loop has no
functor queued. One without a connection queues `stopInLoop`, which the loop runs within two turns
and which may queue `resetChannel` for the next: three turns within the second are enough. Whoever
destroys a client that is connected has the connection, and keeps it until it closes
(`patient_client`).

The connection that somebody has does not depend on its client. Who made it sends it to its end
while it is there, and `detail::removeConnection` does when it is not (`connections_accounted`). -/
namespace Leanet.Lifetime
open Connector (Abandoned Single)

variable {s t : State} {l : Action} {e : List TcpClient.Effect} {build : Build}
  {tr : List (Action × List TcpClient.Effect)}

/-! ### Waiting for the loop -/

/-- A connected client is not stopped before it is destroyed and has been connected for a turn,
and somebody else has its connection until it closes; and the second lasts for three. -/
def Patient (s : State) : Action → Prop
  | .destruct => s.client.connection.isSome = true → s.shared = true ∧
      s.client.client.stopped = false ∧ ∀ i ∈ s.client.client.called, i < s.client.client.turn
  | .removeConnector => ∀ i ∈ s.grace, i + 3 ≤ s.client.client.turn
  | .letGo => s.alive = true ∨ s.client.registered = []
  | .hold | .act _ => True

/-- The turn `i` is over, and so are `n` more and the events of another. -/
def Past (i n : Nat) (c : Client.State) : Prop :=
  (i + n ≤ c.turn ∧ c.draining = true) ∨ i + n + 1 ≤ c.turn

/-- What waits for the loop while the second lasts. -/
structure Aged (s : State) : Prop where
  /-- What another functor has queued. -/
  pending : ∀ i ∈ s.grace, Past i 1 s.client.client →
    ∀ f ∈ s.connector.pendingFunctors, f = .resetChannel
  /-- Nothing is queued any more. -/
  settled : ∀ i ∈ s.grace, Past i 2 s.client.client → s.connector.state ≠ .kConnecting ∧
    s.connector.pendingFunctors = []
  released : s.alive = false → s.grace = none → s.connector.queue = []

theorem aged_initial : Aged initial := ⟨nofun, nofun, nofun⟩

/-- A connected client that was not stopped has nothing queued from the next turn on. -/
theorem connected_queue {c : TcpClient.State} (h : TcpClient.Held c) (hconn : c.connection.isSome = true)
    (hstopped : c.client.stopped = false) (hcalled : ∀ i ∈ c.client.called, i < c.client.turn) :
    c.client.connector.queue = [] := by
  obtain ⟨id, hid⟩ := Option.isSome_iff_exists.mp hconn
  obtain ⟨d, hd, -⟩ := h.mem_iff.mp hid
  obtain ⟨hstate, hcalling, hturn⟩ := h.settled d hd
  have hsingle := h.used.single
  have hreg : c.client.connector.registered = false := by
    rw [← Bool.not_eq_true, ← hsingle.connecting, hstate]
    exact nofun
  have hchannel : c.client.connector.channel.isSome = false := by
    by_contra hne
    have hwaits := h.used.waiting hstopped (eq_true_of_ne_false hne) hreg
    have hthen := hwaits.called hstate hcalling d.2 hturn
    have hlt := hcalled d.2 hturn
    omega
  obtain ⟨-, hstart, -⟩ := Single.of_quiet (hsingle.quiet (by rw [hstate]; exact nofun))
  have hresets := hsingle.resets
  rw [if_neg (by simp [hchannel])] at hresets
  refine List.eq_nil_iff_forall_not_mem.mpr fun f hf => ?_
  cases f with
  | startInLoop => exact hstart hf
  | stopInLoop => cases hstopped.symm.trans (h.used.stops (.inr hf))
  | resetChannel => exact List.count_eq_zero.mp hresets hf

/-- With each turn less is left to wait for. -/
theorem Aged.idles {c : TcpClient.State} {b : Client.Action} (h : Aged s)
    (habandoned : Abandoned s.connector) (hidles : Idles s.client.client b c.client) :
    Aged { s with client := c } := by
  have hquiet (hqueue : ∀ f ∈ s.connector.queue, f = .resetChannel) :
      s.connector.state ≠ .kConnecting := fun hstate => by
    cases hqueue _ (habandoned.stops hstate)
  cases hidles with
  | poll hdraining _ hc =>
    refine ⟨fun i hi hpast => ?_, fun i hi hpast => ?_, fun ha hg => ?_⟩
    · rw [hc, Past] at hpast
      rw [State.connector, hc]
      refine h.pending i hi (.inl ⟨?_, hdraining⟩)
      simp only [Bool.false_eq_true, and_false, false_or] at hpast
      omega
    · rw [hc, Past] at hpast
      rw [State.connector, hc]
      refine h.settled i hi (.inl ⟨?_, hdraining⟩)
      simp only [Bool.false_eq_true, and_false, false_or] at hpast
      omega
    · rw [State.connector, hc]
      exact h.released ha hg
  | drain hdraining hbatch hturn _ hc =>
    refine ⟨fun i hi hpast => ?_, fun i hi hpast => ?_, fun ha hg => ?_⟩
    · rw [State.connector, hc]
      simp
    · rw [State.connector, hc]
      refine ⟨hquiet fun f hf => ?_, rfl⟩
      have hpending : f ∈ s.connector.pendingFunctors := by
        rwa [Connector.State.queue, State.connector, hbatch] at hf
      refine h.pending i hi (.inr ?_) f hpending
      rw [Past, hturn] at hpast
      omega
    · have hqueue := h.released ha hg
      rw [State.connector, hc]
      simpa [Connector.State.queue, State.connector, hbatch] using hqueue
  | runsDown _ hd hturn hdrain =>
    have hpast {i n : Nat} : Past i n c.client → Past i n s.client.client := by
      rw [Past, hturn, hdrain]
      exact id
    refine ⟨fun i hi hp f hf => ?_, fun i hi hp => ?_, fun ha hg => ?_⟩
    · rcases hd.pending with hsame | ⟨-, hpushed⟩
      · exact h.pending i hi (hpast hp) f (hsame ▸ hf)
      · have hf : f ∈ s.connector.pendingFunctors ++ [.resetChannel] := hpushed ▸ hf
        rcases List.mem_append.mp hf with hf | hf
        · exact h.pending i hi (hpast hp) f hf
        · exact List.mem_singleton.mp hf
    · obtain ⟨hstate, hpending⟩ := h.settled i hi (hpast hp)
      constructor
      · rcases hd.state with hsame | ⟨hconnecting, -⟩
        · exact fun hc => hstate (hsame.symm.trans hc)
        · exact absurd hconnecting hstate
      · rcases hd.pending with hsame | ⟨hconnecting, -⟩
        · exact hsame.trans hpending
        · exact absurd hconnecting hstate
    · have hqueue := h.released ha hg
      obtain ⟨hbatch, hpending⟩ := List.append_eq_nil_iff.mp hqueue
      have hstate := hquiet (by simp [hqueue])
      have hbatch : s.client.client.connector.batch = [] := hbatch
      refine List.append_eq_nil_iff.mpr ⟨List.suffix_nil.mp (hbatch ▸ hd.batch), ?_⟩
      rcases hd.pending with hsame | ⟨hconnecting, -⟩
      · exact hsame.trans hpending
      · exact absurd hconnecting hstate

theorem Aged.same {c : TcpClient.State} (h : Aged s) (hc : c.client = s.client.client) :
    Aged { s with client := c } := by
  have hsame : ({ s with client := c } : State).connector = s.connector :=
    congrArg Client.State.connector hc
  refine ⟨fun i hi hpast => ?_, fun i hi hpast => ?_, fun ha hg => ?_⟩
  · rw [hsame]
    exact h.pending i hi (hc ▸ hpast)
  · rw [hsame]
    exact h.settled i hi (hc ▸ hpast)
  · rw [hsame]
    exact h.released ha hg

/-- A turn that has just begun, or has not yet, is not over. -/
theorem not_past (c : Client.State) : ¬ Past c.turn 1 c ∧ ¬ Past c.turn 2 c := by
  simp only [Past]
  omega

theorem aged_body (h : Aged s) (hkept : Kept s) (hm : may s l) (hpatient : Patient s l)
    (hb : body s l = .ok (e, t)) : Aged t := by
  cases l with
  | destruct =>
    have halive := hm.1
    have hnone := hkept.grace halive
    rw [body, destruct] at hb
    split at hb
    · next hconn =>
      cases hb
      obtain ⟨-, hstopped, hcalled⟩ := hpatient hconn
      refine ⟨fun i hi => ?_, fun i hi => ?_, fun _ _ =>
        connected_queue (hkept.held halive) hconn hstopped hcalled⟩
      · cases hnone.symm.trans hi
      · cases hnone.symm.trans hi
    · cases hb
      refine ⟨fun i hi hpast => ?_, fun i hi hpast => ?_, fun _ hg => ?_⟩
      · cases hi
        exact absurd hpast (not_past _).1
      · cases hi
        exact absurd hpast (not_past _).2
      · cases hg
  | removeConnector =>
    cases hb
    refine ⟨fun i hi => ?_, fun i hi => ?_, fun _ _ => ?_⟩
    · cases hi
    · cases hi
    · obtain ⟨i, hi⟩ := Option.isSome_iff_exists.mp hm.1
      have hpending := (h.settled i hi (.inr (hpatient i hi))).2
      exact List.append_eq_nil_iff.mpr ⟨hkept.drained hm.2.2, hpending⟩
  | hold | letGo =>
    cases hb
    exact ⟨h.pending, h.settled, h.released⟩
  | act a =>
    obtain ⟨hthere, -, client, hrun, rfl⟩ := body_act hb
    cases halive : s.alive with
    | true =>
      have hnone := hkept.grace halive
      refine ⟨fun i hi => ?_, fun i hi => ?_, fun ha => ?_⟩
      · cases hnone.symm.trans hi
      · cases hnone.symm.trans hi
      · cases ha
    | false =>
      rw [halive] at hrun
      obtain ⟨e', client', hrun', -, hidles⟩ := act_dead hkept halive hm hthere
      cases hrun.symm.trans hrun'
      have haged : Aged { s with client } := by
        rcases hidles with heq | ⟨b, -, hidles⟩
        · exact h.same heq
        · exact h.idles (hkept.abandoned halive) hidles
      exact halive ▸ ⟨haged.pending, haged.settled, haged.released⟩

/-- Somebody has the connection until it closes. -/
theorem patient_shared (hkept : Kept s) (hm : may s l) (hpatient : Patient s l)
    (hb : body s l = .ok (e, t)) (hlost : t.lost) : s.lost := by
  cases l with
  | destruct =>
    rw [body, destruct] at hb
    split at hb
    · next hconn =>
      cases hb
      cases (hpatient hconn).1.symm.trans hlost.2.1
    · next hconn =>
      have hnone : s.client.registered = [] := by
        have hknown := (hkept.held hm.1).known
        rw [Option.not_isSome_iff_eq_none.mp hconn] at hknown
        exact List.map_eq_nil_iff.mp hknown
      cases hb
      exact absurd hnone hlost.2.2
  | removeConnector =>
    cases hb
    exact hlost
  | hold =>
    cases hb
    cases hlost.2.1
  | letGo =>
    cases hb
    rcases hpatient with halive | hnone
    · cases halive.symm.trans hlost.1
    · exact absurd hnone hlost.2.2
  | act a => exact lost_of_act hm hb hlost

theorem patient_clean (h : Aged s) (hkept : Kept s) (hm : may s l) (hpatient : Patient s l) :
    Clean s l := by
  refine fun e t hb => ⟨fun _ hgone => ?_, mt (patient_shared hkept hm hpatient hb)⟩
  refine (aged_body h hkept hm hpatient hb).released (not_alive hgone) ?_
  by_contra hne
  exact hgone (.inr (.inl (Option.isSome_iff_ne_none.mpr hne)))

instance (s : State) : (l : Action) → Decidable (Patient s l)
  | .destruct => inferInstanceAs (Decidable (_ → _ ∧ _ ∧ ∀ i ∈ s.client.client.called, _))
  | .removeConnector => inferInstanceAs (Decidable (∀ i ∈ s.grace, _))
  | .letGo => inferInstanceAs (Decidable (_ ∨ _))
  | .hold | .act _ => isTrue trivial

/-- **Who waits for the loop is safe.** A client that is connected, was not stopped and has been
connected for a turn may be destroyed by somebody who has its connection and keeps it until it
closes, and so may a client without a connection if the loop turns three times within the second:
nothing that is gone is touched. -/
theorem patient_client (h : ((machine build).only Patient).Run initial tr s) :
    ((machine build).only Clean).Run initial tr s ∧
    ∀ l, may s l → Patient s l → Binds l → ∃ e t, step build s l = .ok (e, t) := by
  obtain ⟨hclean, haged⟩ : ((machine build).only Clean).Run initial tr s ∧ Aged s := by
    refine h.snoc_induction (P := fun tr s => ((machine build).only Clean).Run initial tr s ∧ Aged s)
      ⟨.nil _, aged_initial⟩ ?_
    rintro tr s l e t hrun ⟨hclean, haged⟩ ⟨hm, hpatient⟩ hstep
    have hkept := kept_run hrun.of_only
    exact ⟨hclean.snoc ⟨hm, patient_clean haged hkept hm hpatient⟩ hstep,
      aged_body haged hkept hm hpatient (body_of_step hstep)⟩
  refine ⟨hclean, fun l hm hpatient => ?_⟩
  exact (client_lifetime hclean).1 l hm
    (patient_clean haged (kept_run hclean.of_only) hm hpatient)

/-- A second that lasts for three turns. -/
theorem patient_client_three_turns : ∃ tr s, ((machine .debug).only Patient).Run initial tr s ∧
    s.grace = some 0 ∧ s.client.client.turn = 3 ∧
    ∃ e t, step .debug s .removeConnector = .ok (e, t) := by
  obtain ⟨tr, s, h, -, hgrace, hturn, hm, hpatient⟩ :=
    ((machine .debug).only Patient).exists_run_of_replay (s := initial)
      (P := fun _ s => s.grace = some 0 ∧ s.client.client.turn = 3 ∧
        (machine .debug).may s .removeConnector ∧ Patient s .removeConnector)
      (destroying ++ [doPendingFunctors, functor, poll]) (by decide +kernel)
  exact ⟨tr, s, h, hgrace, hturn, (patient_client h).2 .removeConnector hm hpatient trivial⟩

/-! ### The connections -/

/-- The connections made, in order. -/
def established (tr : List (Action × List TcpClient.Effect)) : List Nat :=
  tr.flatMap fun e => e.2.filterMap TcpClient.Effect.established

/-- The connections sent to their end, in order, whoever sent them. -/
def destroyed (tr : List (Action × List TcpClient.Effect)) : List Nat :=
  tr.flatMap fun e => e.2.filterMap TcpClient.Effect.destroyed

/-- What a step adds to the history. -/
structure Adds (c : TcpClient.State) (e : List TcpClient.Effect) (d : TcpClient.State) : Prop where
  numbers : ∃ n, d.nextConnId = c.nextConnId + n ∧
    e.filterMap TcpClient.Effect.established = List.range' c.nextConnId n
  order : c.registered.map Prod.fst ++ e.filterMap TcpClient.Effect.established =
    e.filterMap TcpClient.Effect.destroyed ++ d.registered.map Prod.fst
  few : d.registered.length ≤ 1

variable {c d : TcpClient.State}

theorem adds_nothing (hfew : c.registered.length ≤ 1) (hid : d.nextConnId = c.nextConnId)
    (hregistered : d.registered = c.registered) (effects : List Connector.Effect) :
    Adds c (effects.map .connector) d where
  numbers := ⟨0, hid, TcpClient.established_connector effects⟩
  order := by
    rw [TcpClient.established_connector, TcpClient.destroyed_connector, hregistered, List.append_nil,
      List.nil_append]
  few := hregistered ▸ hfew

end Leanet.Lifetime

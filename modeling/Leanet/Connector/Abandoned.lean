import Leanet.Connector.TcpClient

/-! A connector that nobody will start.

Its client is gone, and has stopped it or found it connected. What is left is to run down: a retry
timer that fires finds `connected_` false, an attempt in progress is ended by its socket or by the
`stopInLoop` that is still queued, and whoever ends it queues one `resetChannel`. Nothing is begun
and the only effects are closes (`Abandoned.step`). -/
namespace Leanet

namespace Connector
variable {c c' : State} {a : Action} {e : List Effect}

/-! ### A connector that nobody will start -/

/-- The invariant: what was begun is called off. -/
structure Abandoned (c : State) : Prop where
  single : Single c
  asked : c.connected = false ∨ c.state = .kConnected
  alone : c.starting = 0 ∧ c.stopping = 0
  entering : ∀ fd, c.inside ≠ some (.connect fd)
  stops : c.state = .kConnecting → .stopInLoop ∈ c.queue

/-- What its steps do, but for `doPendingFunctors`. -/
structure RunsDown (c c' : State) : Prop where
  connected : c'.connected = c.connected
  alone : c'.starting = c.starting ∧ c'.stopping = c.stopping
  entering : ∀ fd, c'.inside ≠ some (.connect fd)
  batch : c'.batch <:+ c.batch
  pending : c'.pendingFunctors = c.pendingFunctors ∨
    c.state = .kConnecting ∧ c'.pendingFunctors = c.pendingFunctors ++ [.resetChannel]
  state : c'.state = c.state ∨ c.state = .kConnecting ∧ c'.state ≠ .kConnecting
  stops : c'.state = .kConnecting → .stopInLoop ∈ c.queue → .stopInLoop ∈ c'.queue
  dispatch : c'.dispatch ≠ [] → c.dispatch ≠ [] ∨ c.registered = true

namespace Abandoned

theorem disconnected (h : Abandoned c) (hpos : 0 < c.outstanding) : c.connected = false := by
  refine h.asked.resolve_right fun hstate => ?_
  cases hstate.symm.trans (h.single.disconnected hpos)

theorem runsDown (h : Abandoned c) (hd : RunsDown c c') (hsingle : Single c') : Abandoned c' where
  single := hsingle
  asked := by
    rcases h.asked with hc | hstate
    · exact .inl (hd.connected.trans hc)
    · rcases hd.state with hs | ⟨hs, -⟩
      · exact .inr (hs.trans hstate)
      · cases hstate.symm.trans hs
  alone := ⟨hd.alone.1.trans h.alone.1, hd.alone.2.trans h.alone.2⟩
  entering := hd.entering
  stops := fun hc => by
    rcases hd.state with hs | ⟨-, hs⟩
    · exact hd.stops hc (h.stops (hs.symm.trans hc))
    · exact absurd hc hs

end Abandoned

/-- Sockets are closed, and that is all. -/
def Closing (e : List Effect) : Prop := ∀ x ∈ e, ∃ fd, x = .close fd

theorem closing_nil : Closing [] := by simp [Closing]

theorem closing_close (fd : Nat) : Closing [.close fd] := by simp [Closing]

theorem not_entering {i : Option Inside}
    (h : i = none ∨ i = some .startInLoop ∨ i = some .retry) (fd : Nat) : i ≠ some (.connect fd) := by
  rcases h with rfl | rfl | rfl <;> simp

/-- Who leaves queue and state alone. -/
theorem runsDown_of_eq (hconnected : c'.connected = c.connected)
    (halone : c'.starting = c.starting ∧ c'.stopping = c.stopping)
    (hentering : ∀ fd, c'.inside ≠ some (.connect fd)) (hbatch : c'.batch = c.batch)
    (hpending : c'.pendingFunctors = c.pendingFunctors) (hstate : c'.state = c.state)
    (hdispatch : c'.dispatch ≠ [] → c.dispatch ≠ [] ∨ c.registered = true) : RunsDown c c' where
  connected := hconnected
  alone := halone
  entering := hentering
  batch := hbatch ▸ List.suffix_rfl
  pending := .inl hpending
  state := .inl hstate
  stops := fun _ hmem => by rwa [State.queue, hbatch, hpending]
  dispatch := hdispatch

/-- An attempt that ends, after a functor or a callback has been taken. -/
theorem Ends.runsDown {b : State} {d : Channel} (h : Ends b d e c') (hstate : c.state = .kConnecting)
    (hconnected : b.connected = false) (hasked : b.connected = c.connected)
    (halone : b.starting = c.starting ∧ b.stopping = c.stopping)
    (hentering : ∀ fd, b.inside ≠ some (.connect fd)) (hbatch : b.batch <:+ c.batch)
    (hpending : b.pendingFunctors = c.pendingFunctors) (hdispatch : b.dispatch ≠ [] → c.dispatch ≠ []) :
    RunsDown c c' ∧ Closing e := by
  have hleft : b.dispatch ≠ [] → c.dispatch ≠ [] ∨ c.registered = true :=
    fun hb => .inl (hdispatch hb)
  have hpushed : b.pendingFunctors ++ [.resetChannel] = c.pendingFunctors ++ [.resetChannel] :=
    congrArg (· ++ [.resetChannel]) hpending
  cases h with
  | retry =>
    have hne : (Connector.retry (b.removed d) d.fd).2.state ≠ .kConnecting := by simp [Connector.retry]
    exact ⟨⟨hasked, halone, not_entering (.inr (.inr rfl)), hbatch, .inr ⟨hstate, hpushed⟩,
      .inr ⟨hstate, hne⟩, fun hc => absurd hc hne, hleft⟩, closing_close _⟩
  | passed hc => cases hconnected.symm.trans hc
  | stopped =>
    have hne : (close { b.removed d with state := .kConnected } d.fd).2.state ≠ .kConnecting := by
      simp [close]
    exact ⟨⟨hasked, halone, hentering, hbatch, .inr ⟨hstate, hpushed⟩, .inr ⟨hstate, hne⟩,
      fun hc => absurd hc hne, hleft⟩, closing_close _⟩

namespace Abandoned

/-- `stopInLoop` lets no attempt be. -/
theorem stopInLoop_ends (h : Abandoned c) {b : State} (hb : b.state = c.state)
    (hchannel : b.channel = c.channel) (hs : stopInLoop b = .ok ([], c')) : c.state ≠ .kConnecting := by
  intro hstate
  obtain ⟨d, hd, -⟩ := h.single.present (h.single.connecting.mp hstate)
  rw [stopInLoop, if_pos (hb.trans hstate)] at hs
  dsimp only at hs
  rw [removeAndResetChannel_eq (s := { b with state := .kDisconnected }) (hchannel.trans hd)] at hs
  cases hs

/-- The next functor of the batch. -/
theorem functor (h : Abandoned c) (hm : may c .functor) (hs : step c .functor = .ok (e, c')) :
    RunsDown c c' ∧ Closing e := by
  obtain ⟨f, rest, hrest, hcases⟩ := functor_cases h.single hm hs
  have hbatch : rest <:+ c.batch := hrest ▸ List.suffix_cons f rest
  have hqueue : c.queue = f :: (rest ++ c.pendingFunctors) := by
    rw [State.queue, hrest, List.cons_append]
  rcases hcases with ⟨rfl, rfl, rfl⟩ | ⟨rfl, ⟨rfl, rfl⟩ | ⟨hstate, d, -, rfl, rfl⟩⟩ | ⟨rfl, rfl, rfl⟩
  · have hpos : 0 < c.outstanding := by
      rw [State.outstanding, hqueue, List.count_cons_self]
      omega
    have hstate := h.single.disconnected hpos
    refine ⟨⟨rfl, ⟨rfl, rfl⟩, not_entering (.inr (.inl rfl)), hbatch, .inl rfl, .inl rfl,
      fun hc => ?_, .inl⟩, closing_nil⟩
    cases hstate.symm.trans hc
  · simp only [Connector.step, hrest, List.head?_cons, List.tail_cons, deref_some, ok_bind] at hs
    have hne := h.stopInLoop_ends (b := { c with batch := rest }) rfl rfl hs
    exact ⟨⟨rfl, ⟨rfl, rfl⟩, h.entering, hbatch, .inl rfl, .inl rfl, fun hc => absurd hc hne,
      .inl⟩, closing_nil⟩
  · exact Ends.runsDown (b := { c with batch := rest }) .retry hstate
      (h.asked.resolve_right (by simp [hstate])) rfl ⟨rfl, rfl⟩ h.entering hbatch rfl id
  · refine ⟨⟨rfl, ⟨rfl, rfl⟩, h.entering, hbatch, .inl rfl, .inl rfl, fun _ hmem => ?_, .inl⟩,
      closing_nil⟩
    rw [hqueue] at hmem
    exact (List.mem_cons.mp hmem).resolve_left (by simp)

/-- The next callback of the event. -/
theorem callback {soError : Option Errno} {selfConnected : Bool} (h : Abandoned c)
    (hm : may c (.callback soError selfConnected))
    (hs : step c (.callback soError selfConnected) = .ok (e, c')) :
    RunsDown c c' ∧ Closing e := by
  rcases callback_mayEnd h.single hm hs with ⟨rfl, rfl⟩ | ⟨hstate, d, -, hends⟩
  · exact ⟨runsDown_of_eq rfl ⟨rfl, rfl⟩ h.entering rfl rfl rfl fun _ => .inl hm.2, closing_nil⟩
  · have hstate : c.state = .kConnecting := hstate
    exact hends.runsDown hstate (h.asked.resolve_right (by simp [hstate])) rfl ⟨rfl, rfl⟩
      h.entering List.suffix_rfl rfl fun _ => hm.2

/-- What the connector does by itself is answered, and nothing is begun. -/
theorem step (h : Abandoned c) (hown : TcpClient.Own (.act a)) (hm : may c a)
    (ha : a ≠ .doPendingFunctors) :
    ∃ e c', Connector.step c a = .ok (e, c') ∧ Single c' ∧ RunsDown c c' ∧
      Closing e := by
  cases a with
  | start | restart | stop | beginStart | beginStop => simp [TcpClient.Own] at hown
  | doPendingFunctors => exact absurd rfl ha
  | endStart =>
    have hpos : 0 < c.starting := hm
    rw [h.alone.1] at hpos
    cases hpos
  | endStop =>
    have hpos : 0 < c.stopping := hm
    rw [h.alone.2] at hpos
    cases hpos
  | connect savedErrno =>
    obtain ⟨_, hin, fd, rfl⟩ := hm
    exact absurd hin (h.entering fd)
  | startInLoop sockfd =>
    have hpos := Single.outstanding_pos (s := c) (by simp [hm.1])
    obtain ⟨e, c', hrun, hsingle⟩ := single_startInLoop h.single hm
    refine ⟨e, c', hrun, hsingle, ?_⟩
    obtain ⟨_, -, hrun⟩ := bind_eq_ok.mp hrun
    rw [if_neg (by simp [h.disconnected hpos])] at hrun
    cases hrun
    exact ⟨runsDown_of_eq rfl ⟨rfl, rfl⟩ (not_entering (.inl rfl)) rfl rfl rfl .inl, closing_nil⟩
  | scheduleRetry =>
    have hin : c.inside = some .retry := hm
    have hpos := Single.outstanding_pos (s := c) (by simp [hin])
    have hrun : scheduleRetry c = ([], { c with inside := none }) :=
      if_neg (by simp [h.disconnected hpos])
    have hsingle := single_scheduleRetry h.single hm
    rw [hrun] at hsingle
    exact ⟨_, _, congrArg Except.ok hrun, hsingle,
      runsDown_of_eq rfl ⟨rfl, rfl⟩ (not_entering (.inl rfl)) rfl rfl rfl .inl, closing_nil⟩
  | handleEvent revents =>
    obtain ⟨e, c', hrun, hsingle⟩ := single_step h.single hm trivial
    refine ⟨e, c', hrun, hsingle, ?_⟩
    obtain ⟨d, -, hrun⟩ := bind_eq_ok.mp hrun
    cases hrun
    exact ⟨runsDown_of_eq rfl ⟨rfl, rfl⟩ h.entering rfl rfl rfl fun _ => .inr hm.2.2.1,
      closing_nil⟩
  | timer =>
    have hpos : 0 < c.outstanding := by
      have := hm.2.2
      rw [State.outstanding]
      omega
    obtain ⟨e, c', hrun, hsingle⟩ := single_step h.single hm (.inr (h.disconnected hpos))
    cases hrun
    exact ⟨_, _, rfl, hsingle,
      runsDown_of_eq rfl ⟨rfl, rfl⟩ (not_entering (.inr (.inl rfl))) rfl rfl rfl .inl, closing_nil⟩
  | callback soError selfConnected =>
    obtain ⟨e, c', hrun, hsingle⟩ := single_callback h.single hm
    exact ⟨e, c', hrun, hsingle, h.callback hm hrun⟩
  | functor =>
    obtain ⟨e, c', hrun, hsingle⟩ := single_functor h.single hm
    exact ⟨e, c', hrun, hsingle, h.functor hm hrun⟩

/-- The functors that have been queued become the batch. -/
theorem drain (h : Abandoned c) (hbatch : c.batch = []) :
    Abandoned { c with batch := c.pendingFunctors, pendingFunctors := [] } where
  single := single_drain h.single hbatch
  asked := h.asked
  alone := h.alone
  entering := h.entering
  stops := fun hc => by
    have hmem := h.stops hc
    simpa [State.queue, hbatch] using hmem

end Abandoned

end Connector

end Leanet

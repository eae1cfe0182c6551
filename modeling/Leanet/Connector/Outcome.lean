import Leanet.Connector.Attempts

/-! What a step comes to.

While at most one attempt is outstanding (`Single`), a callback or a functor either leaves
sockets and channel alone or ends an attempt (`MayEnd`). From this follows what a step does
to the sockets and to the retry delay (`step_does`). -/
namespace Leanet.Connector

/-- The socket an effect passes on. -/
def Effect.passed : Effect → Option Nat
  | .newConnection sockfd => some sockfd
  | _ => none

def Effect.isRunAfter : Effect → Bool
  | .runAfter _ => true
  | _ => false

variable {s s' : State} {l : Action} {e : List Effect} {soError : Option Errno}
  {selfConnected : Bool}

theorem callback_mayEnd (h : Single s) (hm : may s (.callback soError selfConnected))
    (hs : step s (.callback soError selfConnected) = .ok (e, s')) :
    MayEnd { s with dispatch := s.dispatch.tail } e s' := by
  obtain ⟨callback, -, hs⟩ := bind_eq_ok.mp hs
  have hnext := single_pop h hm.2
  cases callback with
  | close | read =>
    cases hs
    exact .inl ⟨rfl, rfl⟩
  | error =>
    obtain ⟨_, _, hrun, hretry⟩ := handleError_spec hnext
    cases hrun.symm.trans hs
    exact hretry.mayEnd
  | write =>
    obtain ⟨_, _, hrun, hend⟩ := handleWrite_spec hnext (h.unconnected hm.2) soError selfConnected
    cases hrun.symm.trans hs
    exact hend

/-- What the next functor of the batch does. -/
theorem functor_cases (h : Single s) (hm : may s .functor) (hs : step s .functor = .ok (e, s')) :
    ∃ f rest, s.batch = f :: rest ∧
      (f = .startInLoop ∧ e = [] ∧ s' = { s with batch := rest, inside := some .startInLoop } ∨
      f = .stopInLoop ∧ (e = [] ∧ s' = { s with batch := rest } ∨
        s.state = .kConnecting ∧ ∃ c, s.channel = some c ∧ e = [.close c.fd] ∧
          s' = (retry (({ s with batch := rest } : State).removed c) c.fd).2) ∨
      f = .resetChannel ∧ e = [] ∧ s' = { s with batch := rest, channel := none }) := by
  obtain ⟨f, rest, hrest⟩ := List.exists_cons_of_ne_nil hm.2
  simp only [step, hrest, List.head?_cons, List.tail_cons, deref_some, ok_bind] at hs
  refine ⟨f, rest, hrest, ?_⟩
  cases f with
  | startInLoop =>
    cases hs
    exact .inl ⟨rfl, rfl, rfl⟩
  | resetChannel =>
    cases hs
    exact .inr (.inr ⟨rfl, rfl, rfl⟩)
  | stopInLoop =>
    obtain ⟨_, _, hrun, hretry⟩ := stopInLoop_spec (single_pop_stop h hrest)
    cases hrun.symm.trans hs
    exact .inr (.inl ⟨rfl, hretry⟩)

/-! ### What a step does to the sockets and the delay -/

/-- A socket is opened when none is open, or the one that is is disposed of. -/
inductive Books : List Effect → List Nat → List Nat → Prop where
  | same {e : List Effect} (sockets : List Nat) : (∀ x ∈ e, x.isRunAfter = true) →
      Books e sockets sockets
  | socket (fd : Nat) : Books [.socket fd] [] [fd]
  | close (fd : Nat) : Books [.close fd] [fd] []
  | passed (fd : Nat) : Books [.newConnection fd] [fd] []

/-- The retry delay starts again, is used and doubled, or stays as it is. -/
inductive Delays : Action → List Effect → Nat → Nat → Prop where
  | restart (d : Nat) : Delays .restart [] d kInitRetryDelayMs
  | retry {l : Action} (d : Nat) : l ≠ .restart →
      Delays l [.runAfter d] d (min (d * 2) kMaxRetryDelayMs)
  | same {l : Action} {e : List Effect} (d : Nat) : l ≠ .restart →
      (∀ x ∈ e, x.isRunAfter = false) → Delays l e d d

structure Does (s : State) (l : Action) (e : List Effect) (s' : State) : Prop where
  books : Books e s.sockets s'.sockets
  delays : Delays l e s.retryDelayMs s'.retryDelayMs
  passes : s.connected = false → ∀ x ∈ e, x.passed = none

theorem does_nothing (hl : l ≠ .restart) (hsockets : s'.sockets = s.sockets)
    (hdelay : s'.retryDelayMs = s.retryDelayMs) : Does s l [] s' where
  books := hsockets ▸ .same _ (by simp)
  delays := hdelay ▸ .same _ hl (by simp)
  passes := by simp

theorem Ends.does {c : Channel} (h : Ends s c e s') (hsockets : s.sockets = [c.fd])
    (hl : l ≠ .restart) : Does s l e s' := by
  have herase : s.sockets.erase c.fd = [] := by simp [hsockets]
  have hnil : s'.sockets = [] := by cases h <;> exact herase
  cases h with
  | retry =>
    refine ⟨?_, .same _ hl (by simp [Effect.isRunAfter]), by simp [Effect.passed]⟩
    rw [hsockets, hnil]
    exact .close c.fd
  | passed hconnected =>
    refine ⟨?_, .same _ hl (by simp [Effect.isRunAfter]), fun hd => ?_⟩
    · rw [hsockets, hnil]
      exact .passed c.fd
    · cases hconnected.symm.trans hd
  | stopped =>
    refine ⟨?_, .same _ hl (by simp [Effect.isRunAfter]), by simp [Effect.passed]⟩
    rw [hsockets, hnil]
    exact .close c.fd

/-- The socket of a connecting connector is the one behind its channel. -/
theorem Single.socket_of_connecting (h : Single s) (hc : s.state = .kConnecting) {c : Channel}
    (hchannel : s.channel = some c) : s.sockets = [c.fd] := by
  obtain ⟨d, hd, hsockets⟩ := h.present (h.connecting.mp hc)
  cases hchannel.symm.trans hd
  exact hsockets

theorem connect_does (h : Single s) {fd : Nat} (hinside : s.inside = some (.connect fd))
    {savedErrno : Option Errno} (hs : connect s fd savedErrno = .ok (e, s')) :
    Does s (.connect savedErrno) e s' := by
  obtain ⟨hchannel, hsockets⟩ := h.socket fd hinside
  have hclose : ∀ t : State, t.sockets = s.sockets.erase fd → t.retryDelayMs = s.retryDelayMs →
      Does s (.connect savedErrno) [.close fd] t := by
    intro t hsame hdelay
    have hnil : t.sockets = [] := by simp [hsame, hsockets]
    refine ⟨?_, hdelay ▸ .same _ (by simp) (by simp [Effect.isRunAfter]), by simp [Effect.passed]⟩
    rw [hsockets, hnil]
    exact .close fd
  rcases connect_cases s fd savedErrno with hrun | hrun | hrun
  · rw [connecting_eq (s := { s with inside := none }) hchannel] at hrun
    cases hrun.symm.trans hs
    exact does_nothing (by simp) rfl rfl
  · cases hrun.symm.trans hs
    exact hclose _ rfl rfl
  · cases hrun.symm.trans hs
    exact hclose _ rfl rfl

theorem step_does (h : Single s) (hm : may s l) (hs : step s l = .ok (e, s')) : Does s l e s' := by
  cases l with
  | restart =>
    cases hs
    exact ⟨.same _ (by simp), .restart _, by simp⟩
  | start | stop | beginStart | endStart | beginStop | endStop | timer | doPendingFunctors =>
    cases hs
    exact does_nothing (by simp) rfl rfl
  | handleEvent revents =>
    obtain ⟨c, -, hs⟩ := bind_eq_ok.mp hs
    cases hs
    exact does_nothing (by simp) rfl rfl
  | startInLoop fd =>
    have hinside : s.inside = some .startInLoop := hm.1
    have hstate := h.disconnected (Single.outstanding_pos (by simp [hinside]))
    have hnone := h.closed (h.unregistered hstate) (by simp [hinside])
    obtain ⟨_, -, hs⟩ := bind_eq_ok.mp hs
    split at hs
    · cases hs
      refine ⟨?_, .same _ (by simp) (by simp [Effect.isRunAfter]), by simp [Effect.passed]⟩
      rw [hnone]
      exact .socket fd
    · cases hs
      exact does_nothing (by simp) rfl rfl
  | connect savedErrno =>
    obtain ⟨_, hin, fd, rfl⟩ := hm
    have hinside : s.inside = some (.connect fd) := hin
    simp only [step, hinside] at hs
    exact connect_does h hinside hs
  | scheduleRetry =>
    simp only [step, scheduleRetry] at hs
    split at hs
    · cases hs
      exact ⟨.same _ (by simp [Effect.isRunAfter]), .retry _ (by simp), by simp [Effect.passed]⟩
    · cases hs
      exact does_nothing (by simp) rfl rfl
  | callback soError selfConnected =>
    rcases callback_mayEnd h hm hs with ⟨rfl, rfl⟩ | ⟨hc, c, hchannel, hends⟩
    · exact does_nothing (by simp) rfl rfl
    · have hdoes := hends.does (l := .callback soError selfConnected)
        (h.socket_of_connecting hc hchannel) (by simp)
      exact ⟨hdoes.books, hdoes.delays, hdoes.passes⟩
  | functor =>
    obtain ⟨f, rest, -, hcases⟩ := functor_cases h hm hs
    rcases hcases with ⟨-, rfl, rfl⟩ | ⟨-, ⟨rfl, rfl⟩ | ⟨hc, c, hchannel, rfl, rfl⟩⟩ | ⟨-, rfl, rfl⟩
    · exact does_nothing (by simp) rfl rfl
    · exact does_nothing (by simp) rfl rfl
    · have hdoes := (Ends.retry (s := { s with batch := rest })).does (l := .functor)
        (h.socket_of_connecting hc hchannel) (by simp)
      exact ⟨hdoes.books, hdoes.delays, hdoes.passes⟩
    · exact does_nothing (by simp) rfl rfl

end Leanet.Connector

import Leanet.Connector.Client
import Mathlib.Algebra.Group.Nat.Defs

/-! The socket ledger of a client's connector.

Every socket that `connect` makes is closed by the connector or passed to
`newConnectionCallback_`, once, before its number comes up again; what is not settled yet
is the one socket of the attempt in progress. After a `stop` no test of `connected_`
succeeds, so at most the call that had been tested for before still comes, and `stop` on
another thread does not prevent that one (`connector_ledger_race`). -/
namespace Leanet

/-- The socket an effect is about. -/
def Connector.Effect.sockfd : Connector.Effect → Option Nat
  | .socket fd | .close fd | .newConnection fd => some fd
  | .runAfter _ => none

namespace Client
open Connector (Effect Books Delays)

/-- What happened to the sockets numbered `fd`, in order. -/
def about (fd : Nat) (effects : List Effect) : List Effect :=
  effects.filter fun e => e.sockfd = some fd

def history (fd : Nat) (tr : List (Action × List Effect)) : List Effect :=
  tr.flatMap fun e => about fd e.2

/-- Each socket was closed once or passed on once, and not both. -/
inductive Settled (fd : Nat) : List Effect → Prop where
  | nil : Settled fd []
  | close {done : List Effect} : Settled fd done → Settled fd (done ++ [.socket fd, .close fd])
  | passed {done : List Effect} : Settled fd done →
      Settled fd (done ++ [.socket fd, .newConnection fd])

/-- The calls of `newConnectionCallback_`. -/
def calls (tr : List (Action × List Effect)) : List Nat :=
  tr.flatMap fun e => e.2.filterMap Effect.passed

/-- The retries scheduled since the connector was made or restarted. -/
def retries (tr : List (Action × List Effect)) : Nat :=
  tr.foldl (fun k e => if e.1 = .act .restart then 0 else k + e.2.countP Effect.isRunAfter) 0

/-- No attempt is in progress. -/
def State.Idle (s : State) : Prop :=
  s.connector.inside = none ∧ s.connector.registered = false ∧ s.calling = none

/-- The sockets that are still to be disposed of. -/
def State.unsettled (s : State) : List Nat := s.connector.sockets ++ s.calling.toList

variable {s s' : State} {l : Action} {e : List Effect} {fd : Nat}

/-! ### One step -/

/-- While a call is about to be made the loop's thread is busy with it. -/
theorem effects_of_other {a : Connector.Action} {c : Connector.State}
    {r : List Effect × Connector.State} (ha : onLoop a = false) (hr : Connector.step c a = .ok r) :
    r.1 = [] := by
  cases a with
  | beginStart | endStart | beginStop | endStop =>
    cases hr
    rfl
  | start | restart | stop | startInLoop | connect | scheduleRetry | handleEvent | callback | timer
  | doPendingFunctors | functor => cases ha

theorem Used.sockets_of_calling (h : Used s) (hcalling : s.calling.isSome = true) :
    s.connector.sockets = [] := by
  obtain ⟨hstate, hinside⟩ := h.calling hcalling
  refine h.single.closed ?_ (by simp [hinside])
  rw [← Bool.not_eq_true, ← h.single.connecting, hstate]
  exact nofun

theorem passed_of_isRunAfter {x : Effect} (h : x.isRunAfter = true) : x.passed = none := by
  cases x with
  | runAfter => rfl
  | socket | close | newConnection => cases h

/-- The socket that is about to be passed on is not settled yet. -/
theorem after_books {a : Connector.Action} {r : List Effect × Connector.State}
    (h : Books r.1 s.connector.sockets r.2.sockets) (hnone : r.1 ≠ [] → s.calling = none) :
    Books (s.after a r).1 s.unsettled (s.after a r).2.unsettled := by
  obtain ⟨e, c⟩ := r
  show Books (e.filter fun x => x.passed.isNone) (s.connector.sockets ++ s.calling.toList)
    (c.sockets ++ ((e.findSome? Effect.passed).or s.calling).toList)
  generalize s.connector.sockets = before at h ⊢
  generalize c.sockets = later at h ⊢
  cases h with
  | same _ hrun =>
    have hfilter : (e.filter fun x => x.passed.isNone) = e :=
      List.filter_eq_self.mpr fun x hx => by rw [passed_of_isRunAfter (hrun x hx)]; rfl
    have hfind : e.findSome? Effect.passed = none :=
      List.findSome?_eq_none_iff.mpr fun x hx => passed_of_isRunAfter (hrun x hx)
    rw [hfilter, hfind]
    exact .same _ hrun
  | socket fd =>
    rw [hnone (by simp)]
    exact .socket fd
  | close fd =>
    rw [hnone (by simp)]
    exact .close fd
  | passed fd =>
    rw [hnone (by simp)]
    exact .same [fd] (by simp [Effect.passed])

theorem step_books (h : Used s) (hm : may s l) (hs : step s l = .ok (e, s')) :
    Books e s.unsettled s'.unsettled := by
  cases l with
  | poll =>
    cases hs
    exact .same _ (by simp)
  | timer setIn =>
    obtain ⟨r, hr, hs⟩ := bind_eq_ok.mp hs
    cases hr
    cases hs
    exact .same _ (by simp)
  | call =>
    obtain ⟨sockfd, hsockfd⟩ := Option.isSome_iff_exists.mp hm
    have hnil := h.sockets_of_calling hm
    simp only [step, hsockfd, deref_some, ok_bind] at hs
    cases hs
    rw [State.unsettled, State.unsettled, hnil, hsockfd]
    exact .passed sockfd
  | act a =>
    obtain ⟨r, hr, hs⟩ := bind_eq_ok.mp hs
    cases hs
    refine after_books (Connector.step_does h.single hm.1 hr).books fun hne => hm.2.2 ?_
    by_contra ha
    exact hne (effects_of_other (by simpa using ha) hr)

/-- What has been done with the sockets numbered `fd`, one of which may still be open. -/
def Ledger (fd : Nat) (unsettled : List Nat) (history : List Effect) : Prop :=
  if fd ∈ unsettled then ∃ done, Settled fd done ∧ history = done ++ [.socket fd]
  else Settled fd history

theorem Ledger.step {before later : List Nat} {history : List Effect} (h : Ledger fd before history)
    (hb : Books e before later) : Ledger fd later (history ++ about fd e) := by
  cases hb with
  | same _ hrun =>
    have hnil : about fd e = [] := by
      refine List.filter_eq_nil_iff.mpr fun x hx => ?_
      have := hrun x hx
      cases x with
      | runAfter => simp [Effect.sockfd]
      | socket | close | newConnection => cases this
    rw [hnil, List.append_nil]
    exact h
  | socket fd' =>
    have hsettled : Settled fd history := h
    by_cases hfd : fd' = fd
    · subst hfd
      simp only [Ledger, List.mem_singleton, if_true]
      exact ⟨history, hsettled, by simp [about, Effect.sockfd]⟩
    · simpa [Ledger, about, Effect.sockfd, hfd, Ne.symm hfd] using hsettled
  | close fd' =>
    by_cases hfd : fd' = fd
    · subst hfd
      obtain ⟨done, hdone, rfl⟩ : ∃ done, Settled fd' done ∧ history = done ++ [.socket fd'] := by
        simpa [Ledger] using h
      simpa [Ledger, about, Effect.sockfd] using hdone.close
    · simpa [Ledger, about, Effect.sockfd, hfd, Ne.symm hfd] using h
  | passed fd' =>
    by_cases hfd : fd' = fd
    · subst hfd
      obtain ⟨done, hdone, rfl⟩ : ∃ done, Settled fd' done ∧ history = done ++ [.socket fd'] := by
        simpa [Ledger] using h
      simpa [Ledger, about, Effect.sockfd] using hdone.passed
    · simpa [Ledger, about, Effect.sockfd, hfd, Ne.symm hfd] using h

/-- What the retry delay is after `k` retries. -/
def delayAfter (k : Nat) : Nat := min (500 * 2 ^ k) 30000

theorem delayAfter_succ (k : Nat) : min (delayAfter k * 2) Connector.kMaxRetryDelayMs =
    delayAfter (k + 1) := by
  simp only [delayAfter, Connector.kMaxRetryDelayMs, pow_succ]
  omega

theorem retries_snoc (tr : List (Action × List Effect)) (l : Action) (e : List Effect) :
    retries (tr ++ [(l, e)]) =
      if l = .act .restart then 0 else retries tr + e.countP Effect.isRunAfter := by
  rw [retries, List.foldl_append]
  rfl

/-- The calls are no retries, and what lets a retry out is a step of the connector. -/
theorem step_delay {tr : List (Action × List Effect)} (h : Used s) (hm : may s l)
    (hs : step s l = .ok (e, s')) (hd : s.connector.retryDelayMs = delayAfter (retries tr)) :
    s'.connector.retryDelayMs = delayAfter (retries (tr ++ [(l, e)])) := by
  rw [retries_snoc]
  cases l with
  | poll =>
    cases hs
    exact hd
  | timer setIn =>
    obtain ⟨r, hr, hs⟩ := bind_eq_ok.mp hs
    cases hr
    cases hs
    exact hd
  | call =>
    obtain ⟨sockfd, -, hs⟩ := bind_eq_ok.mp hs
    cases hs
    exact hd
  | act a =>
    obtain ⟨⟨e', c⟩, hr, hs⟩ := bind_eq_ok.mp hs
    cases hs
    have hdelays := (Connector.step_does h.single hm.1 hr).delays
    show c.retryDelayMs = _
    generalize s.connector.retryDelayMs = before at hd hdelays
    generalize c.retryDelayMs = later at hdelays ⊢
    cases hdelays with
    | restart =>
      rw [if_pos rfl]
      rfl
    | retry _ hne =>
      rw [if_neg (by simpa using hne), hd, delayAfter_succ]
      rfl
    | same _ hne hnone =>
      have hzero : (e'.filter fun x => x.passed.isNone).countP Effect.isRunAfter = 0 := by
        refine List.countP_eq_zero.mpr fun x hx => ?_
        simp [hnone x (List.mem_of_mem_filter hx)]
      rw [if_neg (by simpa using hne)]
      show before = delayAfter (retries tr + (e'.filter fun x => x.passed.isNone).countP _)
      rw [hzero]
      exact hd

/-- After a `stop` the calls made and the one still to be made do not become more. -/
theorem step_stopped (h : Used s) (hm : may s l) (hs : step s l = .ok (e, s'))
    (hstopped : s.stopped = true) : s'.stopped = true ∧
      e.filterMap Effect.passed ++ s'.calling.toList = s.calling.toList := by
  cases l with
  | poll =>
    cases hs
    exact ⟨hstopped, rfl⟩
  | timer setIn =>
    obtain ⟨r, hr, hs⟩ := bind_eq_ok.mp hs
    cases hr
    cases hs
    exact ⟨hstopped, rfl⟩
  | call =>
    obtain ⟨sockfd, hsockfd⟩ := Option.isSome_iff_exists.mp hm
    simp only [step, hsockfd, deref_some, ok_bind] at hs
    cases hs
    exact ⟨hstopped, by rw [hsockfd]; rfl⟩
  | act a =>
    obtain ⟨⟨e', c⟩, hr, hs⟩ := bind_eq_ok.mp hs
    cases hs
    have hnone := (Connector.step_does h.single hm.1 hr).passes (h.disconnected hstopped)
    have hfind : e'.findSome? Effect.passed = none := List.findSome?_eq_none_iff.mpr hnone
    refine ⟨(congrArg (isStop a || ·) hstopped).trans (Bool.or_true _), ?_⟩
    have hcalls : (e'.filter fun x => x.passed.isNone).filterMap Effect.passed = [] :=
      List.filterMap_eq_nil_iff.mpr fun x hx => hnone x (List.mem_of_mem_filter hx)
    show (e'.filter fun x => x.passed.isNone).filterMap Effect.passed ++
      ((e'.findSome? Effect.passed).or s.calling).toList = s.calling.toList
    rw [hcalls, hfind]
    rfl

/-! ### Every run -/

theorem used_run {tr : List (Action × List Effect)} (h : machine.Run initial tr s) : Used s :=
  used_inductive.run h used_initial

theorem ledger_run {tr : List (Action × List Effect)} (h : machine.Run initial tr s) (fd : Nat) :
    Ledger fd s.unsettled (history fd tr) := by
  refine h.snoc_induction (P := fun tr s => Ledger fd s.unsettled (history fd tr)) ?_ ?_
  · exact Settled.nil
  · intro tr s l e s' hrun ih hm hs
    have hbooks := step_books (used_run hrun) hm hs
    rw [history, List.flatMap_append, List.flatMap_singleton]
    exact ih.step hbooks

theorem delay_run {tr : List (Action × List Effect)} (h : machine.Run initial tr s) :
    s.connector.retryDelayMs = delayAfter (retries tr) :=
  h.snoc_induction (P := fun tr s => s.connector.retryDelayMs = delayAfter (retries tr)) rfl
    fun _ _ _ _ _ hrun ih hm hs => step_delay (used_run hrun) hm hs ih

theorem stopped_run {tr : List (Action × List Effect)} (h : Used s) (hstopped : s.stopped = true)
    (hrun : machine.Run s tr s') : calls tr ++ s'.calling.toList = s.calling.toList := by
  induction hrun with
  | nil => rfl
  | @cons s t u l e tr hm hs _ ih =>
    obtain ⟨hstopped', hstep⟩ := step_stopped h hm hs hstopped
    obtain ⟨e', t', hs', hused⟩ := used_inductive s l h hm
    cases hs.symm.trans hs'
    rw [← hstep, ← ih hused hstopped']
    exact List.append_assoc ..

/-- **Every socket is closed once or passed on once, and the ledger is balanced when the
connector is idle.** From a `stop` on the only call that still comes is the one about to
be made; no assertion fails; and the retry delay is 500 ms doubled with each retry since
the start or the restart, up to 30 s. -/
theorem connector_ledger {tr : List (Action × List Effect)} (h : machine.Run initial tr s) :
    (s.Idle → ∀ fd, Settled fd (history fd tr)) ∧
    (s.stopped = true → ∀ tr' s', machine.Run s tr' s' → calls tr' <+: s.calling.toList) ∧
    (∀ l, may s l → ∃ e s', step s l = .ok (e, s')) ∧
    s.connector.retryDelayMs = min (500 * 2 ^ retries tr) 30000 := by
  have hused := used_run h
  refine ⟨fun ⟨hinside, hreg, hcalling⟩ fd => ?_, fun hstopped tr' s' hrun => ?_, fun l hm => ?_,
    delay_run h⟩
  · have hnil : s.unsettled = [] := by
      rw [State.unsettled, hcalling,
        hused.single.closed hreg (by simp [hinside])]
      rfl
    have hledger := ledger_run h fd
    rwa [Ledger, hnil, if_neg List.not_mem_nil] at hledger
  · exact ⟨_, stopped_run hused hstopped hrun⟩
  · obtain ⟨e, s', hs, -⟩ := used_inductive s l hused hm
    exact ⟨e, s', hs⟩

instance (s : State) : Decidable s.Idle := inferInstanceAs (Decidable (_ ∧ _ ∧ _))

/-- Refused, then an error and POLLOUT in one event, then connected. -/
theorem connector_ledger_third : ∃ tr s, machine.Run initial tr s ∧ retries tr = 2 ∧
    calls tr = [8] ∧ s.connector.retryDelayMs = 2000 ∧
    history 7 tr = [.socket 7, .close 7, .socket 7, .close 7] ∧ Settled 7 (history 7 tr) ∧
    history 8 tr = [.socket 8, .newConnection 8] ∧ Settled 8 (history 8 tr) := by
  obtain ⟨tr, s, h, -, hidle, hretries, hcalls, hseven, height⟩ :=
    machine.exists_run_of_replay (s := initial)
      (P := fun tr s => s.Idle ∧ retries tr = 2 ∧ calls tr = [8] ∧
        history 7 tr = [.socket 7, .close 7, .socket 7, .close 7] ∧
        history 8 tr = [.socket 8, .newConnection 8])
      [.act .start, .act (.startInLoop 7), .act (.connect (some .ECONNREFUSED)),
        .act .scheduleRetry, .poll, .timer 0, .act (.startInLoop 7),
        .act (.connect (some .EINPROGRESS)), .act .doPendingFunctors, .poll,
        .act (.handleEvent (POLLERR ||| POLLOUT)), .act (.callback none false),
        .act .scheduleRetry, .act (.callback none false), .act .doPendingFunctors, .act .functor,
        .poll, .timer 2, .act (.startInLoop 8), .act (.connect none), .act .doPendingFunctors,
        .poll, .act (.handleEvent POLLOUT), .act (.callback none false), .call]
      (by decide +kernel)
  obtain ⟨hsettled, -, -, hdelay⟩ := connector_ledger h
  rw [hretries] at hdelay
  exact ⟨tr, s, h, hretries, hcalls, hdelay, hseven, hsettled hidle 7, height, hsettled hidle 8⟩

/-- Another thread stops the connector once `handleWrite` has tested `connected_`: `stop` has
returned, and the connection is handed over. -/
theorem connector_ledger_race : ∃ tr s s', machine.Run initial tr s ∧
    tr.map Prod.fst = [.act .start, .act (.startInLoop 7), .act (.connect (some .EINPROGRESS)),
      .poll, .act (.handleEvent POLLOUT), .act (.callback none false), .act .beginStop,
      .act .endStop] ∧
    s.stopped = true ∧ s.connector.stopping = 0 ∧ may s .call ∧
    step s .call = .ok ([.newConnection 7], s') := by
  obtain ⟨tr, s, h, hlabels, hstopped, hstopping, hcalling⟩ :=
    machine.exists_run_of_replay (s := initial)
      (P := fun _ s => s.stopped = true ∧ s.connector.stopping = 0 ∧ s.calling = some 7)
      [.act .start, .act (.startInLoop 7), .act (.connect (some .EINPROGRESS)), .poll,
        .act (.handleEvent POLLOUT), .act (.callback none false), .act .beginStop, .act .endStop]
      (by decide +kernel)
  refine ⟨tr, s, { s with calling := none, called := some s.turn }, h, hlabels, hstopped, hstopping,
    by rw [may, hcalling]; rfl, ?_⟩
  simp only [step, hcalling, deref_some, ok_bind, pure_eq_ok]

end Client
end Leanet

import Leanet.Server.TcpServer

/-! Who runs a connection's functions.

Once a connection is there, all that is done to it is done by its own loop's thread: the poller
that has its channel is that loop's, `send` and `shutdown` go by way of its queue, and so does
`removeConnection` by way of the server's and back (`Affine`). Only `newConnection` does not
hop: it calls `connectEstablished` on the server's thread, whichever loop it has got; and
before that it asks a pool for the loop that the constructor never makes
(`server_affinity`). -/
namespace Leanet.TcpServer
open LifeCycle (Fits)

variable {T : Type} {build : Build} {s s' : State T} {t : T} {c : Nat} {o : Conn T} {f : Functor}
  {l : Action T} {α β : Type}

/-! ### Aborts that have nothing to do with threads -/

/-- It ends in a fault of its own, or not at all: no null pointer, no wrong thread. -/
def Safe (x : Except Abort α) : Prop := ∀ a, x = .error a → ∃ fault, a = .fault fault

theorem safe_ok (a : α) : Safe (.ok a : Except Abort α) := by
  intro a h
  cases h

theorem safe_bind {x : Except Abort α} {g : α → Except Abort β} (hx : Safe x)
    (hg : ∀ a, x = .ok a → Safe (g a)) : Safe (x >>= g) := by
  cases x with
  | ok a => exact hg a rfl
  | error a =>
    obtain ⟨fault, rfl⟩ := hx a rfl
    intro b h
    cases h
    exact ⟨fault, rfl⟩

theorem safe_lift (x : Except Fault α) : Safe (liftM x : Except Abort α) := by
  intro a h
  cases x with
  | ok b => cases h
  | error fault =>
    cases h
    exact ⟨fault, rfl⟩

theorem lift_eq_ok {x : Except Fault α} {a : α} :
    (liftM x : Except Abort α) = .ok a ↔ x = .ok a := by
  cases x with
  | ok b => constructor <;> intro h <;> cases h <;> rfl
  | error fault => constructor <;> intro h <;> cases h

/-! ### The invariant -/

/-- The queue that a functor belongs to. -/
def Home (s : State T) (t : T) : Functor → Prop
  | .listen | .removeConnectionInLoop _ => t = s.loop
  | .sendInLoop c _ | .shutdownInLoop c | .connectDestroyed c => ∃ o, s.object c = some o ∧ o.loop = t

/-- What is queued or active on a loop is the server's or of a connection of that loop. -/
structure Affine (s : State T) : Prop where
  queued : ∀ t, ∀ f ∈ s.batch t ++ s.pendingFunctors t, Home s t f
  active : ∀ t, ∀ x ∈ s.dispatch t, ∃ o, s.object x.1 = some o ∧ o.loop = t
  fresh : ∀ c, s.nextConnId ≤ c → s.object c = none

/-- A step that leaves the server's loop and pool alone. -/
structure Onward (s s' : State T) : Prop where
  affine : Affine s'
  loop : s'.loop = s.loop
  threadPool : s'.threadPool = s.threadPool

theorem affine_new (loop : T) (pool : Option (EventLoopThreadPool T)) :
    Affine { new loop with threadPool := pool } :=
  ⟨fun _ _ h => (List.not_mem_nil h).elim, fun _ _ h => (List.not_mem_nil h).elim, fun _ _ => rfl⟩

/-- Connections stay on their loops. -/
theorem Home.mono {t : T} (h : Home s t f) (hloop : s'.loop = s.loop)
    (hobject : ∀ c o, s.object c = some o → ∃ o', s'.object c = some o' ∧ o'.loop = o.loop) :
    Home s' t f := by
  cases f with
  | listen | removeConnectionInLoop c => exact Eq.trans h hloop.symm
  | sendInLoop c data | shutdownInLoop c | connectDestroyed c =>
    obtain ⟨o, ho, rfl⟩ := h
    exact hobject c o ho

theorem setConn_object (ho : s.object c = some o) (conn : TcpConnection) (d : Nat) {p : Conn T}
    (hp : s.object d = some p) : ∃ p', (s.setConn c o conn).object d = some p' ∧ p'.loop = p.loop := by
  by_cases hd : d = c
  · subst hd
    obtain rfl := Option.some.inj (ho.symm.trans hp)
    exact ⟨_, Function.update_self .., rfl⟩
  · exact ⟨p, (Function.update_of_ne hd ..).trans hp, rfl⟩

theorem Affine.setConn (h : Affine s) (ho : s.object c = some o) (conn : TcpConnection) :
    Affine (s.setConn c o conn) := by
  refine ⟨fun t f hf => (h.queued t f hf).mono rfl fun d p hp => setConn_object ho conn d hp,
    fun t x hx => ?_, fun d hd => ?_⟩
  · obtain ⟨p, hp, rfl⟩ := h.active t x hx
    exact setConn_object ho conn x.1 hp
  · have hne : d ≠ c := by
      rintro rfl
      rw [h.fresh d hd] at ho
      cases ho
    exact (Function.update_of_ne hne ..).trans (h.fresh d hd)

/-- The callbacks left on a loop, or its functors, become fewer. -/
theorem Affine.shrink (h : Affine s) {dispatch : T → List (Nat × Callback)} {batch : T → List Functor}
    (hd : ∀ t, dispatch t ⊆ s.dispatch t) (hb : ∀ t, batch t ⊆ s.batch t) :
    Affine { s with dispatch, batch } := by
  refine ⟨fun t f hf => h.queued t f ?_, fun t x hx => h.active t x (hd t hx), h.fresh⟩
  rcases List.mem_append.mp hf with hf | hf
  · exact List.mem_append_left _ (hb t hf)
  · exact List.mem_append_right _ hf

/-- A new connection, on whatever loop. -/
theorem Affine.made (h : Affine s) (pool : EventLoopThreadPool T) (o : Conn T) :
    Affine { s with
      nextConnId := s.nextConnId + 1
      threadPool := some pool
      object := Function.update s.object s.nextConnId (some o)
      connections := s.nextConnId :: s.connections } := by
  have hold (c : Nat) (p : Conn T) (hp : s.object c = some p) :
      Function.update s.object s.nextConnId (some o) c = some p := by
    have hc : c ≠ s.nextConnId := by
      rintro rfl
      rw [h.fresh _ (Nat.le_refl _)] at hp
      cases hp
    rw [Function.update_of_ne hc, hp]
  refine ⟨fun t f hf => (h.queued t f hf).mono rfl fun c p hp => ⟨p, hold c p hp, rfl⟩,
    fun t x hx => ?_, fun c hc => ?_⟩
  · obtain ⟨p, hp, hloop⟩ := h.active t x hx
    exact ⟨p, hold x.1 p hp, hloop⟩
  · have hc : s.nextConnId + 1 ≤ c := hc
    exact (Function.update_of_ne (by omega) ..).trans (h.fresh c (by omega))

variable [DecidableEq T]

theorem Affine.queueInLoop (h : Affine s) {loop : T} (hf : Home s loop f) :
    Affine (s.queueInLoop loop f) := by
  refine ⟨fun t g hg => ?_, h.active, h.fresh⟩
  by_cases ht : t = loop
  · subst ht
    simp only [State.queueInLoop, Function.update_self, ← List.append_assoc, List.mem_append,
      List.mem_singleton] at hg
    rcases hg with hg | rfl
    · exact h.queued t g (List.mem_append.mpr hg)
    · exact hf
  · simp only [State.queueInLoop, Function.update_of_ne ht] at hg
    exact h.queued t g hg

/-! ### The functions of the source -/

theorem removeConnectionInLoop_onward (h : Affine s)
    (hs : removeConnectionInLoop build s t c = .ok s') : Onward s s' := by
  obtain ⟨_, -, hs⟩ := bind_eq_ok.mp hs
  obtain ⟨_, -, hs⟩ := bind_eq_ok.mp hs
  obtain ⟨o, ho, hs⟩ := bind_eq_ok.mp hs
  have ho := deref_eq_ok.mp (lift_eq_ok.mp ho)
  cases hs
  have h' : Affine { s with connections := s.connections.erase c } := ⟨h.queued, h.active, h.fresh⟩
  exact ⟨h'.queueInLoop ⟨o, ho, rfl⟩, rfl, rfl⟩

theorem removeConnection_onward (h : Affine s) (hs : removeConnection build s t c = .ok s') :
    Onward s s' := by
  unfold removeConnection at hs
  split at hs
  · exact removeConnectionInLoop_onward h hs
  · cases hs
    exact ⟨h.queueInLoop rfl, rfl, rfl⟩

theorem perform_onward (h : Affine s) (ho : s.object c = some o) {r : List Effect × TcpConnection}
    (hs : perform build s t c o r = .ok s') : Onward s s' := by
  have h' := h.setConn ho r.2
  simp only [perform] at hs
  split at hs
  · obtain ⟨haffine, hloop, hpool⟩ := removeConnection_onward h' hs
    exact ⟨haffine, hloop, hpool⟩
  · cases hs
    exact ⟨h', rfl, rfl⟩

theorem call_onward (h : Affine s) {g : TcpConnection → Except Fault (List Effect × TcpConnection)}
    (hs : call build s t c g = .ok s') : Onward s s' := by
  obtain ⟨o, ho, hs⟩ := bind_eq_ok.mp hs
  obtain ⟨_, -, hs⟩ := bind_eq_ok.mp hs
  obtain ⟨r, -, hs⟩ := bind_eq_ok.mp hs
  exact perform_onward h (deref_eq_ok.mp (lift_eq_ok.mp ho)) hs

theorem runFunctor_onward (h : Affine s) {write : Transfer}
    (hs : runFunctor build s t write f = .ok s') : Onward s s' := by
  cases f with
  | listen =>
    obtain ⟨_, -, hs⟩ := bind_eq_ok.mp hs
    cases hs
    exact ⟨⟨h.queued, h.active, h.fresh⟩, rfl, rfl⟩
  | removeConnectionInLoop c => exact removeConnectionInLoop_onward h hs
  | sendInLoop c data | shutdownInLoop c | connectDestroyed c =>
    simp only [runFunctor] at hs
    exact call_onward h hs

theorem safe_assertInLoopThread {loop : T} (h : t = loop) : Safe (assertInLoopThread loop t) := by
  rw [assertInLoopThread, if_pos h]
  exact safe_ok ()

theorem removeConnectionInLoop_safe (ht : t = s.loop) :
    Safe (removeConnectionInLoop build s t c) :=
  safe_bind (safe_assertInLoopThread ht) fun _ _ => safe_bind (safe_lift _) fun _ _ =>
    safe_bind (safe_lift _) fun _ _ => safe_ok _

theorem removeConnection_safe : Safe (removeConnection build s t c) := by
  unfold removeConnection
  split
  · next ht => exact removeConnectionInLoop_safe ht
  · exact safe_ok _

theorem perform_safe {r : List Effect × TcpConnection} : Safe (perform build s t c o r) := by
  simp only [perform]
  split
  · exact removeConnection_safe
  · exact safe_ok _

theorem call_safe {g : TcpConnection → Except Fault (List Effect × TcpConnection)}
    (h : ∃ o, s.object c = some o ∧ o.loop = t) : Safe (call build s t c g) := by
  obtain ⟨o, ho, hloop⟩ := h
  refine safe_bind (safe_lift _) fun o' ho' => ?_
  obtain rfl := Option.some.inj (ho.symm.trans (deref_eq_ok.mp (lift_eq_ok.mp ho')))
  exact safe_bind (safe_assertInLoopThread hloop.symm) fun _ _ =>
    safe_bind (safe_lift _) fun _ _ => perform_safe

theorem runCallback_safe (hloop : o.loop = t) (transfer : Transfer) (callback : Callback) :
    Safe (runCallback build o t transfer callback) := by
  have hcheck : Safe (assertInLoopThread o.loop t) := safe_assertInLoopThread hloop.symm
  cases callback with
  | close | write => exact safe_bind hcheck fun _ _ => safe_lift _
  | error => exact safe_ok _
  | read =>
    cases transfer with
    | error errno => exact safe_ok _
    | ok n =>
      simp only [runCallback]
      split
      · exact safe_ok _
      · exact safe_bind hcheck fun _ _ => safe_lift _

/-- Run where it is at home, a functor aborts for no thread. -/
theorem runFunctor_safe {write : Transfer} (h : Home s t f) :
    Safe (runFunctor build s t write f) := by
  cases f with
  | listen => exact safe_bind (safe_assertInLoopThread h) fun _ _ => safe_ok _
  | removeConnectionInLoop c => exact removeConnectionInLoop_safe h
  | sendInLoop c data | shutdownInLoop c | connectDestroyed c =>
    simp only [runFunctor]
    exact call_safe h

/-! ### One step -/

theorem start_onward (h : Affine s) (hs : start build s t = .ok s') : Onward s s' := by
  obtain ⟨_, -, hs⟩ := bind_eq_ok.mp hs
  split at hs
  · obtain ⟨_, -, hs⟩ := bind_eq_ok.mp hs
    cases hs
    exact ⟨⟨h.queued, h.active, h.fresh⟩, rfl, rfl⟩
  · cases hs
    exact ⟨h.queueInLoop rfl, rfl, rfl⟩

theorem update_tail_subset {γ : Type} (g : T → List γ) (t u : T) :
    Function.update g t (g t).tail u ⊆ g u := by
  by_cases hu : u = t
  · subst hu
    rw [Function.update_self]
    exact (List.tail_sublist _).subset
  · rw [Function.update_of_ne hu]
    exact List.Subset.refl _

/-- Whatever is answered but an accept, every functor and channel is on its own loop again. -/
theorem step_onward (h : Affine s) (hm : may s l) (hl : ∀ sockfd, l ≠ .accept sockfd)
    (hs : step build s l = .ok ((), s')) : Onward s s' := by
  cases l with
  | accept sockfd => exact absurd rfl (hl sockfd)
  | start t =>
    obtain ⟨s₁, hs₁, hs⟩ := bind_eq_ok.mp hs
    cases hs
    exact start_onward h hs₁
  | handleEvent t c revents =>
    obtain ⟨o, ho, hs⟩ := bind_eq_ok.mp hs
    have ho := deref_eq_ok.mp (lift_eq_ok.mp ho)
    obtain ⟨o', ho', hloop, -⟩ := hm.1
    obtain rfl := Option.some.inj (ho.symm.trans ho')
    cases hs
    have h' := h.setConn ho { o.conn with channel := o.conn.channel.setReceivedEvents revents }
    refine ⟨⟨h'.queued, fun u x hx => ?_, h'.fresh⟩, rfl, rfl⟩
    by_cases hu : u = t
    · subst hu
      simp only [Function.update_self] at hx
      obtain ⟨callback, -, rfl⟩ := List.mem_map.mp hx
      exact ⟨_, Function.update_self .., hloop⟩
    · simp only [Function.update_of_ne hu] at hx
      exact h'.active u x hx
  | callback t transfer =>
    obtain ⟨⟨c, callback⟩, -, hs⟩ := bind_eq_ok.mp hs
    obtain ⟨o, ho, hs⟩ := bind_eq_ok.mp hs
    obtain ⟨r, -, hs⟩ := bind_eq_ok.mp hs
    obtain ⟨s₁, hs₁, hs⟩ := bind_eq_ok.mp hs
    cases hs
    have h' := h.shrink (update_tail_subset s.dispatch t) fun u => List.Subset.refl (s.batch u)
    obtain ⟨haffine, hloop, hpool⟩ := perform_onward h' (deref_eq_ok.mp (lift_eq_ok.mp ho)) hs₁
    exact ⟨haffine, hloop, hpool⟩
  | doPendingFunctors t =>
    cases hs
    refine ⟨⟨fun u f hf => ?_, h.active, h.fresh⟩, rfl, rfl⟩
    by_cases hu : u = t
    · subst hu
      simp only [Function.update_self, List.append_nil] at hf
      exact h.queued u f (List.mem_append_right _ hf)
    · simp only [Function.update_of_ne hu] at hf
      exact h.queued u f hf
  | functor t write =>
    obtain ⟨f, -, hs⟩ := bind_eq_ok.mp hs
    obtain ⟨s₁, hs₁, hs⟩ := bind_eq_ok.mp hs
    cases hs
    have h' := h.shrink (fun u => List.Subset.refl (s.dispatch u)) (update_tail_subset s.batch t)
    obtain ⟨haffine, hloop, hpool⟩ := runFunctor_onward h' hs₁
    exact ⟨haffine, hloop, hpool⟩
  | send t c data write =>
    obtain ⟨o, ho, hs⟩ := bind_eq_ok.mp hs
    split at hs
    · split at hs
      · obtain ⟨s₁, hs₁, hs⟩ := bind_eq_ok.mp hs
        cases hs
        exact call_onward h hs₁
      · cases hs
        exact ⟨h, rfl, rfl⟩
    · cases hs
      exact ⟨h.queueInLoop ⟨o, deref_eq_ok.mp (lift_eq_ok.mp ho), rfl⟩, rfl, rfl⟩
  | shutdown t c =>
    obtain ⟨o, ho, hs⟩ := bind_eq_ok.mp hs
    have ho := deref_eq_ok.mp (lift_eq_ok.mp ho)
    split at hs
    · obtain ⟨s₁, hs₁, hs⟩ := bind_eq_ok.mp hs
      cases hs
      exact perform_onward h ho hs₁
    · cases hs
      exact ⟨h.queueInLoop ⟨o, ho, rfl⟩, rfl, rfl⟩
  | storeShutdown c =>
    obtain ⟨o, ho, hs⟩ := bind_eq_ok.mp hs
    cases hs
    exact ⟨h.setConn (deref_eq_ok.mp (lift_eq_ok.mp ho)) _, rfl, rfl⟩

/-- Nothing but an accept aborts for a thread or a null pointer. -/
theorem step_safe (h : Affine s) (hl : ∀ sockfd, l ≠ .accept sockfd) :
    Safe (step build s l) := by
  have hdone {x : Except Abort (State T)} (hx : Safe x) :
      Safe (do pure ((), ← x) : Except Abort (Unit × State T)) :=
    safe_bind hx fun _ _ => safe_ok _
  cases l with
  | accept sockfd => exact absurd rfl (hl sockfd)
  | start t =>
    refine hdone (safe_bind (safe_lift _) fun _ _ => ?_)
    split
    · next ht => exact safe_bind (safe_assertInLoopThread ht) fun _ _ => safe_ok _
    · exact safe_ok _
  | handleEvent t c revents => exact safe_bind (safe_lift _) fun _ _ => safe_ok _
  | callback t transfer =>
    refine safe_bind (safe_lift _) fun ⟨c, callback⟩ hhead => safe_bind (safe_lift _) fun o ho => ?_
    have hhead := deref_eq_ok.mp (lift_eq_ok.mp hhead)
    obtain ⟨o', ho', hloop⟩ := h.active t _ (List.mem_of_mem_head? (Option.mem_def.mpr hhead))
    obtain rfl := Option.some.inj (ho'.symm.trans (deref_eq_ok.mp (lift_eq_ok.mp ho)))
    exact safe_bind (runCallback_safe hloop transfer callback) fun _ _ => hdone perform_safe
  | doPendingFunctors t => exact safe_ok _
  | functor t write =>
    refine safe_bind (safe_lift _) fun f hf => hdone (runFunctor_safe ?_)
    have hf := List.mem_of_mem_head? (Option.mem_def.mpr (deref_eq_ok.mp (lift_eq_ok.mp hf)))
    exact (h.queued t f (List.mem_append_left _ hf)).mono rfl fun c o ho => ⟨o, ho, rfl⟩
  | send t c data write =>
    refine safe_bind (safe_lift _) fun o ho => ?_
    split
    · next ht =>
      split
      · exact hdone (call_safe ⟨o, deref_eq_ok.mp (lift_eq_ok.mp ho), ht.symm⟩)
      · exact safe_ok _
    · exact safe_ok _
  | shutdown t c =>
    refine safe_bind (safe_lift _) fun o ho => ?_
    split
    · exact hdone perform_safe
    · exact safe_ok _
  | storeShutdown c => exact safe_bind (safe_lift _) fun _ _ => safe_ok _

/-! ### Accepting -/

/-- The pool, if there is one: started by the server's thread, on threads of its own. -/
structure Pooled (loop : T) (pool : EventLoopThreadPool T) : Prop where
  baseLoop : pool.baseLoop = loop
  started : pool.started = true
  own : loop ∉ pool.loops
  next : pool.loops ≠ [] → pool.next < pool.loops.length

theorem start_pooled {loop : T} {n : Nat} {startLoop : Nat → T} {pool : EventLoopThreadPool T}
    (hown : ∀ i, startLoop i ≠ loop)
    (h : ((EventLoopThreadPool.new loop).setThreadNum n).start build loop startLoop = .ok pool) :
    Pooled loop pool ∧ (pool.loops = [] ↔ n = 0) := by
  obtain ⟨_, -, h⟩ := bind_eq_ok.mp h
  obtain ⟨_, -, h⟩ := bind_eq_ok.mp h
  cases h
  have hloops : [] ++ (List.range (n : Int).toNat).map startLoop = (List.range n).map startLoop := by
    rw [List.nil_append, Int.toNat_natCast]
  refine ⟨⟨rfl, rfl, fun hmem => ?_, fun hne => ?_⟩, ?_⟩
  · obtain ⟨i, -, hi⟩ := List.mem_map.mp (hloops ▸ hmem)
    exact hown i hi
  · exact List.length_pos_iff.mpr hne
  · show [] ++ (List.range (n : Int).toNat).map startLoop = [] ↔ n = 0
    rw [hloops, List.map_eq_nil_iff, List.range_eq_nil]

theorem getNextLoop_base {loop : T} {pool : EventLoopThreadPool T} (h : Pooled loop pool)
    (hnil : pool.loops = []) : pool.getNextLoop build loop = .ok (loop, pool) := by
  have hstarted : build.assert (pool.started = true) = .ok () := by
    rw [Build.assert, if_pos (.inr h.started)]
  rw [EventLoopThreadPool.getNextLoop, h.baseLoop, assertInLoopThread, if_pos rfl, pure_eq_ok,
    ok_bind, hstarted, hnil]
  rfl

/-- A pool that has loops gives one of them. -/
theorem getNextLoop_own (build : Build) {loop : T} {pool : EventLoopThreadPool T} (h : Pooled loop pool)
    (hne : pool.loops ≠ []) :
    ∃ ioLoop pool', pool.getNextLoop build loop = .ok (ioLoop, pool') ∧ ioLoop ≠ loop := by
  have hstarted : build.assert (pool.started = true) = .ok () := by
    rw [Build.assert, if_pos (.inr h.started)]
  obtain ⟨ioLoop, hget⟩ : ∃ ioLoop, pool.loops[pool.next]? = some ioLoop :=
    ⟨_, List.getElem?_eq_getElem (h.next hne)⟩
  refine ⟨ioLoop, { pool with
    next := if pool.loops.length ≤ pool.next + 1 then 0 else pool.next + 1 }, ?_, fun heq => ?_⟩
  · have hpick : (!pool.loops.isEmpty) = true := by simpa using hne
    rw [EventLoopThreadPool.getNextLoop, h.baseLoop, assertInLoopThread, if_pos rfl, pure_eq_ok,
      ok_bind, hstarted, hget, if_pos hpick]
    rfl
  · exact h.own (heq ▸ List.mem_of_getElem? hget)

/-- What an accept comes to: no pool, a loop of the pool's, or the server's. -/
theorem accept_cases (build : Build) (h : Affine s) (hpool : ∀ pool, s.threadPool = some pool → Pooled s.loop pool)
    (sockfd : Nat) :
    s.threadPool = none ∧ step build s (.accept sockfd) = .error .null ∨
    (∃ pool, s.threadPool = some pool ∧ pool.loops ≠ [] ∧
      step build s (.accept sockfd) = .error .notInLoopThread) ∨
    ∃ pool, s.threadPool = some pool ∧ pool.loops = [] ∧ Safe (step build s (.accept sockfd)) ∧
      ∀ s', step build s (.accept sockfd) = .ok ((), s') → Onward s s' := by
  have hserver : assertInLoopThread s.loop s.loop = .ok () := if_pos rfl
  simp only [step, newConnection, hserver, ok_bind]
  cases hp : s.threadPool with
  | none => exact .inl ⟨rfl, rfl⟩
  | some pool =>
    right
    by_cases hne : pool.loops = []
    · refine .inr ⟨pool, rfl, hne, ?_, fun s' hs => ?_⟩
      · simp only [getNextLoop_base (hpool pool hp) hne, ok_bind, hserver]
        exact safe_bind (safe_bind (safe_lift _) fun _ _ => perform_safe) fun _ _ => safe_ok _
      · simp only [getNextLoop_base (hpool pool hp) hne, ok_bind, hserver] at hs
        obtain ⟨s₁, hs₁, hs⟩ := bind_eq_ok.mp hs
        obtain ⟨r, -, hs₁⟩ := bind_eq_ok.mp hs₁
        cases hs
        obtain ⟨haffine, hloop, hsame⟩ :=
          perform_onward (h.made pool _) (Function.update_self ..) hs₁
        exact ⟨haffine, hloop, hsame.trans hp.symm⟩
    · obtain ⟨ioLoop, pool', hget, hother⟩ := getNextLoop_own build (hpool pool hp) hne
      refine .inl ⟨pool, rfl, hne, ?_⟩
      simp only [hget, ok_bind, assertInLoopThread, if_neg (Ne.symm hother)]
      rfl

/-! ### Every run -/

theorem accept_safe_iff (h : Affine s)
    (hpool : ∀ pool, s.threadPool = some pool → Pooled s.loop pool) (sockfd : Nat) :
    Safe (step build s (.accept sockfd)) ↔ ∃ pool, s.threadPool = some pool ∧ pool.loops = [] := by
  rcases accept_cases build h hpool sockfd with
    ⟨hp, hs⟩ | ⟨pool, hp, hne, hs⟩ | ⟨pool, hp, hnil, hs, -⟩
  · refine iff_of_false (fun hsafe => ?_) fun ⟨pool, hp', _⟩ => ?_
    · obtain ⟨fault, hfault⟩ := hsafe _ hs
      cases hfault
    · rw [hp] at hp'
      cases hp'
  · refine iff_of_false (fun hsafe => ?_) fun ⟨pool', hp', hnil⟩ => ?_
    · obtain ⟨fault, hfault⟩ := hsafe _ hs
      cases hfault
    · rw [hp] at hp'
      cases hp'
      exact hne hnil
  · exact iff_of_true hs ⟨pool, hp, hnil⟩

/-- In a run every function is where it belongs, and the pool is as it was: no accept gets past
another loop. -/
theorem run_onward {loop : T} {p : Option (EventLoopThreadPool T)}
    (hpool : ∀ pool, p = some pool → Pooled loop pool) {tr : List (Action T × Unit)}
    (h : (machine build T).Run { new loop with threadPool := p } tr s) :
    Affine s ∧ s.loop = loop ∧ s.threadPool = p := by
  refine h.preserves (I := fun s => Affine s ∧ s.loop = loop ∧ s.threadPool = p) ?_
    ⟨affine_new loop p, rfl, rfl⟩
  rintro s l ⟨⟩ s' ⟨haffine, rfl, rfl⟩ hm hs
  by_cases hl : ∃ sockfd, l = .accept sockfd
  · obtain ⟨sockfd, rfl⟩ := hl
    rcases accept_cases build haffine hpool sockfd with ⟨-, hs'⟩ | ⟨pool, -, -, hs'⟩ | ⟨pool, -, -, -, hnext⟩
    · cases hs.symm.trans hs'
    · cases hs.symm.trans hs'
    · obtain ⟨haffine', hloop, hsame⟩ := hnext s' hs
      exact ⟨haffine', hloop, hsame⟩
  · obtain ⟨haffine', hloop, hsame⟩ := step_onward haffine hm (fun sockfd heq => hl ⟨sockfd, heq⟩) hs
    exact ⟨haffine', hloop, hsame⟩

/-- Whether a next step aborts, from what it is and what the pool has. -/
theorem safe_iff {loop : T} {p : Option (EventLoopThreadPool T)}
    (hpool : ∀ pool, p = some pool → Pooled loop pool) {tr : List (Action T × Unit)}
    (h : (machine build T).Run { new loop with threadPool := p } tr s) (l : Action T) :
    Safe (step build s l) ↔
      ∀ sockfd, l = .accept sockfd → ∃ pool, p = some pool ∧ pool.loops = [] := by
  obtain ⟨haffine, rfl, rfl⟩ := run_onward hpool h
  by_cases hl : ∃ sockfd, l = .accept sockfd
  · obtain ⟨sockfd, rfl⟩ := hl
    rw [accept_safe_iff haffine hpool]
    exact ⟨fun hnil _ _ => hnil, fun hnil => hnil sockfd rfl⟩
  · exact iff_of_true (step_safe haffine fun sockfd heq => hl ⟨sockfd, heq⟩)
      fun sockfd heq => (hl ⟨sockfd, heq⟩).elim

/-- **A server as its constructor leaves it cannot accept a connection**: in every run all that
is queued or active on a loop belongs there, and the next step follows a null pointer or runs on
a wrong thread exactly if it is an accept. With a started pool of `n` threads in `threadPool_`
it would be so exactly for `n = 0`: `connectEstablished` is called on the server's thread. -/
theorem server_affinity (build : Build) (loop : T) :
    (∀ tr s, (machine build T).Run (new loop) tr s → Affine s ∧
      ∀ l, may s l → (Safe (step build s l) ↔ ∀ sockfd, l ≠ .accept sockfd)) ∧
    ∀ (n : Nat) (startLoop : Nat → T), (∀ i, startLoop i ≠ loop) →
      ∀ pool, ((EventLoopThreadPool.new loop).setThreadNum n).start build loop startLoop = .ok pool →
      ∀ tr s, (machine build T).Run { new loop with threadPool := some pool } tr s → Affine s ∧
        ∀ l, may s l → (Safe (step build s l) ↔ ∀ sockfd, l = .accept sockfd → n = 0) := by
  constructor
  · intro tr s h
    have hpool (pool : EventLoopThreadPool T) (hp : none = some pool) : Pooled loop pool := by
      cases hp
    refine ⟨(run_onward hpool h).1, fun l _ => (safe_iff hpool h l).trans ?_⟩
    simp
  · intro n startLoop hown pool hstart tr s h
    obtain ⟨hpooled, hnil⟩ := start_pooled hown hstart
    have hpool (pool' : EventLoopThreadPool T) (hp : some pool = some pool') :
        Pooled loop pool' := Option.some.inj hp ▸ hpooled
    refine ⟨(run_onward hpool h).1, fun l _ => (safe_iff hpool h l).trans ?_⟩
    simp [hnil]

/-- Listening, with nobody connecting: nothing wrong so far, and no accept can come right. -/
theorem server_affinity_listening : ∃ tr s, (machine .debug Nat).Run (new 0) tr s ∧
    s.listenning = true ∧ Safe (step .debug s (.doPendingFunctors 0)) ∧
    ¬ Safe (step .debug s (.accept 5)) := by
  obtain ⟨tr, s, h, -, hlisten, hm⟩ := (machine .debug Nat).exists_run_of_replay (s := new 0)
    (P := fun _ s => s.listenning = true ∧ may s (.doPendingFunctors 0) ∧ may s (.accept 5))
    [.start 1, .doPendingFunctors 0, .functor 0 (.ok 0)] (by decide +kernel)
  obtain ⟨-, hsafe⟩ := (server_affinity .debug 0).1 tr s h
  refine ⟨tr, s, h, hlisten, (hsafe _ hm.1).mpr (by simp), fun hs => ?_⟩
  exact (hsafe _ hm.2).mp hs 5 rfl

/-- The first connection: the constructed server has no pool, and with a pool of one thread
`connectEstablished` runs on the server's. -/
theorem server_accept_aborts :
    (∃ tr s, (machine .debug Nat).Run (new 0) tr s ∧ tr.map Prod.fst = [.start 0] ∧
      may s (.accept 5) ∧ step .debug s (.accept 5) = .error .null) ∧
    ∃ pool, ((EventLoopThreadPool.new 0).setThreadNum 1).start .debug 0 (· + 1) = .ok pool ∧
      ∃ tr s, (machine .debug Nat).Run { new 0 with threadPool := some pool } tr s ∧
        tr.map Prod.fst = [.start 0] ∧ may s (.accept 5) ∧
        step .debug s (.accept 5) = .error .notInLoopThread := by
  have hstart (s : State Nat) : (machine .debug Nat).may s (.start 0) := trivial
  have haccept (s : State Nat) (hs : s.listenning = true ∧ s.dispatch s.loop = [] ∧
      s.batch s.loop = []) : may s (.accept 5) := hs
  refine ⟨?_, _, rfl, ?_⟩
  · exact ⟨_, _, .single (hstart _) rfl, rfl, haccept _ ⟨rfl, rfl, rfl⟩, rfl⟩
  · exact ⟨_, _, .single (hstart _) rfl, rfl, haccept _ ⟨rfl, rfl, rfl⟩, rfl⟩

end Leanet.TcpServer

import Leanet.Loop.EventLoop

/-! What wakes the loop.

`queueInLoop` writes the eventfd for every caller but the owner, and for the owner
only while `callingPendingFunctors_` is set. That is enough wherever the owner is
about to drain the queue by itself — in the channel callbacks, which the batch of the
same iteration follows — and inside a functor, where the flag is set
(`wakeup_pending`). Before `loop()` is entered, between two calls of it and while a
finished batch is destroyed it is not enough: the owner is headed for the poll and
leaves no token behind (`wakeup_lost`, `owner_push_strands`). -/
namespace Leanet.EventLoop

variable {F T : Type} [DecidableEq T] {threadId : T}

/-- On its own thread, `queueInLoop` is called from channel callbacks and from running
functors only. -/
def Prompt (threadId : T) (s : State F T) : Action F T → Prop
  | .queueInLoop t _ => t = threadId → s.point.isDispatching = true ∨ s.point.isBusy = true
  | _ => True

instance (threadId : T) (s : State F T) : (l : Action F T) → Decidable (Prompt threadId s l)
  | .queueInLoop _ _ => inferInstanceAs (Decidable (_ → _))
  | .notify _ | .quit _ | .quitNotify _ | .loop | .test | .poll | .handleRead
  | .doPendingFunctors | .swap | .run | .return | .finish | .leave =>
    inferInstanceAs (Decidable True)

/-- The owner swaps the queue out before it polls again. -/
def Point.drains : Point F → Bool
  | .dispatching _ | .swapping => true
  | _ => false

/-- A functor that waits will be met by the owner, by a token or by a token to come. -/
structure Awake (threadId : T) (s : State F T) : Prop where
  owner : s.call threadId = .pushed → s.point.isDispatching = true ∨ s.point.isBusy = true
  awake : s.pendingFunctors ≠ [] →
    s.point.drains = true ∨ 0 < s.wakeupFd ∨ ∃ t, s.call t = .pushed

omit [DecidableEq T] in
theorem awake_initial (threadId : T) : Awake threadId (initial : State F T) :=
  ⟨nofun, fun h => absurd rfl h⟩

omit [DecidableEq T] in
/-- An action of the owner that neither pushes nor reads the eventfd, on its way from
one point to another. -/
theorem Awake.move {s s' : State F T} (h : Awake threadId s) (howner : s.call threadId = .none)
    (hcall : s'.call = s.call) (hfd : s'.wakeupFd = s.wakeupFd)
    (hpending : s'.pendingFunctors = s.pendingFunctors)
    (hdrains : s.point.drains = true → s'.point.drains = true) : Awake threadId s' := by
  refine ⟨fun hp => ?_, fun hp => ?_⟩
  · rw [hcall, howner] at hp
    cases hp
  · rw [hpending] at hp
    rw [hcall, hfd]
    exact (h.awake hp).imp_left hdrains

/-- Leaving `queueInLoop` or `quit` with the eventfd written. -/
theorem Awake.written {s : State F T} (h : Awake threadId s) (t : T) :
    Awake threadId ({ s with call := Function.update s.call t .none } : State F T).wakeup := by
  refine ⟨fun hp => ?_, fun _ => .inr (.inl (wakeup_readable _))⟩
  by_cases ht : threadId = t
  · subst ht
    simp at hp
  · exact h.owner (by simpa [Function.update_of_ne ht] using hp)

/-- A thread that has pushed nothing enters or leaves a call. -/
theorem Awake.call {s s' : State F T} (h : Awake threadId s) {t : T} {c : Call}
    (ht : s.call t ≠ .pushed) (hc : c ≠ .pushed) (hcall : s'.call = Function.update s.call t c)
    (hpoint : s'.point = s.point) (hfd : s'.wakeupFd = s.wakeupFd)
    (hpending : s'.pendingFunctors = s.pendingFunctors) : Awake threadId s' := by
  refine ⟨fun hp => ?_, fun hp => ?_⟩
  · rw [hpoint]
    rw [hcall] at hp
    by_cases hu : threadId = t
    · subst hu
      rw [Function.update_self] at hp
      exact absurd hp hc
    · exact h.owner (by rwa [Function.update_of_ne hu] at hp)
  · rw [hpoint, hfd, hcall]
    refine (h.awake (hpending ▸ hp)).imp_right (Or.imp_right ?_)
    rintro ⟨u, hu⟩
    have hne : u ≠ t := fun heq => ht (heq ▸ hu)
    exact ⟨u, by rwa [Function.update_of_ne hne]⟩

theorem awake_step {s s' : State F T} {l : Action F T} {o : Option F} (hf : Flags s)
    (h : Awake threadId s) (hm : may threadId s l) (hc : Prompt threadId s l)
    (hs : step threadId s l = .ok (o, s')) : Awake threadId s' := by
  cases l with
  | queueInLoop t f =>
    cases hs
    refine ⟨fun hp => ?_, fun _ => .inr (.inr ⟨t, by simp⟩)⟩
    by_cases ht : t = threadId
    · exact hc ht
    · exact h.owner (by simpa [Function.update_of_ne (Ne.symm ht)] using hp)
  | notify t =>
    simp only [step] at hs
    split at hs
    · cases hs
      exact h.written t
    · next hquiet =>
      -- The owner, with the flag clear: it is in a channel callback, and drains.
      cases hs
      obtain ⟨rfl, hflag⟩ : t = threadId ∧ s.callingPendingFunctors = false := by
        simpa using hquiet
      have hbusy : s.point.isBusy ≠ true := by
        intro hb
        obtain ⟨rest, hrest⟩ := Point.isBusy_iff.mp hb
        have := hf.calling.mpr (.inr ⟨rest, true, hrest⟩)
        rw [hflag] at this
        cases this
      obtain ⟨wake, hw⟩ := Point.isDispatching_iff.mp ((h.owner hm).resolve_right hbusy)
      refine ⟨fun hp => by simp at hp, fun _ => .inl ?_⟩
      show s.point.drains = true
      rw [hw]
      rfl
  | quit t =>
    cases hs
    have hnone : s.call t = .none := hm.1
    exact h.call (by simp [hnone]) (by simp) rfl rfl rfl rfl
  | quitNotify t =>
    simp only [step] at hs
    split at hs
    · cases hs
      exact h.written t
    · cases hs
      have hquitting : s.call t = .quitting := hm
      exact h.call (by simp [hquitting]) (by simp) rfl rfl rfl rfl
  | loop =>
    obtain ⟨_, _, hs⟩ := bind_eq_ok.mp hs
    cases hs
    exact h.move hm.1 rfl rfl rfl (by simp [Point.drains, hm.2])
  | test =>
    simp only [step] at hs
    split at hs <;> cases hs <;> exact h.move hm.1 rfl rfl rfl (by simp [Point.drains, hm.2])
  | poll =>
    cases hs
    exact h.move hm.1 rfl rfl rfl (by simp [Point.drains])
  | handleRead =>
    -- The token is gone, but the queue is swapped out before the next poll.
    cases hs
    exact ⟨fun _ => .inl rfl, fun _ => .inl rfl⟩
  | doPendingFunctors =>
    cases hs
    exact h.move hm.1 rfl rfl rfl (by simp [Point.drains])
  | swap =>
    cases hs
    refine ⟨fun hp => ?_, fun hp => absurd rfl hp⟩
    have hnone : s.call threadId = .none := hm.1
    rw [show s.call threadId = .pushed from hp] at hnone
    cases hnone
  | run =>
    obtain ⟨f, rest, hp⟩ := Point.isReady_iff.mp hm.2
    simp only [step, hp] at hs
    cases hs
    exact h.move hm.1 rfl rfl rfl (by simp [Point.drains, hp])
  | «return» =>
    obtain ⟨rest, hp⟩ := Point.isBusy_iff.mp hm.2
    simp only [step, hp] at hs
    cases hs
    exact h.move hm.1 rfl rfl rfl (by simp [Point.drains, hp])
  | finish | leave =>
    cases hs
    exact h.move hm.1 rfl rfl rfl (by simp [Point.drains, hm.2])

theorem awake_inductive :
    ((machine F threadId).only (Prompt threadId)).Inductive fun s => Flags s ∧ Awake threadId s := by
  rintro s l ⟨hf, ha⟩ ⟨hm, hc⟩
  obtain ⟨o, t, hs, ht⟩ := flags_inductive s l hf hm
  exact ⟨o, t, hs, ht, awake_step hf ha hm hc hs⟩

/-- **No queued functor is left to the poll timeout**, as long as the owner queues from
channel callbacks and functors only: whenever it is about to block with functors
pending, the eventfd is readable or a thread past its push has still to write it. -/
theorem wakeup_pending {tr : List (Action F T × Option F)} {s : State F T}
    (h : ((machine F threadId).only (Prompt threadId)).Run initial tr s)
    (hpoll : s.point = .polling) (hpending : s.pendingFunctors ≠ []) :
    0 < s.wakeupFd ∨ ∃ t, s.call t = .pushed := by
  have hawake := (awake_inductive.run h ⟨flags_initial, awake_initial threadId⟩).2.awake hpending
  simpa [hpoll, Point.drains] using hawake

/-- A functor queued from another thread, and one queued from inside it. -/
theorem wakeup_pending_nested : ∃ tr s,
    ((machine Nat true).only (Prompt true)).Run initial tr s ∧ s.pendingFunctors = [2] ∧
    (0 < s.wakeupFd ∨ ∃ t, s.call t = .pushed) := by
  obtain ⟨tr, s, h, -, hpoll, hpending⟩ :=
    ((machine Nat true).only (Prompt true)).exists_run_of_replay (s := initial)
      (P := fun _ s => s.point = .polling ∧ s.pendingFunctors = [2])
      [.queueInLoop false 1, .notify false, .loop, .test, .poll, .handleRead, .doPendingFunctors,
        .swap, .run, .queueInLoop true 2, .notify true, .return, .finish, .leave, .test]
      (by decide +kernel)
  exact ⟨tr, s, h, hpending, wakeup_pending h hpoll (by rw [hpending]; decide)⟩

/-- A functor queued by the owner before `loop()`: the first poll blocks with it. -/
theorem wakeup_lost : ∃ tr s, (machine Nat true).Run initial tr s ∧
    tr.map Prod.fst = [.queueInLoop true 7, .notify true, .loop, .test] ∧
    s.point = .polling ∧ s.pendingFunctors = [7] ∧
    ¬ (0 < s.wakeupFd ∨ ∃ t, s.call t = .pushed) := by
  exact (machine Nat true).exists_run_of_replay (s := initial)
    (P := fun _ s => s.point = .polling ∧ s.pendingFunctors = [7] ∧
      ¬ (0 < s.wakeupFd ∨ ∃ t, s.call t = .pushed))
    [.queueInLoop true 7, .notify true, .loop, .test] (by decide +kernel)

/-- And so from every state in which nothing else wakes the loop: a functor the owner
queues outside `loop()`, or while a finished batch is destroyed, is stranded in the
next poll. -/
theorem owner_push_strands {s : State F T} (hf : Flags s) (howner : s.call threadId = .none)
    (hquiet : ∀ t, s.call t ≠ .pushed) (hfd : s.wakeupFd = 0)
    (hpoint : s.point = .outside ∨ s.point = .leaving ∧ s.quit = false) (f : F) :
    ∃ tr s', (machine F threadId).Run s tr s' ∧ s'.point = .polling ∧
      f ∈ s'.pendingFunctors ∧ ¬ (0 < s'.wakeupFd ∨ ∃ t, s'.call t = .pushed) := by
  have hcalling : s.callingPendingFunctors = false := by
    rw [← Bool.not_eq_true, hf.calling]
    rcases hpoint with hp | ⟨hp, _⟩ <;> simp [hp]
  have hclient : s.point.inClient = true := by
    rcases hpoint with hp | ⟨hp, _⟩ <;> rw [hp] <;> rfl
  -- The state once the owner has left `queueInLoop` without writing the eventfd.
  let queued : State F T := { s with
    pendingFunctors := s.pendingFunctors ++ [f]
    call := Function.update (Function.update s.call threadId .pushed) threadId .none }
  have hqueued : (machine F threadId).Run s
      [(.queueInLoop threadId f, none), (.notify threadId, none)] queued := by
    refine .cons ⟨howner, fun _ => hclient⟩ rfl (.single ?_ ?_)
    · exact Function.update_self ..
    · simp [machine, step, hcalling, queued]
  have hcall : queued.call threadId = .none := Function.update_self ..
  have hnone : ∀ t, queued.call t ≠ .pushed := by
    intro t
    by_cases ht : t = threadId
    · subst ht
      rw [hcall]
      decide
    · simpa [queued, Function.update_of_ne ht] using hquiet t
  have hlost : ¬ (0 < queued.wakeupFd ∨ ∃ t, queued.call t = .pushed) := by
    rintro (hpos | ⟨t, ht⟩)
    · exact absurd hpos (by simp [queued, hfd])
    · exact hnone t ht
  have hmem : f ∈ queued.pendingFunctors := by simp [queued]
  rcases hpoint with hp | ⟨hp, hquit⟩
  · have hlooping : queued.looping = false := by
      rw [← Bool.not_eq_true, show queued.looping = s.looping from rfl, hf.looping]
      simp [hp]
    let entered : State F T := { queued with looping := true, quit := false, point := .testing }
    have hloop : (machine F threadId).Run queued [(.loop, none), (.test, none)]
        { entered with point := .polling } := by
      refine .cons (t := entered) ⟨hcall, hp⟩ ?_ (.single ⟨hcall, rfl⟩ rfl)
      simp only [machine, step, assert_holds hlooping]
      rfl
    exact ⟨_, _, hqueued.append hloop, rfl, hmem, hlost⟩
  · have hleave : (machine F threadId).Run queued [(.leave, none), (.test, none)]
        { queued with point := .polling } := by
      refine .cons (t := { queued with point := .testing }) ⟨hcall, hp⟩ rfl
        (.single ⟨hcall, rfl⟩ ?_)
      simp [machine, step, queued, hquit]
    exact ⟨_, _, hqueued.append hleave, rfl, hmem, hlost⟩

end Leanet.EventLoop

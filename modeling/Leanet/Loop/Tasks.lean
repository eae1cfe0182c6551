import Leanet.Loop.EventLoop

/-! The task queue is a queue.

Producers push under the mutex at any time; the owner swaps the whole vector out and
runs it. `step_account` says what one step does to the functors that are still to
run, whoever takes it; over a run it becomes `tasks_in_order`: what has been run,
what is left of the batch and what is pending are together what was pushed, in push
order. A batch runs only what was there when it was swapped out (`batch_run`). -/
namespace Leanet.EventLoop

variable {F T : Type} [DecidableEq T] {threadId : T}

/-- The functor an action pushes. -/
def Action.pushes : Action F T → Option F
  | .queueInLoop _ f => some f
  | _ => none

/-- The functors pushed in a history, in push order. -/
def pushed (tr : List (Action F T × Option F)) : List F := tr.filterMap fun e => e.1.pushes

/-- The functors `doPendingFunctors` has started, in order. -/
def executed (tr : List (Action F T × Option F)) : List F := tr.filterMap Prod.snd

omit [DecidableEq T] in
theorem pushed_append (a b : List (Action F T × Option F)) :
    pushed (a ++ b) = pushed a ++ pushed b := List.filterMap_append

omit [DecidableEq T] in
theorem executed_append (a b : List (Action F T × Option F)) :
    executed (a ++ b) = executed a ++ executed b := List.filterMap_append

omit [DecidableEq T] in
theorem executed_single (l : Action F T) (o : Option F) : executed [(l, o)] = o.toList := by
  cases o <;> rfl

omit [DecidableEq T] in
theorem pushed_single (l : Action F T) (o : Option F) : pushed [(l, o)] = l.pushes.toList := by
  cases h : l.pushes <;> simp [pushed, h]

/-- What a step starts and leaves to run is what there was to run and what it pushes. -/
theorem step_account {s s' : State F T} {l : Action F T} {o : Option F}
    (hm : may threadId s l) (hs : step threadId s l = .ok (o, s')) :
    o.toList ++ s'.point.rest ++ s'.pendingFunctors =
      s.point.rest ++ s.pendingFunctors ++ l.pushes.toList := by
  cases l with
  | queueInLoop t f =>
    cases hs
    simp [Action.pushes]
  | notify t =>
    simp only [step] at hs
    split at hs <;> cases hs <;> simp [Action.pushes]
  | quit t =>
    cases hs
    simp [Action.pushes]
  | quitNotify t =>
    simp only [step] at hs
    split at hs <;> cases hs <;> simp [Action.pushes]
  | loop =>
    obtain ⟨_, _, hs⟩ := bind_eq_ok.mp hs
    cases hs
    simp [Point.rest, hm.2, Action.pushes]
  | test =>
    simp only [step] at hs
    split at hs <;> cases hs <;> simp [Point.rest, hm.2, Action.pushes]
  | poll | handleRead | swap | finish | leave =>
    cases hs
    simp [Point.rest, hm.2, Action.pushes]
  | doPendingFunctors =>
    obtain ⟨wake, hw⟩ := Point.isDispatching_iff.mp hm.2
    cases hs
    simp [Point.rest, hw, Action.pushes]
  | run =>
    obtain ⟨f, rest, hp⟩ := Point.isReady_iff.mp hm.2
    simp only [step, hp] at hs
    cases hs
    simp [Point.rest, hp, Action.pushes]
  | «return» =>
    obtain ⟨rest, hp⟩ := Point.isBusy_iff.mp hm.2
    simp only [step, hp] at hs
    cases hs
    simp [Point.rest, hp, Action.pushes]

/-- Over a run: nothing is lost, duplicated or reordered. -/
theorem run_account {tr : List (Action F T × Option F)} {s : State F T}
    (h : (machine F threadId).Run initial tr s) :
    executed tr ++ s.point.rest ++ s.pendingFunctors = pushed tr := by
  refine h.snoc_induction (P := fun tr s =>
    executed tr ++ s.point.rest ++ s.pendingFunctors = pushed tr) rfl ?_
  intro tr s l o s' _ ih hm hs
  have hstep := step_account hm hs
  rw [pushed_append, executed_append, executed_single, pushed_single, ← ih]
  simp only [List.append_assoc] at hstep ⊢
  rw [hstep]

/-- Until `finish` the owner stays in the batch. -/
theorem batch_step {s s' : State F T} {l : Action F T} {o : Option F} {rest : List F} {busy : Bool}
    (hp : s.point = .running rest busy) (hm : may threadId s l)
    (hs : step threadId s l = .ok (o, s')) (hl : l ≠ .finish) :
    ∃ rest' busy', s'.point = .running rest' busy' ∧ o.toList ++ rest' = rest := by
  cases l with
  | queueInLoop t f | quit t =>
    cases hs
    exact ⟨rest, busy, hp, rfl⟩
  | notify t | quitNotify t =>
    simp only [step] at hs
    split at hs <;> cases hs <;> exact ⟨rest, busy, hp, rfl⟩
  | finish => exact absurd rfl hl
  | doPendingFunctors =>
    obtain ⟨wake, hw⟩ := Point.isDispatching_iff.mp hm.2
    rw [hp] at hw
    cases hw
  | run =>
    obtain ⟨f, rest', hp'⟩ := Point.isReady_iff.mp hm.2
    simp only [step, hp'] at hs
    cases hs
    rw [hp] at hp'
    cases hp'
    exact ⟨rest', true, rfl, rfl⟩
  | «return» =>
    simp only [step, hp] at hs
    cases hs
    exact ⟨rest, false, rfl, rfl⟩
  | loop | test | poll | handleRead | swap | leave =>
    have hpoint := hm.2
    rw [hp] at hpoint
    cases hpoint

/-- What a batch runs comes off its own front. -/
theorem batch_run {tr : List (Action F T × Option F)} {s s' : State F T}
    (h : (machine F threadId).Run s tr s') {rest : List F} {busy : Bool}
    (hp : s.point = .running rest busy) (hfin : ∀ e ∈ tr, e.1 ≠ .finish) :
    ∃ rest' busy', s'.point = .running rest' busy' ∧ executed tr ++ rest' = rest := by
  induction h generalizing rest busy with
  | nil s => exact ⟨rest, busy, hp, rfl⟩
  | @cons s t u l o tr hm hs _ ih =>
    obtain ⟨rest₁, busy₁, hp₁, he₁⟩ := batch_step hp hm hs (hfin _ (List.mem_cons_self ..))
    obtain ⟨rest₂, busy₂, hp₂, he₂⟩ := ih hp₁ (fun e he => hfin e (List.mem_cons_of_mem _ he))
    refine ⟨rest₂, busy₂, hp₂, ?_⟩
    rw [← List.singleton_append, executed_append, executed_single, List.append_assoc, he₂, he₁]

/-- **The cross-thread task queue.** At every point of every interleaving the functors
started, then those left of the batch, then the pending ones, are the functors pushed,
in push order; so what has run is a prefix of what was pushed, position by position.
And what a functor of a batch pushes is beyond everything started before that batch
is over. -/
theorem tasks_in_order {tr : List (Action F T × Option F)} {s : State F T}
    (h : (machine F threadId).Run initial tr s) :
    executed tr ++ s.point.rest ++ s.pendingFunctors = pushed tr ∧
    executed tr <+: pushed tr ∧
    ∀ before f o during mid rest, tr = before ++ (.queueInLoop threadId f, o) :: during →
      (machine F threadId).Run initial before mid → mid.point = .running rest true →
      (machine F threadId).Run mid ((.queueInLoop threadId f, o) :: during) s →
      (∀ e ∈ during, e.1 ≠ .finish) → executed tr <+: pushed before := by
  have hall := run_account h
  refine ⟨hall, ?_, ?_⟩
  · rw [← hall, List.append_assoc]
    exact List.prefix_append _ _
  · rintro before f o during mid rest rfl hbefore hmid hrun hfin
    obtain ⟨rest', _, _, hrest⟩ := batch_run hrun hmid (by
      intro e he
      rcases List.mem_cons.mp he with rfl | he
      · exact fun hl => nomatch hl
      · exact hfin e he)
    have hsofar := run_account hbefore
    rw [hmid] at hsofar
    rw [executed_append, ← hsofar]
    refine ⟨rest' ++ mid.pendingFunctors, ?_⟩
    show executed before ++ executed _ ++ (rest' ++ mid.pendingFunctors) =
      executed before ++ rest ++ mid.pendingFunctors
    rw [← hrest]
    simp only [List.append_assoc]

/-- Another thread pushes 1, which pushes 2 while it runs: 2 waits for the next batch. -/
theorem tasks_in_order_nested : ∃ tr s, (machine Nat true).Run initial tr s ∧
    executed tr <+: pushed tr ∧ executed tr = [1] ∧ s.pendingFunctors = [2] := by
  obtain ⟨tr, s, h, -, hend⟩ := (machine Nat true).exists_run_of_replay (s := initial)
    (P := fun tr s => executed tr = [1] ∧ s.pendingFunctors = [2])
    [.queueInLoop false 1, .notify false, .loop, .test, .poll, .doPendingFunctors, .swap, .run,
      .queueInLoop true 2, .notify true, .return] (by decide +kernel)
  exact ⟨tr, s, h, (tasks_in_order h).2.1, hend⟩

end Leanet.EventLoop

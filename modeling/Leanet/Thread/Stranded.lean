import Leanet.Thread.ThreadPool

/-! Producers when the pool is stopped.

`stop` wakes the workers and not the producers, and the loop of `run` does not look at
`running_`: a producer that waits for room is let go on by a `take` only. After `stop` a worker
takes at most once more before it leaves, so there is a last `take`, and nobody lets a producer go
on after that. Two steps leave one behind: the last worker leaves while he waits, or he comes to a
full queue when all have left (`stop_strands_iff`). -/
namespace Leanet.ThreadPool

variable {T α : Type} {build : Build} {maxQueueSize : Nat}

/-- All workers but this one have returned from `runInThread`. -/
def State.LeftBut (s : State T α) (t : T) : Prop := ∀ u ∈ s.threads, u ≠ t → s.control u = .left

def State.AllLeft (s : State T α) : Prop := ∀ u ∈ s.threads, s.control u = .left

/-- A caller of `run` waits on `notFull_` and has not been woken. -/
def State.Blocked (s : State T α) : Prop := ∃ t task, s.phase t = .waiting (.run task) .notFull

/-- The pool has stopped and a producer is left behind. -/
def Stranded (s : State T α) : Prop := s.running = false ∧ s.AllLeft ∧ s.Blocked

/-- The steps that leave a producer behind: the last worker leaves while one waits, or one comes
to a full queue that nobody takes from. -/
def Strands (maxQueueSize : Nat) (s : State T α) : Act T α → Prop
  | .test t => s.running = false ∧ s.LeftBut t ∧ s.Blocked
  | .enter t => s.running = false ∧ s.AllLeft ∧ isFull maxQueueSize s.queue = true ∧
    ∃ task, s.phase t = .entering (.run task)
  | _ => False

/-- Workers leave after `stop`, and `run` waits only where there are workers. -/
structure Staffed (build : Build) (maxQueueSize : Nat) (s : State T α) : Prop where
  waits : (monitor α build maxQueueSize).Waits s.monitor
  stopped : ∀ t, s.control t = .left → s.running = false
  staffed : ∀ t task, (s.phase t).call = some (.run task) → s.threads ≠ []

variable [DecidableEq T] {s s' : State T α} {l : Act T α} {o : Option (Event α)}

@[simp] theorem setControl_self {t : T} {c : Control α} : (s.setControl t c).control t = c :=
  Function.update_self ..

theorem setControl_other {t u : T} {c : Control α} (h : u ≠ t) :
    (s.setControl t c).control u = s.control u :=
  Function.update_of_ne h ..

theorem staffed_initial {threads : List T} :
    Staffed build maxQueueSize (initial threads : State T α) := by
  refine ⟨Monitor.waits_outside, fun t ht => ?_, fun t task ht => by cases ht⟩
  simp only [initial] at ht
  split at ht <;> cases ht

theorem step_threads (hs : step build maxQueueSize s l = .ok (o, s')) : s'.threads = s.threads := by
  cases l with
  | call t c =>
    simp only [step] at hs
    split at hs <;> cases hs <;> rfl
  | enter t =>
    obtain ⟨_, -, hs⟩ := bind_eq_ok.mp hs
    cases hs
    rfl
  | wake t | finish t =>
    cases hs
    rfl
  | test t =>
    simp only [step] at hs
    split at hs <;> cases hs <;> rfl

omit [DecidableEq T] in
theorem Change.running {x y : Shared α} (h : Change maxQueueSize x o y) (hx : x.running = false) :
    y.running = false := by
  cases h with
  | stopped => rfl
  | quiet | ran | pushed | took | empty => exact hx

omit [DecidableEq T] in
theorem Control.left_of_after {c : Control α} {event : Option (Event α)} (h : c.after event = .left) :
    c = .left := by
  unfold Control.after at h
  split at h
  · cases h
  · cases h
  · exact h

/-- A worker has left, or leaves because `running_` is false. -/
theorem step_left (hs : step build maxQueueSize s l = .ok (o, s')) {u : T}
    (hu : s'.control u = .left) : s.control u = .left ∨ l = .test u ∧ s.running = false := by
  have hset {t : T} {c : Control α} (hc : c ≠ .left) (hu : (s.setControl t c).control u = .left) :
      s.control u = .left := by
    by_cases hut : u = t
    · subst hut
      exact absurd (setControl_self.symm.trans hu) hc
    · exact (setControl_other hut).symm.trans hu
  cases l with
  | call t c =>
    simp only [step] at hs
    split at hs <;> cases hs <;> exact .inl hu
  | enter t =>
    obtain ⟨⟨event, m'⟩, -, hs⟩ := bind_eq_ok.mp hs
    cases hs
    by_cases hut : u = t
    · subst hut
      exact .inl (Control.left_of_after (setControl_self.symm.trans hu))
    · exact .inl ((setControl_other hut).symm.trans hu)
  | wake t =>
    cases hs
    exact .inl hu
  | test t =>
    simp only [step] at hs
    split at hs
    · cases hs
      exact .inl (hset (by simp) hu)
    · next hrunning =>
      cases hs
      by_cases hut : u = t
      · subst hut
        exact .inr ⟨rfl, by simpa using hrunning⟩
      · exact .inl ((setControl_other hut).symm.trans hu)
  | finish t =>
    cases hs
    exact .inl (hset (by simp) hu)

theorem staffed_step (h : Staffed build maxQueueSize s) (hs : step build maxQueueSize s l = .ok (o, s')) :
    Staffed build maxQueueSize s' := by
  refine ⟨waits_step h.waits hs, fun t ht => (step_change hs).running ?_, fun t task hcall => ?_⟩
  · rcases step_left hs ht with ht | ⟨-, hstopped⟩
    · exact h.stopped t ht
    · exact hstopped
  · rw [step_threads hs]
    rcases step_run hs hcall with hcall | rfl
    · exact h.staffed t task hcall
    · intro hnone
      -- without workers the caller runs the task itself, and there is no call
      have hsame : s' = s := by
        simp only [step, Call.atOnce, hnone, List.isEmpty_nil, if_true] at hs
        cases hs
        rfl
      rw [hsame] at hcall
      exact h.staffed t task hcall hnone

/-! ### One step -/

omit [DecidableEq T] in
/-- Where all workers have left, `stop` has been called. -/
theorem Staffed.stopped_of_blocked (h : Staffed build maxQueueSize s) (hleft : s.AllLeft)
    (hblocked : s.Blocked) : s.running = false := by
  obtain ⟨t, task, ht⟩ := hblocked
  have hcall : (s.phase t).call = some (.run task) := by rw [ht, Monitor.Phase.call]
  obtain ⟨u, rest, hthreads⟩ := List.exists_cons_of_ne_nil (h.staffed t task hcall)
  exact h.stopped u (hleft u (hthreads ▸ List.mem_cons_self))

omit [DecidableEq T] in
/-- A `take` from a full queue wakes the producers. -/
theorem notFull_of_take {x : Shared α} (hfull : isFull maxQueueSize x.queue = true) :
    .notFull ∈ (take maxQueueSize x).2.2 := by
  simp only [isFull, Bool.and_eq_true, decide_eq_true_eq] at hfull
  obtain ⟨_ | ⟨task, rest⟩, running⟩ := x
  · exact absurd hfull.2 (Nat.not_le.mpr hfull.1)
  · rw [take, if_pos hfull.1]
    exact List.mem_singleton_self _

/-- Nobody leaves but by a test. -/
theorem allLeft_of_step (hs : step build maxQueueSize s l = .ok (o, s')) (hl : ∀ t, l ≠ .test t)
    (h : s'.AllLeft) : s.AllLeft := by
  intro u hu
  rcases step_left hs (h u (by rwa [step_threads hs])) with hleft | ⟨htest, -⟩
  · exact hleft
  · exact absurd htest (hl u)

omit [DecidableEq T] in
theorem not_stranded (h : s.running = true) : ¬ Stranded s := by
  rintro ⟨hstopped, -⟩
  exact Bool.noConfusion (h.symm.trans hstopped)

omit [DecidableEq T] in
/-- Before `stop` nobody is left behind. -/
theorem not_strands (h : s.running = true) : ¬ Strands maxQueueSize s l := by
  cases l with
  | test t | enter t =>
    rintro ⟨hstopped, -⟩
    exact Bool.noConfusion (h.symm.trans hstopped)
  | call | wake | finish => exact not_false

/-- The mutex leaves a producer behind only if it is a producer that has it. -/
theorem strands_enter {t : T} (h : Staffed build maxQueueSize s) (hfree : ¬ Stranded s)
    (hm : may s (.enter t)) (hs : step build maxQueueSize s (.enter t) = .ok (o, s')) :
    Stranded s' ↔ Strands maxQueueSize s (.enter t) := by
  obtain ⟨c, hc⟩ := hm
  have hback := allLeft_of_step hs (by simp)
  have hphase : s.monitor.phase t = .entering c := hc
  obtain ⟨⟨event, m'⟩, henter, hs⟩ := bind_eq_ok.mp hs
  cases hs
  simp only [Monitor.step, hphase] at henter
  rcases Monitor.enter_cases henter with ⟨k, hk, rfl, rfl⟩ | ⟨hwaits, a, shared, cs, hbody, rfl, rfl⟩
  · cases c with
    | run task =>
      obtain ⟨hfull, rfl⟩ := waits_run.mp hk
      constructor
      · rintro ⟨hstopped, hleft, -⟩
        exact ⟨hstopped, hback hleft, hfull, task, hc⟩
      · rintro ⟨hstopped, hleft, -, -⟩
        refine ⟨hstopped, fun u hu => ?_, t, task, Monitor.setPhase_self⟩
        by_cases hut : u = t
        · subst hut
          exact setControl_self.trans (hleft u hu)
        · exact (setControl_other hut).trans (hleft u hu)
    | take =>
      have hrunning : s.running = true := (waits_take.mp hk).1.2
      exact iff_of_false (not_stranded hrunning) (not_strands hrunning)
    | stop => cases hk
  · refine iff_of_false ?_ ?_
    · rintro ⟨hstopped, hleft, u, task, hu⟩
      -- who waits now has waited before, and this body does not let him go on
      obtain ⟨hwaited, hnot⟩ := Monitor.returned_waiting hu
      have hfull := (waits_run.mp (h.waits u _ _ hwaited)).1
      cases c with
      | run task' =>
        obtain ⟨-, -, hbody⟩ := bind_eq_ok.mp hbody
        cases hbody
        exact hfree ⟨hstopped, hback hleft, u, task, hwaited⟩
      | take =>
        have hcs : (take maxQueueSize s.monitor.shared).2.2 = cs :=
          congrArg (fun r => r.2.2) (Except.ok.inj hbody)
        exact hnot (hcs ▸ notFull_of_take hfull)
      | stop =>
        have hblocked : s.Blocked := ⟨u, task, hwaited⟩
        exact hfree ⟨h.stopped_of_blocked (hback hleft) hblocked, hback hleft, hblocked⟩
    · rintro ⟨-, -, hfull, task, htask⟩
      obtain rfl := Monitor.Phase.entering.inj (hc.symm.trans htask)
      cases hwaits.symm.trans (waits_run.mpr ⟨hfull, rfl⟩)

/-- A test leaves a producer behind if it is the last one. -/
theorem strands_test {t : T} (hs : step build maxQueueSize s (.test t) = .ok (o, s')) :
    Stranded s' ↔ Strands maxQueueSize s (.test t) := by
  simp only [step] at hs
  split at hs
  · next hrunning =>
    cases hs
    exact iff_of_false (not_stranded hrunning) (not_strands hrunning)
  · cases hs
    constructor
    · rintro ⟨hstopped, hleft, hblocked⟩
      exact ⟨hstopped, fun u hu hut => (setControl_other hut).symm.trans (hleft u hu), hblocked⟩
    · rintro ⟨hstopped, hleft, hblocked⟩
      refine ⟨hstopped, fun u hu => ?_, hblocked⟩
      by_cases hut : u = t
      · subst hut
        exact setControl_self
      · exact (setControl_other hut).trans (hleft u hu hut)

/-- Who is before the mutex does not wait; the others wait as before. -/
theorem blocked_of_setPhase {t : T} {p : Monitor.Phase (Call α) Condition}
    (hp : ∀ c k, p ≠ .waiting c k) (h : ∃ u task, (s.monitor.setPhase t p).phase u =
      .waiting (.run task) .notFull) : s.Blocked := by
  obtain ⟨u, task, hu⟩ := h
  by_cases hut : u = t
  · rw [hut, Monitor.setPhase_self] at hu
    exact absurd hu (hp _ _)
  · exact ⟨u, task, (Monitor.setPhase_other hut).symm.trans hu⟩

theorem stranded_iff_strands (h : Staffed build maxQueueSize s) (hfree : ¬ Stranded s) (hm : may s l)
    (hs : step build maxQueueSize s l = .ok (o, s')) : Stranded s' ↔ Strands maxQueueSize s l := by
  cases l with
  | call t c =>
    refine iff_of_false ?_ not_false
    rintro ⟨hstopped, hleft, hblocked⟩
    simp only [step] at hs
    split at hs
    · cases hs
      exact hfree ⟨hstopped, hleft, hblocked⟩
    · cases hs
      exact hfree ⟨hstopped, hleft, blocked_of_setPhase (by simp) hblocked⟩
  | enter t => exact strands_enter h hfree hm hs
  | wake t =>
    refine iff_of_false ?_ not_false
    rintro ⟨hstopped, hleft, hblocked⟩
    cases hs
    exact hfree ⟨hstopped, hleft,
      blocked_of_setPhase (fun _ _ => Monitor.Phase.wake_ne_waiting) hblocked⟩
  | test t => exact strands_test hs
  | finish t =>
    refine iff_of_false ?_ not_false
    rintro ⟨hstopped, hleft, hblocked⟩
    have hback := allLeft_of_step hs (by simp)
    cases hs
    exact hfree ⟨hstopped, hback hleft, hblocked⟩

/-- **`stop` strands no producer exactly if none waits when the last worker leaves and none comes
to a full queue after that.** -/
theorem stop_strands_iff {threads : List T} {tr : Trace T α}
    (h : (machine T α build maxQueueSize).Run (initial threads) tr s) :
    (∀ tr₁ tr₂ u, tr = tr₁ ++ tr₂ → (machine T α build maxQueueSize).Run (initial threads) tr₁ u →
      ¬ Stranded u) ↔
    ((machine T α build maxQueueSize).only fun s l => ¬ Strands maxQueueSize s l).Run
      (initial threads) tr s := by
  refine h.throughout_iff (I := Staffed build maxQueueSize) (P := fun s => ¬ Stranded s)
    staffed_initial (not_stranded rfl) ?_
  intro s l o s' hst hfree hm hs
  exact ⟨staffed_step hst hs, not_congr (stranded_iff_strands hst hfree hm hs)⟩

/-- The worker is at `take` when `stop` is called, and its last `take` makes room. -/
theorem stop_strands_iff_room : ∃ tr s, (machine (Fin 3) Nat .release 1).Run (initial [0]) tr s ∧
    tr.map Prod.fst = [.call 1 (.run (some 7)), .enter 1, .call 2 (.run (some 8)), .enter 2, .test 0,
      .call 1 .stop, .enter 1, .enter 0, .finish 0, .enter 2, .test 0] ∧
    ((∀ tr₁ tr₂ u, tr = tr₁ ++ tr₂ → (machine (Fin 3) Nat .release 1).Run (initial [0]) tr₁ u →
        ¬ Stranded u) ↔
      ((machine (Fin 3) Nat .release 1).only fun s l => ¬ Strands 1 s l).Run (initial [0]) tr s) := by
  obtain ⟨tr, s, h, hacts, -⟩ := (machine (Fin 3) Nat .release 1).exists_run_of_replay
    (s := initial [0]) (P := fun _ _ => True)
    [.call 1 (.run (some 7)), .enter 1, .call 2 (.run (some 8)), .enter 2, .test 0, .call 1 .stop,
      .enter 1, .enter 0, .finish 0, .enter 2, .test 0] (by decide +kernel)
  exact ⟨tr, s, h, hacts, stop_strands_iff h⟩

/-- The worker is at the test, and leaves with the queue full and a producer waiting. -/
theorem stop_strands : ∃ tr s, (machine (Fin 3) Nat .release 1).Run (initial [0]) tr s ∧
    tr.map Prod.fst = [.call 1 (.run (some 7)), .enter 1, .call 2 (.run (some 8)), .enter 2,
      .call 1 .stop, .enter 1, .test 0] ∧ Stranded s := by
  obtain ⟨tr, s, h, hacts, hthreads, hstopped, hleft, hwaits⟩ :=
    (machine (Fin 3) Nat .release 1).exists_run_of_replay (s := initial [0])
      (P := fun _ s => s.threads = [0] ∧ s.running = false ∧ s.control 0 = .left ∧
        s.phase 2 = .waiting (.run (some 8)) .notFull)
      [.call 1 (.run (some 7)), .enter 1, .call 2 (.run (some 8)), .enter 2, .call 1 .stop, .enter 1,
        .test 0] (by decide +kernel)
  refine ⟨tr, s, h, hacts, hstopped, fun u hu => ?_, 2, some 8, hwaits⟩
  rw [hthreads] at hu
  rw [List.mem_singleton.mp hu]
  exact hleft

end Leanet.ThreadPool

import Leanet.Foundation.Fault
import Leanet.Foundation.Monitor

/-! A pool of threads that take their tasks from one queue.

`run`, `take` and `stop` are calls of one monitor. Around it each worker goes through the
loop of `runInThread`, whose test of `running_` takes no lock, and any other thread, or a
task itself, calls `run` and `stop`. The machine begins when `start` has returned, so the
vector of threads stays as it is; a debug build does not come so far with a new pool, whose
vector `start` asserts not to be empty.

The queue is first in, first out over every run, it keeps to its bound, and no wakeup is
lost (`threadPool_protocol`). -/
namespace Leanet.ThreadPool

/-- `std::function<void ()>`; `none` is the empty one. -/
abbrev Task (α : Type) := Option α

inductive Condition where
  | notEmpty
  | notFull
  deriving DecidableEq, Repr

/-- What the mutex guards. -/
structure Shared (α : Type) where
  queue : List (Task α)
  running : Bool
  deriving DecidableEq, Repr

inductive Call (α : Type) where
  | run (task : Task α)
  | take
  | stop
  deriving DecidableEq, Repr

/-- What a call has done when it returns. -/
inductive Event (α : Type) where
  | ran (task : Task α)
  | pushed (task : Task α)
  | took (task : Task α)
  | stopped
  deriving DecidableEq, Repr

variable {T α : Type} [DecidableEq T] {build : Build} {maxQueueSize : Nat}

/-- `0` is no bound. -/
def isFull (maxQueueSize : Nat) (queue : List (Task α)) : Bool :=
  0 < maxQueueSize && maxQueueSize ≤ queue.length

def run (build : Build) (maxQueueSize : Nat) (s : Shared α) (task : Task α) :
    Except Fault (Event α × Shared α × List Condition) := do
  build.assert (!isFull maxQueueSize s.queue)
  pure (.pushed task, { s with queue := s.queue ++ [task] }, [.notEmpty])

def take (maxQueueSize : Nat) (s : Shared α) : Event α × Shared α × List Condition :=
  match s.queue with
  | [] => (.took none, s, [])
  | task :: rest =>
    (.took task, { s with queue := rest }, if 0 < maxQueueSize then [.notFull] else [])

def stop (s : Shared α) : Event α × Shared α × List Condition :=
  (.stopped, { s with running := false }, [.notEmpty])

def monitor (α : Type) (build : Build) (maxQueueSize : Nat) :
    Monitor (Shared α) (Call α) Condition (Event α) Fault where
  waits
    | .run _, s => if isFull maxQueueSize s.queue then some .notFull else none
    | .take, s => if s.queue.isEmpty && s.running then some .notEmpty else none
    | .stop, _ => none
  body
    | .run task, s => run build maxQueueSize s task
    | .take, s => pure (take maxQueueSize s)
    | .stop, s => pure (stop s)

/-! ### The threads -/

/-- Where a thread is: it is no worker, or a worker somewhere in `runInThread`. -/
inductive Control (α : Type) where
  | client
  | testing
  | taking
  | executing (task : α)
  | left
  deriving DecidableEq, Repr

structure State (T α : Type) where
  /-- `threads_`. -/
  threads : List T
  monitor : Monitor.State T (Shared α) (Call α) Condition
  control : T → Control α

/-- `stop` and `run` are called, a thread gets the mutex or wakes for no reason, a worker
tests `running_`, and its task returns. -/
inductive Act (T α : Type) where
  | call (t : T) (c : Call α)
  | enter (t : T)
  | wake (t : T)
  | test (t : T)
  | finish (t : T)
  deriving DecidableEq, Repr

def State.queue (s : State T α) : List (Task α) := s.monitor.shared.queue
def State.running (s : State T α) : Bool := s.monitor.shared.running
def State.phase (s : State T α) (t : T) : Monitor.Phase (Call α) Condition := s.monitor.phase t

def State.setControl (s : State T α) (t : T) (c : Control α) : State T α :=
  { s with control := Function.update s.control t c }

/-- Calls from outside: `take` is private, and the tasks are not empty. -/
def Call.Public : Call α → Prop
  | .run task => task ≠ none
  | .take => False
  | .stop => True

/-- Without threads `run` calls the task itself. -/
def Call.atOnce (threads : List T) : Call α → Option (Event α)
  | .run task => if threads.isEmpty then some (.ran task) else none
  | _ => none

/-- The worker goes on with what `take` returned. -/
def Control.after (c : Control α) : Option (Event α) → Control α
  | some (.took none) => .testing
  | some (.took (some task)) => .executing task
  | _ => c

def may (s : State T α) : Act T α → Prop
  | .call t c => s.phase t = .outside ∧ (s.control t = .client ∨ ∃ task, s.control t = .executing task) ∧
    c.Public
  | .enter t => ∃ c, s.phase t = .entering c
  | .wake t => ∃ c k, s.phase t = .waiting c k
  | .test t => s.control t = .testing
  | .finish t => s.phase t = .outside ∧ ∃ task, s.control t = .executing task

def step (build : Build) (maxQueueSize : Nat) (s : State T α) :
    Act T α → Except Fault (Option (Event α) × State T α)
  | .call t c =>
    match c.atOnce s.threads with
    | some event => pure (some event, s)
    | none => pure (none, { s with monitor := s.monitor.call t c })
  | .enter t => do
    let (event, monitor) ← (monitor α build maxQueueSize).step s.monitor (.enter t)
    pure (event, { s with monitor }.setControl t ((s.control t).after event))
  | .wake t => pure (none, { s with monitor := s.monitor.wake t })
  | .test t =>
    if s.running then pure (none, { s with monitor := s.monitor.call t .take }.setControl t .taking)
    else pure (none, s.setControl t .left)
  | .finish t => pure (none, s.setControl t .testing)

def machine (T α : Type) [DecidableEq T] (build : Build) (maxQueueSize : Nat) :
    Machine (State T α) (Act T α) (Option (Event α)) Fault where
  may := may
  step := step build maxQueueSize

/-- The pool as `start` leaves it with these threads. -/
def initial (threads : List T) : State T α where
  threads := threads
  monitor := ⟨⟨[], true⟩, fun _ => .outside⟩
  control t := if t ∈ threads then .testing else .client

/-! ### What comes in and what goes out -/

def Event.pushed? : Event α → Option (Task α)
  | .pushed task => some task
  | _ => none

def Event.taken? : Event α → Option (Task α)
  | .took (some task) => some (some task)
  | _ => none

abbrev Trace (T α : Type) := List (Act T α × Option (Event α))

/-- The tasks pushed. -/
def pushed (tr : Trace T α) : List (Task α) := tr.filterMap fun e => e.2.bind Event.pushed?

/-- The tasks returned by `take`. -/
def taken (tr : Trace T α) : List (Task α) := tr.filterMap fun e => e.2.bind Event.taken?

/-! ### What a step does to the queue -/

inductive Change (maxQueueSize : Nat) : Shared α → Option (Event α) → Shared α → Prop where
  | quiet (s : Shared α) : Change maxQueueSize s none s
  | ran (s : Shared α) (task : Task α) : Change maxQueueSize s (some (.ran task)) s
  | pushed (s : Shared α) (task : Task α) : isFull maxQueueSize s.queue = false →
      Change maxQueueSize s (some (.pushed task)) { s with queue := s.queue ++ [task] }
  | took (task : Task α) (rest : List (Task α)) (running : Bool) :
      Change maxQueueSize ⟨task :: rest, running⟩ (some (.took task)) ⟨rest, running⟩
  | empty : Change maxQueueSize (⟨[], false⟩ : Shared α) (some (.took none)) ⟨[], false⟩
  | stopped (s : Shared α) : Change maxQueueSize s (some .stopped) { s with running := false }

variable {s s' : State T α} {l : Act T α} {o : Option (Event α)}
  {m m' : Monitor.State T (Shared α) (Call α) Condition}

theorem body_change {c : Call α} {x y : Shared α} {event : Event α} {cs : List Condition}
    (hw : (monitor α build maxQueueSize).waits c x = none)
    (hb : (monitor α build maxQueueSize).body c x = .ok (event, y, cs)) :
    Change maxQueueSize x (some event) y := by
  cases c with
  | run task =>
    have hroom : isFull maxQueueSize x.queue = false := by simpa [monitor] using hw
    obtain ⟨_, -, h⟩ := bind_eq_ok.mp hb
    cases h
    exact .pushed x task hroom
  | take =>
    obtain ⟨_ | ⟨task, rest⟩, running⟩ := x
    · obtain rfl : running = false := by simpa [monitor] using hw
      cases hb
      exact .empty
    · cases hb
      exact .took task rest running
  | stop =>
    cases hb
    exact .stopped x

omit [DecidableEq T] in
theorem atOnce_ran {threads : List T} {c : Call α} {event : Event α}
    (h : c.atOnce threads = some event) : ∃ task, event = .ran task := by
  cases c with
  | run task =>
    rw [Call.atOnce] at h
    split at h
    · exact ⟨task, (Option.some.inj h).symm⟩
    · cases h
  | take => cases h
  | stop => cases h

theorem step_change (hs : step build maxQueueSize s l = .ok (o, s')) :
    Change maxQueueSize s.monitor.shared o s'.monitor.shared := by
  cases l with
  | call t c =>
    simp only [step] at hs
    split at hs
    · next event hevent =>
      cases hs
      obtain ⟨task, rfl⟩ := atOnce_ran hevent
      exact .ran _ _
    · cases hs
      exact .quiet _
  | enter t =>
    obtain ⟨⟨event, m'⟩, hm, h⟩ := bind_eq_ok.mp hs
    cases h
    rcases Monitor.step_shared hm with ⟨rfl, hsame⟩ | ⟨-, c, -, -, hw, event, cs, rfl, hb⟩
    · show Change _ _ _ m'.shared
      rw [hsame]
      exact .quiet _
    · exact body_change hw hb
  | wake t =>
    cases hs
    exact .quiet _
  | test t =>
    simp only [step] at hs
    split at hs <;> cases hs <;> exact .quiet _
  | finish t =>
    cases hs
    exact .quiet _

/-! ### The calls in progress -/

/-- A call of `run` in progress was in progress before, or has just been made. -/
theorem step_run (hs : step build maxQueueSize s l = .ok (o, s')) {u : T} {task : Task α}
    (h : (s'.phase u).call = some (.run task)) :
    (s.phase u).call = some (.run task) ∨ l = .call u (.run task) := by
  cases l with
  | call t c =>
    simp only [step] at hs
    split at hs
    · cases hs
      exact .inl h
    · cases hs
      by_cases hut : u = t
      · subst hut
        have hc : c = .run task := by simpa [State.phase, Monitor.State.call, Monitor.Phase.call] using h
        exact .inr (by rw [hc])
      · refine .inl ?_
        rwa [State.phase, Monitor.State.call, Monitor.setPhase_other hut] at h
  | enter t =>
    obtain ⟨⟨event, m'⟩, hm, heq⟩ := bind_eq_ok.mp hs
    cases heq
    simp only [Monitor.step] at hm
    split at hm
    · next c hc =>
      have hcall := Monitor.enter_call hc hm u
      change (m'.phase u).call = _ at h
      rw [h] at hcall
      split at hcall
      · cases hcall
      · exact .inl hcall.symm
    · cases hm
      exact .inl h
  | wake t =>
    cases hs
    exact .inl (by simpa [State.phase] using h)
  | test t =>
    simp only [step] at hs
    split at hs
    · cases hs
      by_cases hut : u = t
      · subst hut
        simp [State.phase, State.setControl, Monitor.State.call, Monitor.Phase.call] at h
      · refine .inl ?_
        rwa [State.phase, State.setControl, Monitor.State.call, Monitor.setPhase_other hut] at h
    · cases hs
      exact .inl h
  | finish t =>
    cases hs
    exact .inl h

/-- A task is pushed by its call. -/
theorem step_pushed {task : Task α} (hs : step build maxQueueSize s l = .ok (some (.pushed task), s')) :
    ∃ t, (s.phase t).call = some (.run task) := by
  cases l with
  | call t c =>
    simp only [step] at hs
    split at hs
    · next event hevent =>
      cases hs
      obtain ⟨task', ⟨⟩⟩ := atOnce_ran hevent
    · cases hs
  | enter t =>
    obtain ⟨⟨event, m'⟩, hm, heq⟩ := bind_eq_ok.mp hs
    cases heq
    rcases Monitor.step_shared hm with ⟨⟨⟩, -⟩ | ⟨u, c, -, hc, -, event, cs, ⟨⟩, hb⟩
    refine ⟨u, ?_⟩
    cases c with
    | run task' =>
      obtain ⟨_, -, h⟩ := bind_eq_ok.mp hb
      obtain ⟨⟨⟩, -⟩ := Prod.mk.inj (Except.ok.inj h)
      rw [State.phase, hc]
      rfl
    | take =>
      simp only [monitor, take] at hb
      split at hb <;> cases hb
    | stop => cases hb
  | wake t => cases hs
  | test t =>
    simp only [step] at hs
    split at hs <;> cases hs
  | finish t => cases hs

/-- No empty task is on its way. -/
structure Filled (s : State T α) : Prop where
  queue : ∀ task ∈ s.queue, task ≠ none
  calls : ∀ t task, (s.phase t).call = some (.run task) → task ≠ none

theorem filled_step (h : Filled s) (hm : may s l) (hs : step build maxQueueSize s l = .ok (o, s')) :
    Filled s' := by
  refine ⟨?_, fun t task htask => ?_⟩
  · have hqueue := h.queue
    have hpushed : ∀ task, o = some (.pushed task) → task ≠ none := by
      rintro task rfl
      obtain ⟨t, ht⟩ := step_pushed hs
      exact h.calls t task ht
    have hchange := step_change hs
    unfold State.queue at hqueue ⊢
    generalize s.monitor.shared = x at hqueue hchange
    generalize s'.monitor.shared = y at hchange ⊢
    cases hchange with
    | quiet | ran | empty | stopped => exact hqueue
    | pushed _ task =>
      intro task' hmem
      rcases List.mem_append.mp hmem with hmem | hmem
      · exact hqueue task' hmem
      · rw [List.mem_singleton.mp hmem]
        exact hpushed task rfl
    | took task rest running => exact fun task' hmem => hqueue task' (List.mem_cons_of_mem task hmem)
  · rcases step_run hs htask with hcall | rfl
    · exact h.calls t task hcall
    · exact hm.2.2

/-! ### First in, first out -/

/-- One step of the queue: what was there and came in is there or went out, in order. -/
theorem Change.log {x y : Shared α} (h : Change maxQueueSize x o y)
    (hx : ∀ task ∈ x.queue, task ≠ none) :
    (o.bind Event.taken?).toList ++ y.queue = x.queue ++ (o.bind Event.pushed?).toList := by
  cases h with
  | quiet | ran | empty | stopped => simp [Event.taken?, Event.pushed?]
  | pushed _ task => rfl
  | took task rest running =>
    obtain ⟨a, rfl⟩ := Option.ne_none_iff_exists'.mp (hx task List.mem_cons_self)
    simp [Event.taken?, Event.pushed?]

theorem Change.bounded {x y : Shared α} (h : Change maxQueueSize x o y)
    (hx : 0 < maxQueueSize → x.queue.length ≤ maxQueueSize) (hmax : 0 < maxQueueSize) :
    y.queue.length ≤ maxQueueSize := by
  have := hx hmax
  cases h with
  | quiet | ran | empty | stopped => exact this
  | pushed _ task hroom =>
    have hlt : x.queue.length < maxQueueSize := by simpa [isFull, hmax] using hroom
    simpa using Nat.succ_le_of_lt hlt
  | took task rest running => exact Nat.le_of_succ_le this

theorem Change.took_none {x y : Shared α} (h : Change maxQueueSize x (some (.took none)) y)
    (hx : ∀ task ∈ x.queue, task ≠ none) : x.running = false := by
  cases h with
  | took task rest running => exact absurd rfl (hx none List.mem_cons_self)
  | empty => rfl

/-- The body of a call answers: the assertion of `run` says what its loop has tested. -/
theorem body_ok {c : Call α} {x : Shared α} (hw : (monitor α build maxQueueSize).waits c x = none) :
    ∃ r, (monitor α build maxQueueSize).body c x = .ok r := by
  cases c with
  | run task =>
    have hroom : (!isFull maxQueueSize x.queue) = true := by simpa [monitor] using hw
    have hassert : build.assert ((!isFull maxQueueSize x.queue) = true) = .ok () := by
      rw [Build.assert, if_pos (.inr hroom)]
    refine ⟨(.pushed task, { x with queue := x.queue ++ [task] }, [.notEmpty]), ?_⟩
    show run build maxQueueSize x task = _
    rw [run, hassert]
    rfl
  | take => exact ⟨_, rfl⟩
  | stop => exact ⟨_, rfl⟩

theorem step_ok (s : State T α) (l : Act T α) :
    ∃ o s', step build maxQueueSize s l = .ok (o, s') := by
  cases l with
  | call t c =>
    simp only [step]
    split <;> exact ⟨_, _, rfl⟩
  | enter t =>
    obtain ⟨event, m', hm⟩ := Monitor.step_ok (m := monitor α build maxQueueSize)
      (fun _ _ hw => body_ok hw) s.monitor (.enter t)
    simp only [step, hm, ok_bind]
    exact ⟨_, _, rfl⟩
  | wake t => exact ⟨_, _, rfl⟩
  | test t =>
    simp only [step]
    split <;> exact ⟨_, _, rfl⟩
  | finish t => exact ⟨_, _, rfl⟩

/-! ### Wakeups -/

/-- A call of `run` waits for room, `take` for a task or for the end. -/
theorem waits_run {task : Task α} {x : Shared α} {k : Condition} :
    (monitor α build maxQueueSize).waits (.run task) x = some k ↔
      isFull maxQueueSize x.queue = true ∧ k = .notFull := Monitor.waits_ite

theorem waits_take {x : Shared α} {k : Condition} :
    (monitor α build maxQueueSize).waits .take x = some k ↔
      (x.queue = [] ∧ x.running = true) ∧ k = .notEmpty := by
  show (if x.queue.isEmpty && x.running then some .notEmpty else none) = some k ↔ _
  rw [Monitor.waits_ite, Bool.and_eq_true, List.isEmpty_iff]

theorem isFull_append {queue : List (Task α)} (task : Task α)
    (h : isFull maxQueueSize queue = true) : isFull maxQueueSize (queue ++ [task]) = true := by
  simp only [isFull, Bool.and_eq_true, decide_eq_true_eq, List.length_append,
    List.length_singleton] at h ⊢
  omega

/-- Whoever changes what another waits for, wakes him. -/
theorem attentive : (monitor α build maxQueueSize).Attentive := by
  intro c x event y cs hb c' k hw hk
  cases c with
  | run task =>
    obtain ⟨_, -, h⟩ := bind_eq_ok.mp hb
    cases h
    cases c' with
    | run task' =>
      obtain ⟨hfull, rfl⟩ := waits_run.mp hw
      exact waits_run.mpr ⟨isFull_append task hfull, rfl⟩
    | take =>
      obtain ⟨-, rfl⟩ := waits_take.mp hw
      exact absurd List.mem_cons_self hk
    | stop => cases hw
  | take =>
    obtain ⟨_ | ⟨task, rest⟩, running⟩ := x
    · cases hb
      exact hw
    · cases hb
      cases c' with
      | run task' =>
        obtain ⟨hfull, rfl⟩ := waits_run.mp hw
        have hmax : 0 < maxQueueSize := by
          simp only [isFull, Bool.and_eq_true, decide_eq_true_eq] at hfull
          exact hfull.1
        rw [if_pos hmax] at hk
        exact absurd List.mem_cons_self hk
      | take =>
        obtain ⟨⟨hempty, -⟩, -⟩ := waits_take.mp hw
        cases hempty
      | stop => cases hw
  | stop =>
    cases hb
    cases c' with
    | run task' => exact hw
    | take =>
      obtain ⟨-, rfl⟩ := waits_take.mp hw
      exact absurd List.mem_cons_self hk
    | stop => cases hw

theorem waits_step (h : (monitor α build maxQueueSize).Waits s.monitor)
    (hs : step build maxQueueSize s l = .ok (o, s')) :
    (monitor α build maxQueueSize).Waits s'.monitor := by
  cases l with
  | call t c =>
    simp only [step] at hs
    split at hs
    · cases hs
      exact h
    · cases hs
      exact h.call
  | enter t =>
    obtain ⟨⟨event, m'⟩, hm, heq⟩ := bind_eq_ok.mp hs
    cases heq
    exact h.step attentive hm
  | wake t =>
    cases hs
    exact h.wake
  | test t =>
    simp only [step] at hs
    split at hs
    · cases hs
      exact h.call
    · cases hs
      exact h
  | finish t =>
    cases hs
    exact h

/-! ### Every run -/

/-- What holds after every run. -/
structure Kept (build : Build) (maxQueueSize : Nat) (tr : Trace T α) (s : State T α) : Prop where
  fifo : taken tr ++ s.queue = pushed tr
  bounded : 0 < maxQueueSize → s.queue.length ≤ maxQueueSize
  filled : Filled s
  waits : (monitor α build maxQueueSize).Waits s.monitor

theorem kept_run {threads : List T} {tr : Trace T α}
    (h : (machine T α build maxQueueSize).Run (initial threads) tr s) :
    Kept build maxQueueSize tr s := by
  refine h.snoc_induction (P := Kept build maxQueueSize) ?_ fun tr s l o s' _ ih hm hs => ?_
  · refine ⟨rfl, fun _ => Nat.zero_le _, ⟨fun _ h => (List.not_mem_nil h).elim, ?_⟩,
      Monitor.waits_outside⟩
    intro t task h
    cases h
  · have hchange := step_change hs
    refine ⟨?_, hchange.bounded ih.bounded, filled_step ih.filled hm hs, waits_step ih.waits hs⟩
    have hlog := hchange.log ih.filled.queue
    have htaken : taken (tr ++ [(l, o)]) = taken tr ++ (o.bind Event.taken?).toList := by
      cases h : o.bind Event.taken? <;> simp [taken, h]
    have hpushed : pushed (tr ++ [(l, o)]) = pushed tr ++ (o.bind Event.pushed?).toList := by
      cases h : o.bind Event.pushed? <;> simp [pushed, h]
    rw [htaken, hpushed, ← ih.fifo, List.append_assoc, List.append_assoc]
    exact congrArg _ hlog

/-- **The queue of the pool**: tasks are taken in the order they were pushed, the bound and
the assertion hold, `take` comes back with nothing only at the end, and who waits without
having been woken has a reason to. -/
theorem threadPool_protocol {threads : List T} {tr : Trace T α}
    (h : (machine T α build maxQueueSize).Run (initial threads) tr s) :
    taken tr ++ s.queue = pushed tr ∧
    (0 < maxQueueSize → s.queue.length ≤ maxQueueSize) ∧
    (∀ l, may s l → ∃ o s', step build maxQueueSize s l = .ok (o, s') ∧
      (o = some (.took none) → s.running = false)) ∧
    (∀ t c, s.phase t = .waiting c .notEmpty → s.queue = [] ∧ s.running = true) ∧
    ∀ t c, s.phase t = .waiting c .notFull → isFull maxQueueSize s.queue = true := by
  have hkept := kept_run h
  refine ⟨hkept.fifo, hkept.bounded, fun l _ => ?_, fun t c hc => ?_, fun t c hc => ?_⟩
  · obtain ⟨o, s', hs⟩ : ∃ o s', step build maxQueueSize s l = .ok (o, s') := step_ok s l
    refine ⟨o, s', hs, ?_⟩
    rintro rfl
    exact (step_change hs).took_none hkept.filled.queue
  · have hw := hkept.waits t c _ hc
    cases c with
    | run task => cases (waits_run.mp hw).2
    | take => exact (waits_take.mp hw).1
    | stop => cases hw
  · have hw := hkept.waits t c _ hc
    cases c with
    | run task => exact (waits_run.mp hw).1
    | take => cases (waits_take.mp hw).2
    | stop => cases hw

instance : (c : Control α) → Decidable (∃ task, c = .executing task)
  | .executing task => isTrue ⟨task, rfl⟩
  | .client | .testing | .taking | .left => isFalse (by simp)

instance [DecidableEq α] : (c : Call α) → Decidable c.Public
  | .run task => inferInstanceAs (Decidable (task ≠ none))
  | .take => isFalse id
  | .stop => isTrue trivial

instance [DecidableEq α] (s : State T α) : (l : Act T α) → Decidable (may s l)
  | .call _ _ | .finish _ => inferInstanceAs (Decidable (_ ∧ _))
  | .enter t => inferInstanceAs (Decidable (∃ c, s.phase t = .entering c))
  | .wake t => inferInstanceAs (Decidable (∃ c k, s.phase t = .waiting c k))
  | .test t => inferInstanceAs (Decidable (s.control t = .testing))

instance [DecidableEq α] (s : State T α) (l : Act T α) :
    Decidable ((machine T α build maxQueueSize).may s l) := inferInstanceAs (Decidable (may s l))

/-- One worker and two producers, the second of which waits for room. -/
theorem threadPool_protocol_full : ∃ tr s,
    (machine (Fin 3) Nat .release 1).Run (initial [0]) tr s ∧
      tr.map Prod.fst = [.call 1 (.run (some 7)), .enter 1, .call 2 (.run (some 8)), .enter 2, .test 0,
        .enter 0, .enter 2, .call 1 .stop, .enter 1] ∧
      taken tr ++ s.queue = pushed tr := by
  obtain ⟨tr, s, h, hacts, -⟩ := (machine (Fin 3) Nat .release 1).exists_run_of_replay
    (s := initial [0]) (P := fun _ _ => True)
    [.call 1 (.run (some 7)), .enter 1, .call 2 (.run (some 8)), .enter 2, .test 0,
      .enter 0, .enter 2, .call 1 .stop, .enter 1] (by decide +kernel)
  exact ⟨tr, s, h, hacts, (threadPool_protocol h).1⟩

end Leanet.ThreadPool

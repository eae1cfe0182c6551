import Leanet.Foundation.Fault
import Leanet.Foundation.Monitor

/-! A latch, and the thread that opens one.

`wait` returns when `countDown` has been called as often as the latch was made for; a debug build
asks for exactly as often (`latch_opens`).

`Thread::start` creates a thread and waits at a latch, which the new thread opens once it knows
its own identity. The latch is inside the `Thread`, which may be destroyed as soon as `start` has
returned, while the new thread runs on: it has its function and name in a `ThreadData` of its own,
which it deletes itself, and the latch it has let go of by then (`thread_handshake`). -/
namespace Leanet

namespace CountdownLatch

inductive Call where
  | wait
  | countDown
  | getCount
  deriving DecidableEq, Repr

/-- What a call has done when it returns. -/
inductive Event where
  | waited
  | counted
  | got (count : Int)
  deriving DecidableEq, Repr

/-- What the mutex guards is `count_`, an `int` in the source and unbounded here: a latch that
`countDown` takes below the least `int` is left out. -/
def monitor (build : Build) : Monitor Int Call Unit Event Fault where
  waits
    | .wait, count => if 0 < count then some () else none
    | .countDown, _ | .getCount, _ => none
  body
    | .wait, count => do
      build.assert (count = 0)
      pure (.waited, count, [])
    | .countDown, count =>
      let count := count - 1
      pure (.counted, count, if count = 0 then [()] else [])
    | .getCount, count => pure (.got count, count, [])

abbrev State (T : Type) := Monitor.State T Int Call Unit

abbrev Trace (T : Type) := List (Monitor.Act T Call × Option Event)

/-- `CountdownLatch(count)`, no thread in a call. -/
def initial {T : Type} (count : Int) : State T := ⟨count, fun _ => .outside⟩

instance {T : Type} [DecidableEq T] (build : Build) (s : State T) :
    (l : Monitor.Act T Call) → Decidable (((monitor build).machine T).may s l)
  | .call t _ => inferInstanceAs (Decidable (s.phase t = .outside))
  | .enter t => inferInstanceAs (Decidable (∃ r, s.phase t = .entering r))
  | .wake t => inferInstanceAs (Decidable (∃ r c, s.phase t = .waiting r c))

/-- The calls of `countDown` that have returned. -/
def downs {T : Type} (tr : Trace T) : Nat := tr.countP fun e => e.2 = some .counted

variable {T : Type} [DecidableEq T] {build : Build} {count : Int} {s s' : State T}
  {l : Monitor.Act T Call} {o : Option Event} {t : T} {tr : Trace T}

theorem waits_wait {n : Int} {k : Unit} :
    (monitor build).waits .wait n = some k ↔ 0 < n ∧ k = () := Monitor.waits_ite

/-- Who counts down to zero wakes the waiters. -/
theorem attentive : (monitor build).Attentive := by
  intro c n event n' cs hb c' k hw hk
  cases c' with
  | countDown | getCount => cases hw
  | wait =>
    obtain ⟨hpos, -⟩ := waits_wait.mp hw
    cases c with
    | wait =>
      obtain ⟨_, -, hb⟩ := bind_eq_ok.mp hb
      cases hb
      exact hw
    | getCount =>
      cases hb
      exact hw
    | countDown =>
      cases hb
      refine waits_wait.mpr ⟨?_, rfl⟩
      by_contra hzero
      rw [if_pos (by omega)] at hk
      exact hk (List.mem_singleton_self _)

/-- A step changes the count when a `countDown` returns, and by one. -/
theorem step_count (hs : (monitor build).step s l = .ok (o, s')) :
    s'.shared = s.shared - if o = some .counted then 1 else 0 := by
  rcases Monitor.step_shared hs with ⟨rfl, hsame⟩ | ⟨t, c, -, -, hw, event, cs, rfl, hb⟩
  · rw [hsame, if_neg (by simp), Int.sub_zero]
  · generalize s'.shared = n at hb ⊢
    cases c with
    | wait =>
      obtain ⟨_, -, hb⟩ := bind_eq_ok.mp hb
      cases hb
      exact (Int.sub_zero _).symm
    | getCount =>
      cases hb
      exact (Int.sub_zero _).symm
    | countDown =>
      cases hb
      rfl

/-- A `wait` returns from a latch that is not shut. -/
theorem step_waited (hs : (monitor build).step s l = .ok (some .waited, s')) : s.shared ≤ 0 := by
  rcases Monitor.step_shared hs with ⟨h, -⟩ | ⟨t, c, -, -, hw, event, cs, he, hb⟩
  · cases h
  · cases he
    cases c with
    | wait =>
      by_contra hpos
      cases (waits_wait.mpr ⟨Int.not_le.mp hpos, rfl⟩).symm.trans hw
    | countDown | getCount => cases hb

omit [DecidableEq T] in
theorem downs_snoc : downs (tr ++ [(l, o)]) = downs tr + if o = some .counted then 1 else 0 := by
  simp [downs, List.countP_append]

theorem count_run (h : ((monitor build).machine T).Run (initial count) tr s) :
    s.shared = count - downs tr := by
  refine h.snoc_induction (P := fun tr s => s.shared = count - downs tr) (Int.sub_zero _).symm ?_
  intro tr s l o s' _ ih _ hs
  rw [downs_snoc, step_count hs, ih]
  split <;> omega

/-- At the mutex, with the latch open or not. -/
theorem enter_wait (hentering : s.phase t = .entering .wait) :
    (∃ s', (monitor build).step s (.enter t) = .ok (some .waited, s')) ↔
      s.shared ≤ 0 ∧ (build = .debug → s.shared = 0) := by
  simp only [Monitor.step, hentering, Monitor.enter, monitor]
  by_cases hpos : 0 < s.shared
  · rw [if_pos hpos]
    exact iff_of_false (by simp) fun h => absurd h.1 (Int.not_le.mpr hpos)
  · rw [if_neg hpos]
    cases build with
    | release => simp [Int.not_lt.mp hpos]
    | debug =>
      by_cases hzero : s.shared = 0
      · simp [Build.assert, hzero]
      · simp [Build.assert, hzero]

/-- **A latch opens at the last of its counts, for all who wait**: `wait` has returned only after
that many calls of `countDown`, nobody is left waiting then, and who comes later goes through; in
a debug build only if there was no call too many. -/
theorem latch_opens (h : ((monitor build).machine T).Run (initial count) tr s) :
    (∀ tr₁ l tr₂, tr = tr₁ ++ (l, some .waited) :: tr₂ → count ≤ downs tr₁) ∧
    (∀ t c, s.phase t = .waiting c () → downs tr < count) ∧
    ∀ t, s.phase t = .entering .wait →
      ((∃ s', (monitor build).step s (.enter t) = .ok (some .waited, s')) ↔
        count ≤ downs tr ∧ (build = .debug → downs tr = count)) := by
  have hcount := count_run h
  refine ⟨?_, fun t c hc => ?_, fun t hentering => ?_⟩
  · rintro tr₁ l tr₂ rfl
    obtain ⟨u, h₁, h₂⟩ := h.split
    cases h₂ with
    | cons hm hs _ =>
      have hopen := step_waited hs
      rw [count_run h₁] at hopen
      omega
  · have hw := Monitor.Waits.run (m := monitor build) Monitor.waits_outside attentive h t c () hc
    cases c with
    | wait =>
      obtain ⟨hpos, -⟩ := waits_wait.mp hw
      omega
    | countDown | getCount => cases hw
  · rw [enter_wait hentering, hcount]
    constructor
    · exact fun ⟨hle, hdebug⟩ => ⟨by omega, fun hb => by have := hdebug hb; omega⟩
    · exact fun ⟨hle, hdebug⟩ => ⟨by omega, fun hb => by have := hdebug hb; omega⟩

/-- Two threads wait, one of them before the last count. -/
theorem latch_opens_twice : ∃ tr s, ((monitor .debug).machine (Fin 3)).Run (initial 2) tr s ∧
    downs tr = 2 ∧ (∃ s', (monitor .debug).step s (.enter 1) = .ok (some .waited, s')) ∧
    ∃ s', (monitor .debug).step s (.enter 2) = .ok (some .waited, s') := by
  obtain ⟨tr, s, h, -, hdowns, hone, htwo⟩ := ((monitor .debug).machine (Fin 3)).exists_run_of_replay
    (s := initial 2) (P := fun tr s => downs tr = 2 ∧ s.phase 1 = .entering .wait ∧
      s.phase 2 = .entering .wait)
    [.call 0 .countDown, .call 1 .wait, .enter 1, .enter 0, .call 0 .countDown, .enter 0,
      .call 2 .wait] (by decide +kernel)
  obtain ⟨-, -, hopen⟩ := latch_opens h
  refine ⟨tr, s, h, hdowns, (hopen 1 hone).mpr ?_, (hopen 2 htwo).mpr ?_⟩ <;> simp [hdowns]

end CountdownLatch

namespace Thread
open CountdownLatch (Call Event)
open Monitor (Phase)

/-- Who is at the latch. -/
inductive Who where
  | owner
  | created
  deriving DecidableEq, Repr

/-- Where the new thread is in `thread_routine`. -/
inductive Routine where
  | absent
  | entering
  /-- In `platch->countDown()`: its identity and its name are set. -/
  | counting
  | counted
  /-- In `func()`. -/
  | running
  | finished
  /-- The data is deleted, and the routine returns. -/
  | returned
  deriving DecidableEq, Repr

/-- `func` has been called. -/
def Routine.ran : Routine → Bool
  | .running | .finished | .returned => true
  | .absent | .entering | .counting | .counted => false

/-- What has become of the `pthread_t`. -/
inductive Handle where
  | none
  | joinable
  | joined
  | detached
  deriving DecidableEq, Repr

structure State where
  /-- The `Thread` has not been destroyed. -/
  alive : Bool
  started : Bool
  joined : Bool
  latch : CountdownLatch.State Who
  /-- The `ThreadData` has been allocated and not been deleted. -/
  data : Bool
  routine : Routine
  handle : Handle

/-- What a pointer to an object leads to, which may have been deleted. -/
def object (live : Bool) : Except Fault Unit := deref (if live then some () else none)

inductive Action where
  /-- `start`, up to the mutex of the latch; pthread_create succeeds or fails. -/
  | start (created : Bool)
  /-- At the latch: a critical section, or a wakeup for no reason. -/
  | enter (who : Who)
  | wake
  | cacheTid
  | run
  | finish
  | deleteData
  | join
  | destruct
  deriving DecidableEq, Repr

def monitor := CountdownLatch.monitor .debug

/-- `start` is called once, on a thread that is there; `join` once after it, and it waits for the
routine to return; and nobody destroys what somebody is in. -/
def may (s : State) : Action → Prop
  | .start _ => s.alive = true ∧ s.started = false
  | .enter who => ∃ c, s.latch.phase who = .entering c
  | .wake => ∃ c k, s.latch.phase .owner = .waiting c k
  | .cacheTid => s.routine = .entering
  | .run => s.routine = .counted
  | .finish => s.routine = .running
  | .deleteData => s.routine = .finished
  | .join => s.alive = true ∧ s.started = true ∧ s.joined = false ∧
      s.latch.phase .owner = .outside ∧ s.routine = .returned
  | .destruct => s.alive = true ∧ s.latch.phase .owner = .outside

/-- pthread_join or pthread_detach, once. -/
def release (s : State) (handle : Handle) : Except Fault State := do
  object (s.handle == .joinable)
  pure { s with handle }

def start (s : State) (created : Bool) : Except Fault State := do
  assert (s.started = false)
  let s := { s with started := true, data := true }
  if created then
    pure { s with routine := .entering, handle := .joinable, latch := s.latch.call .owner .wait }
  else
    let s := { s with started := false }
    object s.data
    pure { s with data := false }

def join (s : State) : Except Fault State := release { s with joined := true } .joined

def destruct (s : State) : Except Fault State := do
  object s.alive
  let s ← if s.started ∧ !s.joined then release s .detached else pure s
  pure { s with alive := false }

/-- The latch is a member of the `Thread`. -/
def atLatch (s : State) (who : Who) : Except Fault State := do
  object s.alive
  let (event, latch) ← monitor.step s.latch (.enter who)
  pure { s with
    latch
    routine := if event = some .counted then .counted else s.routine }

def step (s : State) : Action → Except Fault (Unit × State)
  | .start created => do pure ((), ← start s created)
  | .enter who => do pure ((), ← atLatch s who)
  | .wake => pure ((), { s with latch := s.latch.wake .owner })
  | .cacheTid => do
    object s.data
    pure ((), { s with routine := .counting, latch := s.latch.call .created .countDown })
  | .run => do
    object s.data
    pure ((), { s with routine := .running })
  | .finish => pure ((), { s with routine := .finished })
  | .deleteData => do
    object s.data
    pure ((), { s with routine := .returned, data := false })
  | .join => do pure ((), ← join s)
  | .destruct => do pure ((), ← destruct s)

def machine : Machine State Action Unit Fault where
  may := may
  step := step

instance (s : State) : (l : Action) → Decidable (machine.may s l)
  | .start _ | .join | .destruct => inferInstanceAs (Decidable (_ ∧ _))
  | .enter who => inferInstanceAs (Decidable (∃ c, s.latch.phase who = .entering c))
  | .wake => inferInstanceAs (Decidable (∃ c k, s.latch.phase .owner = .waiting c k))
  | .cacheTid | .run | .finish | .deleteData => inferInstanceAs (Decidable (_ = _))

/-- `Thread(func, name)`. -/
def initial : State where
  alive := true
  started := false
  joined := false
  latch := CountdownLatch.initial 1
  data := false
  routine := .absent
  handle := .none

/-! ### The handshake -/

/-- The owner is in `start`. -/
def Starting (p : Phase Call Unit) : Prop := p = .entering .wait ∨ p = .waiting .wait ()

/-- Where both are, before the new thread opens the latch and after. -/
structure Together (s : State) : Prop where
  shut : s.routine = .entering ∨ s.routine = .counting →
    s.latch.shared = 1 ∧ Starting (s.latch.phase .owner) ∧
      s.latch.phase .created = if s.routine = .counting then .entering .countDown else .outside
  opened : s.routine ≠ .entering → s.routine ≠ .counting → s.latch.shared = 0 ∧
    (s.latch.phase .owner = .entering .wait ∨ s.latch.phase .owner = .outside) ∧
      s.latch.phase .created = .outside

/-- The invariant of a thread that has started. -/
structure Started (s : State) : Prop where
  together : Together s
  present : s.routine ≠ .absent
  alive : s.latch.phase .owner ≠ .outside → s.alive = true
  data : s.data = true ↔ s.routine ≠ .returned
  handle : s.handle = if s.joined then .joined else if s.alive then .joinable else .detached

/-- The invariant. -/
structure Sound (s : State) : Prop where
  fresh : s.started = false → ∃ alive, s = { initial with alive }
  started : s.started = true → Started s

theorem sound_initial : Sound initial := ⟨fun _ => ⟨true, rfl⟩, nofun⟩

variable {s t : State} {l : Action} {o : Unit} {latch : CountdownLatch.State Who} {who : Who}

@[simp] theorem object_true : object true = .ok () := rfl

/-! ### At the latch -/

/-- A `wait` at a latch that is shut. -/
theorem enter_shut (hentering : latch.phase who = .entering .wait) (hshut : 0 < latch.shared) :
    monitor.step latch (.enter who) = .ok (none, latch.setPhase who (.waiting .wait ())) := by
  simp only [Monitor.step, hentering, Monitor.enter]
  rw [show monitor.waits .wait latch.shared = some () from if_pos hshut]

/-- A `wait` at one that is open. -/
theorem enter_open (hentering : latch.phase who = .entering .wait) (hopen : latch.shared = 0) :
    monitor.step latch (.enter who) = .ok (some .waited, latch.returned who 0 []) := by
  simp only [Monitor.step, hentering, Monitor.enter]
  rw [hopen]
  rfl

/-- The last count. -/
theorem enter_last (hentering : latch.phase who = .entering .countDown) (hone : latch.shared = 1) :
    monitor.step latch (.enter who) = .ok (some .counted, latch.returned who 0 [()]) := by
  simp only [Monitor.step, hentering, Monitor.enter]
  rw [hone]
  rfl

theorem Started.enter_owner (h : Started s) (hm : may s (.enter .owner)) :
    ∃ t, atLatch s .owner = .ok t ∧ t.started = s.started ∧ t.routine.ran = s.routine.ran ∧
      Started t := by
  obtain ⟨c, hc⟩ := hm
  have halive : s.alive = true := h.alive (by simp [hc])
  by_cases hshut : s.routine = .entering ∨ s.routine = .counting
  · obtain ⟨hone, hstarting, hcreated⟩ := h.together.shut hshut
    have hc : s.latch.phase .owner = .entering .wait := by
      obtain hw | hw := hstarting
      · exact hw
      · cases hc.symm.trans hw
    refine ⟨{ s with latch := s.latch.setPhase .owner (.waiting .wait ()) }, ?_, rfl, rfl, ?_⟩
    · simp only [atLatch, halive, object_true, ok_bind, enter_shut hc (by omega), pure_eq_ok]
      rfl
    · refine ⟨⟨fun _ => ⟨hone, .inr Monitor.setPhase_self, ?_⟩, fun hne hnc => ?_⟩, h.present,
        fun _ => halive, h.data, h.handle⟩
      · rw [← hcreated]
        exact Monitor.setPhase_other (by simp)
      · exact absurd hshut (by simp [hne, hnc])
  · obtain ⟨hne, hnc⟩ := not_or.mp hshut
    obtain ⟨hzero, howner, hcreated⟩ := h.together.opened hne hnc
    have hc : s.latch.phase .owner = .entering .wait := by
      obtain hw | hw := howner
      · exact hw
      · cases hc.symm.trans hw
    refine ⟨{ s with latch := s.latch.returned .owner 0 [] }, ?_, rfl, rfl, ?_⟩
    · simp only [atLatch, halive, object_true, ok_bind, enter_open hc hzero, pure_eq_ok]
      rfl
    · refine ⟨⟨fun h => absurd h hshut, fun _ _ => ⟨rfl, .inr ?_, ?_⟩⟩, h.present, fun _ => halive,
        h.data, h.handle⟩
      · simp [Monitor.State.returned, Phase.wakeAll]
      · simp [Monitor.State.returned, Phase.wakeAll, hcreated]

theorem Started.enter_created (h : Started s) (hm : may s (.enter .created)) :
    ∃ t, atLatch s .created = .ok t ∧ t.started = s.started ∧ t.routine.ran = s.routine.ran ∧
      Started t := by
  obtain ⟨c, hc⟩ := hm
  have hcounting : s.routine = .counting := by
    by_contra hnc
    by_cases hne : s.routine = .entering
    · have := (h.together.shut (.inl hne)).2.2
      rw [if_neg hnc, hc] at this
      cases this
    · cases hc.symm.trans (h.together.opened hne hnc).2.2
  obtain ⟨hone, hstarting, hcreated⟩ := h.together.shut (.inr hcounting)
  rw [if_pos hcounting] at hcreated
  have halive : s.alive = true := h.alive (by obtain hw | hw := hstarting <;> simp [hw])
  refine ⟨{ s with latch := s.latch.returned .created 0 [()], routine := .counted }, ?_, rfl,
    by rw [hcounting]; rfl, ?_⟩
  · simp only [atLatch, halive, object_true, ok_bind, enter_last hcreated hone, pure_eq_ok]
    rfl
  · have hdata : s.data = true := h.data.mpr (by simp [hcounting])
    refine ⟨⟨by simp, fun _ _ => ⟨rfl, .inl ?_, ?_⟩⟩, by simp, fun _ => halive,
      by simp [hdata], h.handle⟩
    · obtain hw | hw := hstarting <;> simp [Monitor.State.returned, Phase.wakeAll, hw]
    · simp [Monitor.State.returned, Phase.wakeAll]

theorem Started.enter (h : Started s) (hm : may s (.enter who)) :
    ∃ t, atLatch s who = .ok t ∧ t.started = s.started ∧ t.routine.ran = s.routine.ran ∧
      Started t := by
  cases who with
  | owner => exact h.enter_owner hm
  | created => exact h.enter_created hm

/-! ### Every step -/

/-- The new thread goes on, with the latch behind it. -/
theorem Started.on (h : Started s) {routine : Routine} {data : Bool}
    (hbefore : s.routine ≠ .entering ∧ s.routine ≠ .counting)
    (hafter : routine ≠ .entering ∧ routine ≠ .counting) (hpresent : routine ≠ .absent)
    (hdata : data = true ↔ routine ≠ .returned) : Started { s with routine, data } := by
  refine ⟨⟨fun hshut => ?_, fun _ _ => h.together.opened hbefore.1 hbefore.2⟩, hpresent, h.alive,
    hdata, h.handle⟩
  obtain heq | heq := hshut
  · exact absurd heq hafter.1
  · exact absurd heq hafter.2

theorem Started.wake (h : Started s) (hm : may s .wake) :
    Started { s with latch := s.latch.wake .owner } := by
  obtain ⟨c, k, hc⟩ := hm
  have hshut : s.routine = .entering ∨ s.routine = .counting := by
    by_contra hopen
    obtain ⟨hne, hnc⟩ := not_or.mp hopen
    obtain hw | hw := (h.together.opened hne hnc).2.1 <;> cases hc.symm.trans hw
  obtain ⟨hone, hstarting, hcreated⟩ := h.together.shut hshut
  have hc : s.latch.phase .owner = .waiting .wait () := by
    obtain hw | hw := hstarting
    · cases hc.symm.trans hw
    · exact hw
  refine ⟨⟨fun _ => ⟨hone, .inl ?_, ?_⟩, fun hne hnc => absurd hshut (by simp [hne, hnc])⟩, h.present,
    fun _ => h.alive (by simp [hc]), h.data, h.handle⟩
  · simp [Monitor.State.wake, Phase.wake, hc]
  · rw [← hcreated]
    exact Monitor.setPhase_other (by simp)

theorem Started.cacheTid (h : Started s) (hm : s.routine = .entering) :
    Started { s with routine := .counting, latch := s.latch.call .created .countDown } := by
  obtain ⟨hone, hstarting, -⟩ := h.together.shut (.inl hm)
  have howner : (s.latch.call .created .countDown).phase .owner = s.latch.phase .owner :=
    Monitor.setPhase_other (by simp)
  refine ⟨⟨fun _ => ⟨hone, by rwa [howner], Monitor.setPhase_self⟩, fun _ hnc => absurd rfl hnc⟩,
    by simp, fun hne => h.alive (by rwa [howner] at hne), ?_, h.handle⟩
  simp [h.data.mpr (by simp [hm])]

theorem sound_start (h : Sound s) {created : Bool} (hm : may s (.start created)) :
    ∃ t, start s created = .ok t ∧ Sound t := by
  obtain ⟨halive, hstarted⟩ := hm
  obtain ⟨alive, rfl⟩ := h.fresh hstarted
  obtain rfl : alive = true := halive
  cases created with
  | false => exact ⟨initial, rfl, sound_initial⟩
  | true =>
    refine ⟨_, rfl, nofun, fun _ => ⟨⟨fun _ => ⟨rfl, .inl rfl, rfl⟩, fun hne => absurd rfl hne⟩, by simp,
      fun _ => rfl, by simp, rfl⟩⟩

theorem sound_join (h : Sound s) (hm : may s .join) : ∃ t, join s = .ok t ∧ Sound t := by
  obtain ⟨halive, hstarted, hjoined, howner, hreturned⟩ := hm
  have hs := h.started hstarted
  have hhandle : s.handle = .joinable := by
    rw [hs.handle, hjoined, halive]
    rfl
  refine ⟨{ s with joined := true, handle := .joined }, ?_, fun hf => ?_, fun _ => ?_⟩
  · simp only [join, release, hhandle]
    rfl
  · cases hstarted.symm.trans hf
  · exact ⟨⟨hs.together.shut, hs.together.opened⟩, hs.present, hs.alive, hs.data, rfl⟩

theorem sound_destruct (h : Sound s) (hm : may s .destruct) : ∃ t, destruct s = .ok t ∧ Sound t := by
  obtain ⟨halive, howner⟩ := hm
  cases hstarted : s.started with
  | false =>
    obtain ⟨alive, rfl⟩ := h.fresh hstarted
    obtain rfl : alive = true := halive
    exact ⟨{ initial with alive := false }, rfl, fun _ => ⟨false, rfl⟩, nofun⟩
  | true =>
    have hs := h.started hstarted
    have hend (handle : Handle) (hh : handle = if s.joined then .joined else .detached) :
        Sound { s with alive := false, handle } := by
      refine ⟨fun hf => ?_, fun _ => ⟨⟨hs.together.shut, hs.together.opened⟩, hs.present,
        fun hne => absurd howner hne, hs.data, hh⟩⟩
      cases hstarted.symm.trans hf
    cases hjoined : s.joined with
    | true =>
      refine ⟨{ s with alive := false }, ?_, hend s.handle ?_⟩
      · simp [destruct, halive, hstarted, hjoined]
      · rw [hs.handle, hjoined]
        rfl
    | false =>
      have hhandle : s.handle = .joinable := by
        rw [hs.handle, hjoined, halive]
        rfl
      refine ⟨{ s with alive := false, handle := .detached }, ?_, hend .detached ?_⟩
      · simp only [destruct, halive, hstarted, hjoined, release, hhandle]
        rfl
      · rw [hjoined]
        rfl

/-- Only a thread that has started has anything to do. -/
theorem Sound.started_of (h : Sound s) (hne : s.routine ≠ .absent ∨ s.latch.phase who ≠ .outside) :
    s.started = true ∧ Started s := by
  cases hstarted : s.started with
  | true => exact ⟨rfl, h.started hstarted⟩
  | false =>
    obtain ⟨alive, rfl⟩ := h.fresh hstarted
    obtain hne | hne := hne <;> exact absurd rfl hne

theorem Sound.started_of_routine (h : Sound s) (hne : s.routine ≠ .absent) :
    s.started = true ∧ Started s :=
  h.started_of (.inl hne : _ ∨ s.latch.phase .owner ≠ .outside)

/-- A step that leaves a started thread started. -/
theorem sound_of_started (hs : s.started = true) (h : Started s) : Sound s :=
  ⟨fun hf => (by cases hs.symm.trans hf), fun _ => h⟩

theorem sound_inductive : machine.Inductive Sound := by
  intro s l h hm
  cases l with
  | start created =>
    obtain ⟨t, ht, hsound⟩ := sound_start h hm
    exact ⟨(), t, bind_eq_ok.mpr ⟨t, ht, rfl⟩, hsound⟩
  | enter who =>
    obtain ⟨c, hc⟩ := hm
    obtain ⟨hstarted, hs⟩ := h.started_of (.inr (by rw [hc]; simp))
    obtain ⟨t, ht, hsame, -, hnext⟩ := hs.enter ⟨c, hc⟩
    exact ⟨(), t, bind_eq_ok.mpr ⟨t, ht, rfl⟩, sound_of_started (hsame.trans hstarted) hnext⟩
  | wake =>
    obtain ⟨c, k, hc⟩ := hm
    obtain ⟨hstarted, hs⟩ := h.started_of (.inr (by rw [hc]; simp))
    exact ⟨(), _, rfl, sound_of_started hstarted (hs.wake ⟨c, k, hc⟩)⟩
  | cacheTid =>
    have hr : s.routine = .entering := hm
    obtain ⟨hstarted, hs⟩ := h.started_of_routine (by simp [hr])
    have hdata := hs.data.mpr (by simp [hr])
    refine ⟨(), { s with routine := .counting, latch := s.latch.call .created .countDown },
      by simp [machine, step, hdata], ?_⟩
    exact sound_of_started hstarted (hs.cacheTid hr)
  | run =>
    have hr : s.routine = .counted := hm
    obtain ⟨hstarted, hs⟩ := h.started_of_routine (by simp [hr])
    have hdata := hs.data.mpr (by simp [hr])
    refine ⟨(), { s with routine := .running }, by simp [machine, step, hdata], ?_⟩
    exact sound_of_started hstarted (hs.on (by simp [hr]) (by simp) (by simp) (by simp [hdata]))
  | finish =>
    have hr : s.routine = .running := hm
    obtain ⟨hstarted, hs⟩ := h.started_of_routine (by simp [hr])
    have hdata := hs.data.mpr (by simp [hr])
    refine ⟨(), { s with routine := .finished }, rfl, ?_⟩
    exact sound_of_started hstarted (hs.on (by simp [hr]) (by simp) (by simp) (by simp [hdata]))
  | deleteData =>
    have hr : s.routine = .finished := hm
    obtain ⟨hstarted, hs⟩ := h.started_of_routine (by simp [hr])
    have hdata := hs.data.mpr (by simp [hr])
    refine ⟨(), { s with routine := .returned, data := false }, by simp [machine, step, hdata], ?_⟩
    exact sound_of_started hstarted (hs.on (by simp [hr]) (by simp) (by simp) (by simp))
  | join =>
    obtain ⟨t, ht, hsound⟩ := sound_join h hm
    exact ⟨(), t, bind_eq_ok.mpr ⟨t, ht, rfl⟩, hsound⟩
  | destruct =>
    obtain ⟨t, ht, hsound⟩ := sound_destruct h hm
    exact ⟨(), t, bind_eq_ok.mpr ⟨t, ht, rfl⟩, hsound⟩

/-- `func` is called by `run`, on a thread that has not called it. -/
theorem ran_step (h : Sound s) (hm : machine.may s l) (hstep : machine.step s l = .ok (o, t)) :
    t.routine.ran = (s.routine.ran || l == .run) ∧ (l = .run → s.routine.ran = false) := by
  cases l with
  | start created =>
    obtain ⟨u, hu, hstep⟩ := bind_eq_ok.mp hstep
    cases hstep
    obtain ⟨alive, rfl⟩ := h.fresh hm.2
    cases created <;> cases hu <;> simp [initial, Routine.ran]
  | enter who =>
    obtain ⟨c, hc⟩ := hm
    obtain ⟨-, hs⟩ := h.started_of (.inr (by rw [hc]; simp))
    obtain ⟨u, hu, hstep⟩ := bind_eq_ok.mp hstep
    obtain ⟨u', hu', -, hran, -⟩ := hs.enter ⟨c, hc⟩
    cases hu.symm.trans hu'
    cases hstep
    simp [hran]
  | wake =>
    cases hstep
    simp
  | cacheTid =>
    have hr : s.routine = .entering := hm
    obtain ⟨_, -, hstep⟩ := bind_eq_ok.mp hstep
    cases hstep
    simp [hr, Routine.ran]
  | run =>
    have hr : s.routine = .counted := hm
    obtain ⟨_, -, hstep⟩ := bind_eq_ok.mp hstep
    cases hstep
    simp [hr, Routine.ran]
  | finish =>
    have hr : s.routine = .running := hm
    cases hstep
    simp [hr, Routine.ran]
  | deleteData =>
    have hr : s.routine = .finished := hm
    obtain ⟨_, -, hstep⟩ := bind_eq_ok.mp hstep
    cases hstep
    simp [hr, Routine.ran]
  | join =>
    obtain ⟨u, hu, hstep⟩ := bind_eq_ok.mp hstep
    obtain ⟨_, -, hu⟩ := bind_eq_ok.mp hu
    cases hu
    cases hstep
    simp
  | destruct =>
    obtain ⟨u, hu, hstep⟩ := bind_eq_ok.mp hstep
    obtain ⟨_, -, hu⟩ := bind_eq_ok.mp hu
    cases hstep
    dsimp only at hu
    split at hu
    · obtain ⟨v, hv, hu⟩ := bind_eq_ok.mp hu
      obtain ⟨_, -, hv⟩ := bind_eq_ok.mp hv
      cases hv
      cases hu
      simp
    · cases hu
      simp

/-! ### Every run -/

abbrev Trace := List (Action × Unit)

/-- The calls of `func`. -/
def runs (tr : Trace) : Nat := tr.countP fun e => e.1 == .run

theorem runs_run {tr : Trace} (h : machine.Run initial tr s) :
    runs tr = if s.routine.ran then 1 else 0 := by
  refine h.snoc_induction (P := fun tr s => runs tr = if s.routine.ran then 1 else 0) rfl ?_
  intro tr s l o t hrun ih hm hstep
  obtain ⟨hran, hfirst⟩ := ran_step (sound_inductive.run hrun sound_initial) hm hstep
  have hsnoc : runs (tr ++ [(l, o)]) = runs tr + if l = .run then 1 else 0 := by
    simp [runs, List.countP_append]
  rw [hsnoc, ih, hran]
  by_cases hl : l = .run
  · simp [hl, hfirst hl]
  · simp [hl]

/-- **`start` returns when the new thread needs the `Thread` no longer.** It then knows its
identity and has gone past the latch; whatever the two do in whatever order, nobody touches an
object that is deleted, `func` is called, the data deleted and the thread joined or detached once,
and nobody waits at a latch that is open. -/
theorem thread_handshake {tr : Trace} (h : machine.Run initial tr s) :
    (∀ l, machine.may s l → ∃ t, machine.step s l = .ok ((), t)) ∧ runs tr ≤ 1 ∧
    (s.started = true → s.latch.phase .owner = .outside →
      s.routine ≠ .absent ∧ s.routine ≠ .entering ∧ s.routine ≠ .counting) ∧
    (s.started = true → s.routine ≠ .entering → s.routine ≠ .counting →
      ∀ who c, s.latch.phase who ≠ .waiting c ()) ∧
    (s.started = true → (s.data = false ↔ s.routine = .returned)) ∧
    (s.started = true → s.alive = false → s.handle = if s.joined then .joined else .detached) := by
  have hsound := sound_inductive.run h sound_initial
  refine ⟨fun l hm => ?_, ?_, fun hs howner => ?_, fun hs hne hnc who c hw => ?_, fun hs => ?_,
    fun hs halive => ?_⟩
  · obtain ⟨_, t, hstep, -⟩ := sound_inductive s l hsound hm
    exact ⟨t, hstep⟩
  · rw [runs_run h]
    split <;> simp
  · have hs := hsound.started hs
    refine ⟨hs.present, ?_⟩
    by_contra hshut
    obtain ⟨-, hstarting, -⟩ := hs.together.shut (by tauto)
    obtain hw | hw := hstarting <;> cases howner.symm.trans hw
  · obtain ⟨-, howner, hcreated⟩ := (hsound.started hs).together.opened hne hnc
    cases who with
    | owner => obtain howner | howner := howner <;> cases howner.symm.trans hw
    | created => cases hcreated.symm.trans hw
  · have hdata := (hsound.started hs).data
    rw [← Bool.not_eq_true, hdata, not_not]
  · rw [(hsound.started hs).handle, halive]
    rfl

/-- The `Thread` is destroyed as soon as `start` has returned, before `func` is called. -/
theorem thread_handshake_destroyed : ∃ tr s, machine.Run initial tr s ∧ s.started = true ∧
    s.alive = false ∧ s.routine = .counted ∧ s.handle = .detached ∧
    ∃ t, machine.step s .run = .ok ((), t) := by
  obtain ⟨tr, s, h, -, hstarted, halive, hroutine, hhandle⟩ := machine.exists_run_of_replay
    (s := initial) (P := fun _ s => s.started = true ∧ s.alive = false ∧ s.routine = .counted ∧
      s.handle = .detached)
    [.start true, .enter .owner, .cacheTid, .enter .created, .enter .owner, .destruct]
    (by decide +kernel)
  exact ⟨tr, s, h, hstarted, halive, hroutine, hhandle, (thread_handshake h).1 .run hroutine⟩

end Thread
end Leanet

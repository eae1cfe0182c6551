import Leanet.Timer.Deletion

/-! `addTimer` on other threads.

A thread constructs the timer, pushes the functor that will insert it, and only then reads the
sequence number for the id it returns. From the push on the timer belongs to the loop: it may be
inserted, expire, run and be deleted before the read. The read is of the thread's own timer
exactly if nothing has deleted it since the push (`addTimer_reads_own`). The wakeup between the
push and the read touches no timer. -/
namespace Leanet.AddTimer
open TimerQueue (TimerId Interval)

/-- Where a thread is in `addTimer`. -/
inductive Phase where
  | outside
  /-- Past `new Timer`. -/
  | constructed (id : TimerId)
  /-- Past `runInLoop`, before `timer->sequence()`. -/
  | pushed (id : TimerId)
  deriving DecidableEq

structure State (T : Type) where
  queue : TimerQueue.State
  /-- The timers of the functors `addTimerInLoop` in the loop's queue. -/
  pendingFunctors : List Nat
  phase : T → Phase

def initial (T : Type) (callingExpiredTimers : Bool) : State T :=
  ⟨TimerQueue.initial callingExpiredTimers, [], fun _ => .outside⟩

inductive Action (T : Type) where
  /-- `new Timer(cb, when, interval)`, on a thread other than the loop's. -/
  | new (t : T) (timer : Nat) (when : Int) (interval : Interval)
  | push (t : T)
  /-- `return TimerId(timer, timer->sequence())`. -/
  | read (t : T)
  /-- The loop runs the next functor. -/
  | functor (clock : Int)
  /-- `addTimer` on the loop's thread. -/
  | addTimer (timer : Nat) (when : Int) (interval : Interval) (clock : Int)
  /-- The loop cancels, or handles its timerfd. -/
  | loop (a : TimerQueue.Action)

def Phase.isConstructed : Phase → Bool
  | .constructed _ => true
  | _ => false

def Phase.isPushed : Phase → Bool
  | .pushed _ => true
  | _ => false

/-- What is not part of `addTimer`. -/
def isLoop : TimerQueue.Action → Bool
  | .create _ _ _ | .addTimerInLoop _ _ => false
  | _ => true

variable {T : Type}

def may (s : State T) : Action T → Prop
  | .new t timer when interval =>
    s.phase t = .outside ∧ TimerQueue.may s.queue (.create timer when interval)
  | .push t => (s.phase t).isConstructed = true
  | .read t => (s.phase t).isPushed = true
  | .functor _ => s.pendingFunctors ≠ [] ∧ s.queue.batch.isNone = true
  | .addTimer timer when interval _ =>
    TimerQueue.may s.queue (.create timer when interval) ∧ s.queue.inClient = true
  | .loop a => isLoop a = true ∧ TimerQueue.may s.queue a

/-- Lets out the id that `addTimer` returns. -/
def step [DecidableEq T] (s : State T) : Action T → Except Fault (Option TimerId × State T)
  | .new t timer when interval => do
    let (_, queue) ← TimerQueue.step s.queue (.create timer when interval)
    pure (none, { s with
      queue
      phase := Function.update s.phase t (.constructed ⟨timer, queue.numCreated⟩) })
  | .push t =>
    match s.phase t with
    | .constructed id => pure (none, { s with
        pendingFunctors := s.pendingFunctors ++ [id.timer]
        phase := Function.update s.phase t (.pushed id) })
    | _ => pure (none, s)
  | .read t =>
    match s.phase t with
    | .pushed id => do
      let read ← TimerQueue.identify s.queue id.timer
      pure (some read, { s with phase := Function.update s.phase t .outside })
    | _ => pure (none, s)
  | .functor clock => do
    let timer ← deref s.pendingFunctors.head?
    let (_, queue) ← TimerQueue.step s.queue (.addTimerInLoop timer clock)
    pure (none, { s with queue, pendingFunctors := s.pendingFunctors.tail })
  | .addTimer timer when interval clock => do
    let (_, queue) ← TimerQueue.step s.queue (.create timer when interval)
    let (_, queue) ← TimerQueue.step queue (.addTimerInLoop timer clock)
    let read ← TimerQueue.identify queue timer
    pure (some read, { s with queue })
  | .loop a => do
    let (_, queue) ← TimerQueue.step s.queue a
    pure (none, { s with queue })

def machine (T : Type) [DecidableEq T] : Machine (State T) (Action T) (Option TimerId) Fault where
  may := may
  step := step

instance (s : State T) : (l : Action T) → Decidable (may s l)
  | .new _ timer when interval => inferInstanceAs (Decidable (_ ∧
    TimerQueue.machine.may s.queue (.create timer when interval)))
  | .push _ | .read _ => inferInstanceAs (Decidable (_ = _))
  | .functor _ => inferInstanceAs (Decidable (_ ∧ _))
  | .addTimer timer when interval _ => inferInstanceAs (Decidable
    (TimerQueue.machine.may s.queue (.create timer when interval) ∧ _))
  | .loop a => inferInstanceAs (Decidable (_ ∧ TimerQueue.machine.may s.queue a))

instance [DecidableEq T] (s : State T) (l : Action T) : Decidable ((machine T).may s l) :=
  inferInstanceAs (Decidable (may s l))

/-- The loop does not delete the timer of this id. -/
def Spares (id : TimerId) (s : State T) : Action T → Prop
  | .loop a => ¬ TimerQueue.Deletes s.queue id a
  | _ => True

/-! ### What the threads and the loop know of each other -/

variable {s s' : State T} {l : Action T} {o : Option TimerId} {id : TimerId}

/-- Queued functors are of timers not inserted yet, and a timer that was not pushed is its
thread's alone. -/
structure Kept (s : State T) : Prop where
  sound : TimerQueue.Sound s.queue
  pending : ∀ a ∈ s.pendingFunctors, a ∈ s.queue.created
  nodup : s.pendingFunctors.Nodup
  constructed : ∀ t id, s.phase t = .constructed id → s.queue.Live id ∧
    id.timer ∈ s.queue.created ∧ id.timer ∉ s.pendingFunctors
  distinct : ∀ t t' id id', s.phase t = .constructed id → s.phase t' = .constructed id' →
    id.timer = id'.timer → t = t'

theorem kept_initial (calling : Bool) : Kept (initial T calling) :=
  ⟨TimerQueue.sound_initial calling, by nofun, .nil, by nofun, by nofun⟩

/-- Around a step of the queue that leaves the timers with functors as they are. -/
theorem Kept.around (h : Kept s) {queue : TimerQueue.State} (hsound : TimerQueue.Sound queue)
    (hcreated : queue.created = s.queue.created)
    (hlive : ∀ id, s.queue.Live id → id.timer ∈ s.queue.created → queue.Live id) :
    Kept { s with queue } := by
  refine ⟨hsound, fun b hb => hcreated ▸ h.pending b hb, h.nodup, fun u id' hu => ?_, h.distinct⟩
  obtain ⟨hl, hc, hp⟩ := h.constructed u id' hu
  exact ⟨hlive id' hl hc, hcreated ▸ hc, hp⟩

/-- The queue after a step of the loop's thread that is no part of `addTimer`. -/
theorem loop_created {queue : TimerQueue.State} {a : TimerQueue.Action} {e : Option TimerQueue.Event}
    (h : TimerQueue.Sound s.queue) (hm : TimerQueue.may s.queue a) (ha : isLoop a = true)
    (hs : TimerQueue.step s.queue a = .ok (e, queue)) : queue.created = s.queue.created := by
  cases h.stepped hm hs with
  | created | inserted => cases ha
  | cancelled | noted | extracted | started | expired => rfl
  | reset clock b r fd hb hwaiting hreadded => exact hreadded.created

/-- A timer that its functor still owns is not deleted. -/
theorem not_deletes_of_created {queue : TimerQueue.State} (h : TimerQueue.Sound queue)
    (hl : queue.Live id) (hc : id.timer ∈ queue.created) (a : TimerQueue.Action) :
    ¬ TimerQueue.Deletes queue id a := by
  obtain ⟨owner, howned⟩ := h.owned
  obtain ⟨t, ht, -⟩ := hl
  have howner := (howned.mem_created ht).mp hc
  cases a with
  | cancelTimerInLoop timerid =>
    rintro ⟨-, hactive⟩
    have := ((howned.mem_active ht).mp hactive).2
    rw [howner] at this
    cases this
  | endRead clock =>
    rintro ⟨hheld, -⟩
    have := (howned.mem_held ht).mp hheld
    rw [howner] at this
    cases this
  | create | addTimerInLoop | beginRead | run | expire => exact not_false

theorem sound_next {queue : TimerQueue.State} {q : TimerQueue.State} {a : TimerQueue.Action}
    {e : Option TimerQueue.Event} (h : TimerQueue.Sound queue) (hm : TimerQueue.may queue a)
    (hs : TimerQueue.step queue a = .ok (e, q)) : TimerQueue.Sound q :=
  TimerQueue.sound_inductive.run (TimerQueue.run_single hm hs) h

/-- `new Timer`, as the queue sees it. -/
theorem create_next {queue : TimerQueue.State} {a : Nat} {when : Int} {interval : Interval}
    (h : TimerQueue.Sound queue) (hm : TimerQueue.may queue (.create a when interval)) :
    ∃ e q, TimerQueue.step queue (.create a when interval) = .ok (e, q) ∧ TimerQueue.Sound q ∧
      q.created = queue.created ++ [a] ∧ a ∉ queue.created ∧ q.Live ⟨a, q.numCreated⟩ ∧
      q.inClient = queue.inClient ∧ ∀ id, queue.Live id → q.Live id ∧ id.timer ≠ a := by
  obtain ⟨owner, howned⟩ := h.owned
  have hs : TimerQueue.step queue (.create a when interval) = .ok _ := rfl
  refine ⟨_, _, hs, sound_next h hm hs, rfl, fun hc => ?_,
    ⟨⟨when, interval, queue.numCreated + 1⟩, Function.update_self .., rfl⟩, rfl, fun id hl => ⟨?_, ?_⟩⟩
  · obtain ⟨t, ht, -⟩ := ((howned.placed a).created).mp hc
    rw [hm.1] at ht
    cases ht
  · exact (TimerQueue.live_iff h hm hs hl).mpr not_false
  · rintro rfl
    obtain ⟨t, ht, -⟩ := hl
    rw [hm.1] at ht
    cases ht

/-- `addTimerInLoop`, as the queue sees it. -/
theorem insert_next {queue : TimerQueue.State} {a : Nat} {clock : Int} (h : TimerQueue.Sound queue)
    (hm : TimerQueue.may queue (.addTimerInLoop a clock)) :
    ∃ e q, TimerQueue.step queue (.addTimerInLoop a clock) = .ok (e, q) ∧ TimerQueue.Sound q ∧
      q.created = queue.created.erase a ∧ ∀ id, queue.Live id → q.Live id := by
  obtain ⟨e, q, hs, hq⟩ : ∃ e q, TimerQueue.step queue (.addTimerInLoop a clock) = .ok (e, q) ∧
      TimerQueue.Sound q := TimerQueue.sound_inductive queue (.addTimerInLoop a clock) h hm
  have hstepped := h.stepped hm hs
  refine ⟨e, q, hs, hq, ?_, fun id hl => (TimerQueue.live_iff h hm hs hl).mpr not_false⟩
  cases hstepped with
  | inserted => rfl

theorem numbered_of_live (h : Kept s) (hl : s.queue.Live id) : id.sequence ≤ s.queue.numCreated := by
  obtain ⟨owner, howned⟩ := h.sound.owned
  obtain ⟨t, ht, hseq⟩ := hl
  rw [← hseq]
  exact (howned.fresh _ t ht).1

section
variable [DecidableEq T]

/-- Who is before its push was so before another thread's phase changed. -/
theorem constructed_of_update {t u : T} {p : Phase} (hp : ∀ id, p ≠ .constructed id)
    (hu : Function.update s.phase t p u = .constructed id) : u ≠ t ∧ s.phase u = .constructed id := by
  by_cases hut : u = t
  · subst hut
    rw [Function.update_self] at hu
    exact absurd hu (hp id)
  · rw [Function.update_of_ne hut] at hu
    exact ⟨hut, hu⟩

theorem kept_new (h : Kept s) {t : T} {a : Nat} {when : Int} {interval : Interval}
    (hm : may s (.new t a when interval)) (hs : step s (.new t a when interval) = .ok (o, s')) :
    Kept s' := by
  obtain ⟨e, q, hq, hsound, hcreated, hfresh, hlive, -, hothers⟩ := create_next h.sound hm.2
  simp only [step, hq, ok_bind] at hs
  cases hs
  have hphase {u : T} {id' : TimerId}
      (hu : Function.update s.phase t (.constructed ⟨a, q.numCreated⟩) u = .constructed id') :
      u = t ∧ id' = ⟨a, q.numCreated⟩ ∨ s.phase u = .constructed id' := by
    by_cases hut : u = t
    · subst hut
      rw [Function.update_self] at hu
      exact .inl ⟨rfl, (Phase.constructed.inj hu).symm⟩
    · rw [Function.update_of_ne hut] at hu
      exact .inr hu
  have hold {u : T} {id' : TimerId} (hu : s.phase u = .constructed id') : id'.timer ≠ a :=
    (hothers id' (h.constructed u id' hu).1).2
  refine ⟨hsound, fun b hb => ?_, h.nodup, fun u id' hu => ?_, fun u u' id' id'' hu hu' heq => ?_⟩
  · rw [hcreated]
    exact List.mem_append_left _ (h.pending b hb)
  · rw [hcreated]
    rcases hphase hu with ⟨-, rfl⟩ | hu
    · exact ⟨hlive, List.mem_append_right _ (List.mem_singleton_self a),
        fun hp => hfresh (h.pending a hp)⟩
    · obtain ⟨hl, hc, hp⟩ := h.constructed u id' hu
      exact ⟨(hothers id' hl).1, List.mem_append_left _ hc, hp⟩
  · rcases hphase hu with ⟨hut, rfl⟩ | hbefore
    · rcases hphase hu' with ⟨hut', -⟩ | hbefore'
      · rw [hut, hut']
      · exact absurd heq.symm (hold hbefore')
    · rcases hphase hu' with ⟨-, rfl⟩ | hbefore'
      · exact absurd heq (hold hbefore)
      · exact h.distinct u u' id' id'' hbefore hbefore' heq

theorem kept_push (h : Kept s) {t : T} (ht : s.phase t = .constructed id) :
    Kept { s with
      pendingFunctors := s.pendingFunctors ++ [id.timer]
      phase := Function.update s.phase t (.pushed id) } := by
  obtain ⟨-, hcreated, hfresh⟩ := h.constructed t id ht
  have hother {u : T} {id' : TimerId}
      (hu : Function.update s.phase t (.pushed id) u = .constructed id') :=
    constructed_of_update (by simp) hu
  refine ⟨h.sound, fun a ha => ?_, ?_, fun u id' hu => ?_, fun u u' id' id'' hu hu' heq => ?_⟩
  · rcases List.mem_append.mp ha with ha | ha
    · exact h.pending a ha
    · rw [List.mem_singleton.mp ha]
      exact hcreated
  · refine List.nodup_append.mpr ⟨h.nodup, List.nodup_singleton _, fun a ha b hb => ?_⟩
    rw [List.mem_singleton.mp hb]
    rintro rfl
    exact hfresh ha
  · obtain ⟨hne, hu⟩ := hother hu
    obtain ⟨hl, hc, hp⟩ := h.constructed u id' hu
    refine ⟨hl, hc, fun hmem => ?_⟩
    rcases List.mem_append.mp hmem with hmem | hmem
    · exact hp hmem
    · exact hne (h.distinct u t id' id hu ht (List.mem_singleton.mp hmem))
  · exact h.distinct u u' id' id'' (hother hu).2 (hother hu').2 heq

theorem kept_read (h : Kept s) (t : T) :
    Kept { s with phase := Function.update s.phase t .outside } := by
  have hother {u : T} {id' : TimerId}
      (hu : Function.update s.phase t .outside u = .constructed id') :=
    constructed_of_update (by simp) hu
  exact ⟨h.sound, h.pending, h.nodup, fun u id' hu => h.constructed u id' (hother hu).2,
    fun u u' id' id'' hu hu' => h.distinct u u' id' id'' (hother hu).2 (hother hu').2⟩

/-- The loop inserts the timer of the next functor: it is no longer anybody's to push. -/
theorem kept_functor (h : Kept s) {clock : Int} (hm : may s (.functor clock))
    (hs : step s (.functor clock) = .ok (o, s')) : Kept s' := by
  obtain ⟨a, rest, hpending⟩ := List.exists_cons_of_ne_nil hm.1
  have hnodup := h.nodup
  rw [hpending, List.nodup_cons] at hnodup
  have hinsert : TimerQueue.may s.queue (.addTimerInLoop a clock) := by
    refine ⟨h.pending a (hpending ▸ List.mem_cons_self), ?_⟩
    rw [TimerQueue.State.inClient, Option.isNone_iff_eq_none.mp hm.2]
  obtain ⟨e, q, hq, hsound, hcreated, hlive⟩ := insert_next h.sound hinsert
  simp only [step, hpending, List.head?_cons, deref_some, ok_bind, hq, List.tail_cons] at hs
  cases hs
  refine ⟨hsound, fun b hb => ?_, hnodup.2, fun u id' hu => ?_, h.distinct⟩
  · have hne : b ≠ a := by
      rintro rfl
      exact hnodup.1 hb
    rw [hcreated]
    exact (List.mem_erase_of_ne hne).mpr (h.pending b (hpending ▸ List.mem_cons_of_mem a hb))
  · obtain ⟨hl, hc, hp⟩ := h.constructed u id' hu
    rw [hpending, List.mem_cons, not_or] at hp
    rw [hcreated]
    exact ⟨hlive id' hl, (List.mem_erase_of_ne hp.1).mpr hc, hp.2⟩

theorem kept_step (h : Kept s) (hm : may s l) (hs : step s l = .ok (o, s')) : Kept s' := by
  cases l with
  | new t a when interval => exact kept_new h hm hs
  | push t =>
    simp only [step] at hs
    split at hs
    · next id ht =>
      cases hs
      exact kept_push h ht
    · cases hs
      exact h
  | read t =>
    simp only [step] at hs
    split at hs
    · obtain ⟨read, -, hs⟩ := bind_eq_ok.mp hs
      cases hs
      exact kept_read h t
    · cases hs
      exact h
  | functor clock => exact kept_functor h hm hs
  | addTimer a when interval clock =>
    obtain ⟨e, q, hq, hsound, hcreated, hfresh, -, hclient, hothers⟩ := create_next h.sound hm.1
    have hinsert : TimerQueue.may q (.addTimerInLoop a clock) :=
      ⟨hcreated ▸ List.mem_append_right _ (List.mem_singleton_self a), hclient.trans hm.2⟩
    obtain ⟨e', q', hq', hsound', hcreated', hlive⟩ := insert_next hsound hinsert
    simp only [step, hq, hq', ok_bind] at hs
    obtain ⟨read, -, hs⟩ := bind_eq_ok.mp hs
    cases hs
    have hsame : q'.created = s.queue.created := by
      rw [hcreated', hcreated, List.erase_append_right _ hfresh]
      simp
    exact h.around hsound' hsame fun id' hl _ => hlive id' (hothers id' hl).1
  | loop a =>
    obtain ⟨⟨e, q⟩, hq, hs⟩ := bind_eq_ok.mp hs
    cases hs
    refine h.around (sound_next h.sound hm.2 hq) (loop_created h.sound hm.2 hm.1 hq) ?_
    exact fun id' hl hc =>
      (TimerQueue.live_iff h.sound hm.2 hq hl).mpr (not_deletes_of_created h.sound hl hc a)

theorem kept_run {calling : Bool} {tr : List (Action T × Option TimerId)}
    (h : (machine T).Run (initial T calling) tr s) : Kept s :=
  h.preserves (fun _ _ _ _ hk hm hs => kept_step hk hm hs) (kept_initial calling)

/-! ### Whether the timer is still there -/

/-- One step: it lives on exactly if it is spared. -/
theorem live_iff_spares (h : Kept s) (hm : may s l) (hs : step s l = .ok (o, s'))
    (hl : s.queue.Live id) : s'.queue.Live id ↔ Spares id s l := by
  cases l with
  | new t a when interval =>
    obtain ⟨e, q, hq, -, -, -, -, -, hothers⟩ := create_next h.sound hm.2
    simp only [step, hq, ok_bind] at hs
    cases hs
    exact iff_of_true (hothers id hl).1 trivial
  | push t =>
    simp only [step] at hs
    split at hs <;> cases hs <;> exact iff_of_true hl trivial
  | read t =>
    simp only [step] at hs
    split at hs
    · obtain ⟨read, -, hs⟩ := bind_eq_ok.mp hs
      cases hs
      exact iff_of_true hl trivial
    · cases hs
      exact iff_of_true hl trivial
  | functor clock =>
    obtain ⟨a, -, hs⟩ := bind_eq_ok.mp hs
    obtain ⟨⟨e, q⟩, hq, hs⟩ := bind_eq_ok.mp hs
    cases hs
    obtain ⟨t, ht, hseq⟩ := hl
    exact iff_of_true ⟨t, by rw [TimerQueue.addTimerInLoop_heap hq]; exact ht, hseq⟩ trivial
  | addTimer a when interval clock =>
    obtain ⟨e, q, hq, -, -, -, -, -, hothers⟩ := create_next h.sound hm.1
    simp only [step, hq, ok_bind] at hs
    obtain ⟨⟨e', q'⟩, hq', hs⟩ := bind_eq_ok.mp hs
    obtain ⟨read, -, hs⟩ := bind_eq_ok.mp hs
    cases hs
    obtain ⟨t, ht, hseq⟩ := (hothers id hl).1
    exact iff_of_true ⟨t, by rw [TimerQueue.addTimerInLoop_heap hq']; exact ht, hseq⟩ trivial
  | loop a =>
    obtain ⟨⟨e, q⟩, hq, hs⟩ := bind_eq_ok.mp hs
    cases hs
    exact TimerQueue.live_iff h.sound hm.2 hq hl

/-- One step takes the queue through steps of its own. -/
theorem queue_run (h : Kept s) (hm : may s l) (hs : step s l = .ok (o, s')) :
    ∃ tr, TimerQueue.machine.Run s.queue tr s'.queue := by
  cases l with
  | new t a when interval =>
    obtain ⟨⟨e, q⟩, hq, hs⟩ := bind_eq_ok.mp hs
    cases hs
    exact ⟨_, TimerQueue.run_single hm.2 hq⟩
  | push t =>
    simp only [step] at hs
    split at hs <;> cases hs <;> exact ⟨[], .nil _⟩
  | read t =>
    simp only [step] at hs
    split at hs
    · obtain ⟨read, -, hs⟩ := bind_eq_ok.mp hs
      cases hs
      exact ⟨[], .nil _⟩
    · cases hs
      exact ⟨[], .nil _⟩
  | functor clock =>
    obtain ⟨a, ha, hs⟩ := bind_eq_ok.mp hs
    obtain ⟨⟨e, q⟩, hq, hs⟩ := bind_eq_ok.mp hs
    cases hs
    have hclient : s.queue.inClient = true := by
      rw [TimerQueue.State.inClient, Option.isNone_iff_eq_none.mp hm.2]
    have hinsert : TimerQueue.may s.queue (.addTimerInLoop a clock) :=
      ⟨h.pending a (List.mem_of_head? (deref_eq_ok.mp ha)), hclient⟩
    exact ⟨_, TimerQueue.run_single hinsert hq⟩
  | addTimer a when interval clock =>
    obtain ⟨⟨e, q⟩, hq, hs⟩ := bind_eq_ok.mp hs
    obtain ⟨⟨e', q'⟩, hq', hs⟩ := bind_eq_ok.mp hs
    obtain ⟨read, -, hs⟩ := bind_eq_ok.mp hs
    cases hs
    have hinsert : TimerQueue.may q (.addTimerInLoop a clock) := by
      cases hq
      exact ⟨List.mem_append_right _ (List.mem_singleton_self a), hm.2⟩
    exact ⟨_, (TimerQueue.run_single hm.1 hq).append (TimerQueue.run_single hinsert hq')⟩
  | loop a =>
    obtain ⟨⟨e, q⟩, hq, hs⟩ := bind_eq_ok.mp hs
    cases hs
    exact ⟨_, TimerQueue.run_single hm.2 hq⟩

/-- A deleted timer stays deleted: its number is not given again. -/
theorem not_live_run (h : Kept s) (hnum : id.sequence ≤ s.queue.numCreated)
    (hdead : ¬ s.queue.Live id) {tr : List (Action T × Option TimerId)}
    (hr : (machine T).Run s tr s') : ¬ s'.queue.Live id := by
  refine (hr.preserves (I := fun s => Kept s ∧ id.sequence ≤ s.queue.numCreated ∧
    ¬ s.queue.Live id) ?_ ⟨h, hnum, hdead⟩).2.2
  rintro s l o s' ⟨hk, hnum, hdead⟩ hm hs
  obtain ⟨tr, hq⟩ := queue_run hk hm hs
  obtain ⟨hmono, hback⟩ := TimerQueue.live_run hk.sound hq hnum
  exact ⟨kept_step hk hm hs, hnum.trans hmono, fun hl => hdead (hback hl)⟩

/-- Over a whole run: it lives on exactly if every step spares it. -/
theorem live_iff_run (h : Kept s) (hl : s.queue.Live id) {tr : List (Action T × Option TimerId)}
    (hr : (machine T).Run s tr s') :
    s'.queue.Live id ↔ ((machine T).only (Spares id)).Run s tr s' := by
  induction hr with
  | nil s => exact iff_of_true hl (.nil s)
  | @cons s t u l o tr hm hs hrest ih =>
    have hstep := live_iff_spares h hm hs hl
    have hk := kept_step h hm hs
    rw [Machine.run_cons_iff (m := (machine T).only (Spares id)) hs]
    by_cases hspared : Spares id s l
    · rw [ih hk (hstep.mpr hspared)]
      exact ⟨fun hrun => ⟨⟨hm, hspared⟩, hrun⟩, And.right⟩
    · obtain ⟨tr', hq⟩ := queue_run h hm hs
      have hnum := numbered_of_live h hl
      have hnum' := hnum.trans (TimerQueue.live_run h.sound hq hnum).1
      refine iff_of_false (not_live_run hk hnum' (mt hstep.mp hspared) hrest) ?_
      rintro ⟨⟨-, hspares⟩, -⟩
      exact hspared hspares

/-! ### What the thread reads -/

theorem read_iff {t : T} (ht : s.phase t = .pushed id) :
    (∃ s', step s (.read t) = .ok (some id, s')) ↔ s.queue.Live id := by
  simp only [step, ht]
  constructor
  · rintro ⟨s', hs⟩
    obtain ⟨read, hread, hs⟩ := bind_eq_ok.mp hs
    cases hs
    obtain ⟨u, hu, hread⟩ := bind_eq_ok.mp hread
    have hid := Except.ok.inj hread
    exact ⟨u, deref_eq_ok.mp hu, congrArg TimerId.sequence hid⟩
  · rintro ⟨u, hu, hseq⟩
    have hread : TimerQueue.identify s.queue id.timer = .ok id := by
      simp only [TimerQueue.identify, hu, deref_some, ok_bind, pure_eq_ok, hseq]
    simp only [hread, ok_bind, pure_eq_ok]
    exact ⟨_, rfl⟩

/-- **`addTimer` returns the id of its own timer exactly if the loop has spared it since the
push.** -/
theorem addTimer_reads_own {calling : Bool} {tr₁ tr₂ : List (Action T × Option TimerId)}
    {s₁ s₂ s₃ : State T} {t : T} (h₁ : (machine T).Run (initial T calling) tr₁ s₁)
    (hnew : s₁.phase t = .constructed id) (hpush : step s₁ (.push t) = .ok (none, s₂))
    (h₂ : (machine T).Run s₂ tr₂ s₃) (hread : s₃.phase t = .pushed id) :
    (∃ s₄, step s₃ (.read t) = .ok (some id, s₄)) ↔
      ((machine T).only (Spares id)).Run s₂ tr₂ s₃ := by
  have hk₁ := kept_run h₁
  have hm : may s₁ (.push t) := by rw [may, hnew, Phase.isConstructed]
  have hk₂ := kept_step hk₁ hm hpush
  have hl : s₂.queue.Live id :=
    (live_iff_spares hk₁ hm hpush (hk₁.constructed t id hnew).1).mpr trivial
  rw [read_iff hread]
  exact live_iff_run hk₂ hl h₂

end

/-- The loop inserts the timer and cancels another one before the thread reads. -/
theorem addTimer_reads_own_inserted : ∃ tr₁ s₁ s₂ tr₂ s₃,
    (machine Unit).Run (initial Unit false) tr₁ s₁ ∧ step s₁ (.push ()) = .ok (none, s₂) ∧
    (machine Unit).Run s₂ tr₂ s₃ ∧
    tr₂.map Prod.fst = [.functor 50, .loop (.cancelTimerInLoop ⟨7, 1⟩)] ∧
    ((∃ s₄, step s₃ (.read ()) = .ok (some ⟨8, 2⟩, s₄)) ↔
      ((machine Unit).only (Spares ⟨8, 2⟩)).Run s₂ tr₂ s₃) := by
  obtain ⟨tr₁, s₁, h₁, -, hnew, hrest⟩ := (machine Unit).exists_run_of_replay
    (s := initial Unit false)
    (P := fun _ s => s.phase () = .constructed ⟨8, 2⟩ ∧ ((machine Unit).replay s
      [.push (), .functor 50, .loop (.cancelTimerInLoop ⟨7, 1⟩)]).any
        (fun r => decide (r.2.phase () = .pushed ⟨8, 2⟩)) = true)
    [.addTimer 7 100 .once 40, .new () 8 100 .once] (by decide +kernel)
  obtain ⟨tr, s₃, h, htr, hread⟩ := (machine Unit).exists_run_of_replay
    (P := fun _ s => s.phase () = .pushed ⟨8, 2⟩) _ hrest
  cases h with
  | nil => cases htr
  | @cons _ s₂ _ l o tr₂ hm hpush h₂ =>
    obtain ⟨rfl, hrest⟩ := List.cons.inj htr
    have hs₂ := hpush
    simp only [machine, step, hnew] at hs₂
    cases hs₂
    exact ⟨tr₁, s₁, _, tr₂, s₃, h₁, hpush, h₂, hrest,
      addTimer_reads_own h₁ hnew hpush h₂ hread⟩

/-- One thread's timer is inserted, run and deleted before the thread reads: freed memory, or
the timer that another thread has at that address. -/
theorem addTimer_reads_deleted :
    (∃ tr s, (machine Bool).Run (initial Bool false) tr s ∧
      tr.map Prod.fst = [.new true 7 100 .once, .push true, .functor 50, .loop .expire,
        .loop (.beginRead 150), .loop .run, .loop (.endRead 160)] ∧
      may s (.read true) ∧ step s (.read true) = .error .dangling) ∧
    ∃ tr s s', (machine Bool).Run (initial Bool false) tr s ∧
      tr.map Prod.fst = [.new true 7 100 .once, .push true, .functor 50, .loop .expire,
        .loop (.beginRead 150), .loop .run, .loop (.endRead 160), .new false 7 300 .once] ∧
      step s (.read true) = .ok (some ⟨7, 2⟩, s') := by
  constructor
  · obtain ⟨tr, s, h, htr, hphase, hfreed⟩ := (machine Bool).exists_run_of_replay
      (s := initial Bool false)
      (P := fun _ s => s.phase true = .pushed ⟨7, 1⟩ ∧ s.queue.heap 7 = none)
      [.new true 7 100 .once, .push true, .functor 50, .loop .expire, .loop (.beginRead 150),
        .loop .run, .loop (.endRead 160)] (by decide +kernel)
    refine ⟨tr, s, h, htr, by rw [may, hphase, Phase.isPushed], ?_⟩
    simp only [step, hphase, TimerQueue.identify, hfreed]
    rfl
  · obtain ⟨tr, s, h, htr, hphase, hreused⟩ := (machine Bool).exists_run_of_replay
      (s := initial Bool false)
      (P := fun _ s => s.phase true = .pushed ⟨7, 1⟩ ∧ s.queue.heap 7 = some ⟨300, .once, 2⟩)
      [.new true 7 100 .once, .push true, .functor 50, .loop .expire, .loop (.beginRead 150),
        .loop .run, .loop (.endRead 160), .new false 7 300 .once] (by decide +kernel)
    refine ⟨tr, s, { s with phase := Function.update s.phase true .outside }, h, htr, ?_⟩
    simp only [step, hphase, TimerQueue.identify, hreused]
    rfl

end Leanet.AddTimer

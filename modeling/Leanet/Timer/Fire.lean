import Leanet.Timer.Deletion
import Mathlib.Data.List.Nodup

/-! What one `handleRead` fires.

The cut at `(now, UINTPTR_MAX)` takes the timers whose time has come, ties and `now` itself
included, since no timer has that address. From there to the return the batch is a list that
shrinks from the front (`InBatch`): callbacks add to the sets and take from them, but a timer of
the batch is in neither set, so what they cancel of it is a note, and what they add is no part of
it. `reset` reads the notes. A batch-mate that still waits may be cancelled as well: it has its
turn all the same. -/
namespace Leanet.TimerQueue

variable {s s' u : State} {l : Action} {o : Option Event} {a : Nat} {t : Timer} {now : Int}
  {e : Entry} {tr : List (Action × Option Event)}

/-- The id of the timer of an entry. -/
def State.idAt (s : State) (e : Entry) : Option TimerId :=
  (s.heap e.timer).map fun t => ⟨e.timer, t.sequence⟩

def Event.callback : Event → Option TimerId
  | .started id => some id
  | .issued _ | .inserted _ => none

/-- The callbacks that start in a history, in order. -/
def fired (tr : List (Action × Option Event)) : List TimerId :=
  tr.filterMap fun e => e.2.bind Event.callback

/-- `handleRead` from its call to its return; `tr` is what happens in between: the callbacks,
what they ask for, and what other threads do. -/
def HandlesRead (s : State) (now : Int) (tr : List (Action × Option Event)) (s' : State) : Prop :=
  ∃ o clock o', machine.Run s ((.beginRead now, o) :: (tr ++ [(.endRead clock, o')])) s' ∧
    ∀ c, .endRead c ∉ tr.map Prod.fst

@[simp] theorem fired_nil : fired [] = [] := rfl

theorem fired_snoc (tr : List (Action × Option Event)) (l : Action) (o : Option Event) :
    fired (tr ++ [(l, o)]) = fired tr ++ (o.bind Event.callback).toList := by
  rw [fired, List.filterMap_append, fired]
  cases h : o.bind Event.callback <;> simp [h]

/-! ### The cut -/

/-- The timers of the queue whose time has come. -/
def State.due (s : State) (now : Int) : List Entry := s.timers.below (entry now UINTPTR_MAX)

theorem Sound.mem_due (h : Sound s) : e ∈ s.due now ↔ e ∈ s.timers ∧ e.expiration ≤ now := by
  obtain ⟨owner, howned⟩ := h.owned
  rw [State.due, OrdSet.mem_below]
  refine and_congr_right fun he => ?_
  obtain ⟨t, ht, -⟩ := howned.live_of_mem he
  rw [← not_le, lt_expiration (howned.fresh _ t ht).2, not_lt]

theorem sorted_due (s : State) (now : Int) :
    (s.due now).Pairwise fun d e => d.expiration ≤ e.expiration := by
  refine (s.timers.sorted.sublist (List.takeWhile_sublist _)).imp fun {d e} hde => ?_
  rcases Prod.Lex.lt_iff.mp hde with h | h
  · exact h.le
  · exact h.1.le

/-! ### One step -/

/-- Short of `reset` a live timer is changed by nothing, and leaves the queue by its cancellation
or with a batch. -/
theorem untouched_step (h : Sound s) (hm : may s l) (hs : step s l = .ok (o, s'))
    (hend : ∀ c, l ≠ .endRead c) (ht : s.heap a = some t)
    (hcancel : l = .cancelTimerInLoop ⟨a, t.sequence⟩ →
      activeTimer a t.sequence ∉ s.activeTimers) :
    s'.heap a = some t ∧
      ((∀ c, l ≠ .beginRead c) → ∀ x, entry x a ∈ s.timers → entry x a ∈ s'.timers) := by
  cases l with
  | cancelTimerInLoop id =>
    by_cases hactive : activeTimer id.timer id.sequence ∈ s.activeTimers
    · obtain ⟨v, hv, hseq, hrun⟩ := step_cancel_active h hactive
      rw [hrun] at hs
      cases hs
      have hne : a ≠ id.timer := by
        rintro rfl
        obtain rfl := Option.some.inj (ht.symm.trans hv)
        rw [← hseq] at hactive
        exact hcancel (by rw [hseq]) hactive
      refine ⟨(Function.update_of_ne hne ..).trans ht, fun _ x hx => ?_⟩
      refine OrdSet.mem_erase.mpr ⟨fun heq => ?_, hx⟩
      exact hne (entry_inj.mp heq).2
    · rw [step_cancel_noted hactive] at hs
      cases hs
      exact ⟨ht, fun _ _ hx => hx⟩
  | endRead clock => exact absurd rfl (hend clock)
  | create b when interval =>
    cases h.stepped hm hs with
    | created _ _ _ hfree =>
      have hne : a ≠ b := by
        rintro rfl
        rw [hfree] at ht
        cases ht
      exact ⟨(Function.update_of_ne hne ..).trans ht, fun _ _ hx => hx⟩
  | addTimerInLoop b clock =>
    cases h.stepped hm hs with
    | inserted => exact ⟨ht, fun _ _ hx => OrdSet.mem_insert.mpr (.inr hx)⟩
  | beginRead c =>
    cases h.stepped hm hs with
    | extracted => exact ⟨ht, fun hne => absurd rfl (hne c)⟩
  | run =>
    cases h.stepped hm hs with
    | started => exact ⟨ht, fun _ _ hx => hx⟩
  | expire =>
    cases hs
    exact ⟨ht, fun _ _ hx => hx⟩

/-- A note is taken of every cancellation of a timer of the batch, and of no other. -/
theorem noted_step (h : Sound s) (hm : may s l) (hs : step s l = .ok (o, s')) (id : TimerId)
    (hbegin : ∀ c, l ≠ .beginRead c) (hheld : id.timer ∈ s.held) :
    activeTimer id.timer id.sequence ∈ s'.cancelingTimers ↔
      activeTimer id.timer id.sequence ∈ s.cancelingTimers ∨ l = .cancelTimerInLoop id := by
  have hcalling := h.calling_of_held hheld
  cases l with
  | cancelTimerInLoop timerid =>
    have hid : timerid = id ↔ timerid.timer = id.timer ∧ timerid.sequence = id.sequence := by
      cases timerid
      cases id
      exact TimerId.mk.injEq .. ▸ Iff.rfl
    rw [Action.cancelTimerInLoop.injEq, hid]
    by_cases hactive : activeTimer timerid.timer timerid.sequence ∈ s.activeTimers
    · obtain ⟨v, -, -, hrun⟩ := step_cancel_active h hactive
      rw [hrun] at hs
      cases hs
      refine (or_iff_left fun heq => ?_).symm
      rw [heq.1] at hactive
      exact h.not_active_of_held hheld hactive
    · rw [step_cancel_noted hactive] at hs
      cases hs
      rw [if_pos hcalling, OrdSet.mem_insert, activeTimer_inj, or_comm, eq_comm,
        @eq_comm _ id.sequence]
  | beginRead c => exact absurd rfl (hbegin c)
  | endRead clock =>
    cases h.stepped hm hs with
    | reset clock b r fd hb hwaiting hreadded => simp [hreadded.canceling]
  | create | addTimerInLoop | run | expire =>
    cases h.stepped hm hs
    exact (or_iff_left (by simp)).symm

/-! ### The batch -/

/-- The `handleRead` that began in `s` at `now`, after `tr`, with `u` reached. -/
structure InBatch (s : State) (now : Int) (tr : List (Action × Option Event)) (u : State) :
    Prop where
  batch : ∃ done waiting, u.batch = some ⟨now, done, waiting⟩ ∧ done ++ waiting = s.due now ∧
    fired tr = done.filterMap s.idAt
  heap : ∀ e ∈ s.due now, u.heap e.timer = s.heap e.timer
  noted : ∀ e ∈ s.due now, ∀ q, activeTimer e.timer q ∈ u.cancelingTimers ↔
    .cancelTimerInLoop ⟨e.timer, q⟩ ∈ tr.map Prod.fst
  later : ∀ a t, s.heap a = some t → entry t.expiration a ∈ s.timers → now < t.expiration →
    .cancelTimerInLoop ⟨a, t.sequence⟩ ∉ tr.map Prod.fst →
    u.heap a = some t ∧ entry t.expiration a ∈ u.timers
  added : ∀ id, some (.inserted id) ∈ tr.map Prod.snd → id.timer ∉ (s.due now).map Entry.timer

theorem InBatch.held (h : InBatch s now tr u) : u.held = (s.due now).map Entry.timer := by
  obtain ⟨done, waiting, hb, hdue, -⟩ := h.batch
  rw [held_of_some hb, hdue]

theorem inBatch_begin (h : Sound s) (hm : may s (.beginRead now))
    (hs : step s (.beginRead now) = .ok (o, u)) : InBatch s now [] u := by
  obtain ⟨owner, howned⟩ := h.owned
  cases h.stepped hm hs with
  | extracted _ active fd hidle =>
    refine ⟨⟨[], s.due now, rfl, rfl, rfl⟩, fun _ _ => rfl, fun e _ q => ?_,
      fun a t ht hmem hlater _ => ⟨ht, ?_⟩, fun id hid => absurd hid List.not_mem_nil⟩
    · exact iff_of_false (OrdSet.notMem_empty _) List.not_mem_nil
    · have haddr : (entry t.expiration a).timer < UINTPTR_MAX := (howned.fresh a t ht).2
      exact OrdSet.mem_notBelow.mpr ⟨hmem, (lt_expiration haddr).mpr hlater⟩

/-- The next callback is that of the first timer that waits. -/
theorem fired_step (h : Sound u) (hm : may u l) (hs : step u l = .ok (o, s'))
    (hend : ∀ c, l ≠ .endRead c) (hin : InBatch s now tr u) :
    ∃ done waiting, s'.batch = some ⟨now, done, waiting⟩ ∧ done ++ waiting = s.due now ∧
      fired (tr ++ [(l, o)]) = done.filterMap s.idAt := by
  obtain ⟨done, waiting, hb, hdue, hfired⟩ := hin.batch
  rw [fired_snoc, hfired]
  cases h.stepped hm hs with
  | started _ _ e rest t hb' ht =>
    obtain ⟨rfl, rfl, rfl⟩ := Batch.mk.inj (Option.some.inj (hb.symm.trans hb'))
    refine ⟨done ++ [e], rest, rfl, by rw [← hdue, List.append_assoc, List.singleton_append], ?_⟩
    have hat : s.idAt e = some ⟨e.timer, t.sequence⟩ := by
      rw [State.idAt, ← hin.heap e (by rw [← hdue]; simp), ht]
      rfl
    simp [hat, Event.callback]
  | extracted _ _ _ hidle => rw [hidle] at hb; cases hb
  | reset clock => exact absurd rfl (hend clock)
  | created | inserted | cancelled | noted | expired =>
    exact ⟨done, waiting, hb, hdue, by simp [Event.callback]⟩

theorem inBatch_step (h : Sound u) (hm : may u l) (hs : step u l = .ok (o, s'))
    (hend : ∀ c, l ≠ .endRead c) (hin : InBatch s now tr u) :
    InBatch s now (tr ++ [(l, o)]) s' := by
  obtain ⟨owner, howned⟩ := h.owned
  have hbegin : ∀ c, l ≠ .beginRead c := by
    rintro c rfl
    obtain ⟨done, waiting, hb, -⟩ := hin.batch
    have hidle : u.batch = none := Option.isNone_iff_eq_none.mp hm
    rw [hidle] at hb
    cases hb
  have hheld : ∀ e ∈ s.due now, e.timer ∈ u.held := fun e he =>
    hin.held ▸ List.mem_map_of_mem he
  refine ⟨fired_step h hm hs hend hin, fun e he => ?_, fun e he q => ?_,
    fun a t ht hmem hlater hnot => ?_, fun id hid => ?_⟩
  · obtain ⟨t, ht, -⟩ := ((howned.placed e.timer).held).mp (hheld e he)
    rw [← hin.heap e he, ht]
    exact (untouched_step h hm hs hend ht fun _ => h.not_active_of_held (hheld e he)).1
  · rw [noted_step h hm hs ⟨e.timer, q⟩ hbegin (hheld e he), hin.noted e he]
    simp [eq_comm]
  · rw [List.map_append, List.mem_append, not_or] at hnot
    obtain ⟨hu, hmem'⟩ := hin.later a t ht hmem hlater hnot.1
    obtain ⟨hs', hkept⟩ := untouched_step h hm hs hend hu fun heq =>
      absurd (by simp [heq]) hnot.2
    exact ⟨hs', hkept hbegin _ hmem'⟩
  · rw [List.map_append, List.mem_append] at hid
    rcases hid with hid | hid
    · exact hin.added id hid
    · obtain rfl : some (.inserted id) = o := by simpa using hid
      cases h.stepped hm hs with
      | inserted b clock t fd ht =>
        -- What is inserted belonged to the functor, not to the batch.
        rw [← hin.held]
        intro hheld
        obtain ⟨v, hv, ho⟩ := ((howned.placed b).held).mp hheld
        obtain ⟨w, hw, ho'⟩ := ((howned.placed b).created).mp hm.1
        rw [ho] at ho'
        cases ho'

theorem inBatch_run (h : Sound u) (hr : machine.Run u tr s')
    (hend : ∀ c, .endRead c ∉ tr.map Prod.fst) (hin : InBatch s now [] u) :
    InBatch s now tr s' := by
  refine hr.snoc_induction (P := fun tr s' => (∀ c, .endRead c ∉ tr.map Prod.fst) →
    InBatch s now tr s') (fun _ => hin) ?_ hend
  intro tr v l o w hrun ih hm hs hend
  refine inBatch_step (sound_inductive.run hrun h) hm hs (fun c hc => ?_) (ih fun c hc => ?_)
  · exact hend c (by simp [hc])
  · exact hend c (by rw [List.map_append]; exact List.mem_append_left _ hc)

/-- `reset` at the end of the batch, told by what was cancelled during it. -/
theorem inBatch_end (h : Sound u) {clock : Int} (hm : may u (.endRead clock))
    (hs : step u (.endRead clock) = .ok (o, s')) (hin : InBatch s now tr u) (he : e ∈ s.due now)
    (ht : s.heap e.timer = some t) :
    if t.repeats = true ∧ .cancelTimerInLoop ⟨e.timer, t.sequence⟩ ∉ tr.map Prod.fst then
      s'.heap e.timer = some { t with expiration := now + t.interval.micros } ∧
        entry (now + t.interval.micros) e.timer ∈ s'.timers
    else s'.heap e.timer = none ∧ ∀ x, entry x e.timer ∉ s'.timers := by
  obtain ⟨owner', howned'⟩ := (sound_inductive.run (run_single hm hs) h).owned
  obtain ⟨done, waiting, hb, hdue, -⟩ := hin.batch
  obtain ⟨r, fd, hr, rfl⟩ := endRead_readd hb hs
  obtain ⟨owner, howned⟩ := h.owned
  have hnodup := howned.nodup_held
  rw [hin.held, ← hdue] at hnodup
  have hsettles := readd_settles hr hnodup (a := e.timer) (t := t)
    (by rw [hdue]; exact List.mem_map_of_mem he) ((hin.heap e he).trans ht)
  have hnoted := hin.noted e he t.sequence
  split
  · next hagain =>
    rw [if_pos ⟨hagain.1, fun hnote => hagain.2 (hnoted.mp hnote)⟩, Timer.restart,
      if_pos hagain.1] at hsettles
    exact hsettles
  · next hagain =>
    rw [if_neg fun hnot => hagain ⟨hnot.1, fun hcancel => hnot.2 (hnoted.mpr hcancel)⟩] at hsettles
    refine ⟨hsettles, fun x hx => ?_⟩
    obtain ⟨v, hv, -⟩ := howned'.live_of_mem hx
    cases hsettles.symm.trans hv

/-- `reset` leaves alone what was not due. -/
theorem inBatch_end_later (h : Sound s) {clock : Int} (hm : may u (.endRead clock))
    (hs : step u (.endRead clock) = .ok (o, s')) (hin : InBatch s now tr u)
    (ht : s.heap a = some t) (hmem : entry t.expiration a ∈ s.timers) (hlater : now < t.expiration)
    (hnot : .cancelTimerInLoop ⟨a, t.sequence⟩ ∉ tr.map Prod.fst) :
    s'.heap a = some t ∧ entry t.expiration a ∈ s'.timers := by
  obtain ⟨hheap, hmem'⟩ := hin.later a t ht hmem hlater hnot
  obtain ⟨b, hb, -⟩ := hm
  obtain ⟨r, fd, hr, rfl⟩ := endRead_readd hb hs
  obtain ⟨hframe, hkept⟩ := readd_frame hr
  refine ⟨(hframe a fun ha => ?_).trans hheap, hkept _ hmem'⟩
  -- A timer of the batch is due.
  rw [← held_of_some hb, hin.held] at ha
  obtain ⟨e, he, rfl⟩ := List.mem_map.mp ha
  obtain ⟨hmem'', hdue⟩ := h.mem_due.mp he
  obtain ⟨owner, howned⟩ := h.owned
  obtain ⟨v, hv, hexp, -⟩ := howned.live_of_mem hmem''
  obtain rfl := Option.some.inj (ht.symm.trans hv)
  omega

/-- Nothing keeps `handleRead` from its return but the callbacks that wait. -/
theorem handleRead_returns (h : Sound u) (clock : Int) {b : Batch} (hb : u.batch = some b) :
    ∃ tr s' o, machine.Run u (tr ++ [(.endRead clock, o)]) s' ∧
      tr.map Prod.fst = List.replicate b.waiting.length .run := by
  obtain ⟨now, done, waiting⟩ := b
  induction waiting generalizing u done with
  | nil =>
    obtain ⟨o, s', hs, -⟩ := sound_inductive u (.endRead clock) h ⟨_, hb, rfl⟩
    exact ⟨[], s', o, run_single ⟨_, hb, rfl⟩ hs, rfl⟩
  | cons e rest ih =>
    have hm : may u .run := ⟨_, hb, List.cons_ne_nil e rest⟩
    obtain ⟨_, _, d, _, t, hb', -, hs⟩ := step_run h hm
    obtain ⟨rfl, rfl, heq⟩ := Batch.mk.inj (Option.some.inj (hb.symm.trans hb'))
    obtain ⟨rfl, rfl⟩ := List.cons.inj heq
    obtain ⟨tr, s', o, hr, hruns⟩ := ih (sound_inductive.run (run_single hm hs) h) _ rfl
    refine ⟨_ :: tr, s', o, (run_single hm hs).append hr, ?_⟩
    rw [List.map_cons, hruns]
    rfl

/-! ### From the call to the return -/

/-- The batch as the last callback leaves it, and the `reset` that follows. -/
theorem HandlesRead.cut (h : Sound s) (hr : HandlesRead s now tr s') : ∃ u clock o, Sound u ∧
    InBatch s now tr u ∧ may u (.endRead clock) ∧ step u (.endRead clock) = .ok (o, s') := by
  obtain ⟨o, clock, o', hrun, hend⟩ := hr
  cases hrun with
  | cons hm hs hrun =>
    obtain ⟨u, hpre, hlast⟩ := hrun.split
    have hsound := sound_inductive.run (run_single (l := .beginRead now) hm hs) h
    cases hlast with
    | cons hm' hs' hnil =>
      cases hnil
      exact ⟨u, clock, o', sound_inductive.run hpre hsound,
        inBatch_run hsound hpre hend (inBatch_begin h hm hs), hm', hs'⟩

/-- The callbacks of one `handleRead` are those of the due timers, in the queue's order. -/
theorem HandlesRead.fired_eq (h : Sound s) (hr : HandlesRead s now tr s') :
    fired tr = (s.due now).filterMap s.idAt := by
  obtain ⟨u, clock, o, -, hin, ⟨b, hb, hwaiting⟩, -⟩ := hr.cut h
  obtain ⟨done, waiting, hb', hdue, hfired⟩ := hin.batch
  obtain rfl := Option.some.inj ((show u.batch = some b from hb).symm.trans hb')
  obtain rfl : waiting = [] := hwaiting
  rw [hfired, ← hdue, List.append_nil]

theorem idAt_eq_some {id : TimerId} : s.idAt e = some id ↔
    e.timer = id.timer ∧ ∃ t, s.heap id.timer = some t ∧ t.sequence = id.sequence := by
  obtain ⟨timer, sequence⟩ := id
  simp only [State.idAt, Option.map_eq_some_iff, TimerId.mk.injEq]
  constructor
  · rintro ⟨t, ht, rfl, rfl⟩
    exact ⟨rfl, t, ht, rfl⟩
  · rintro ⟨rfl, t, ht, rfl⟩
    exact ⟨t, ht, rfl, rfl⟩

theorem Sound.expiration_eq (h : Sound s) {id : TimerId} (he : e ∈ s.timers)
    (hat : s.idAt e = some id) (ht : s.heap id.timer = some t) : t.expiration = e.expiration := by
  obtain ⟨owner, howned⟩ := h.owned
  obtain ⟨v, hv, hexp, -⟩ := howned.live_of_mem he
  rw [(idAt_eq_some.mp hat).1] at hv
  rw [Option.some.inj (ht.symm.trans hv), hexp]

/-- The due timers, told by what the heap says of them. -/
theorem Sound.exists_due (h : Sound s) {id : TimerId} :
    (∃ e ∈ s.due now, s.idAt e = some id) ↔ ∃ t, s.heap id.timer = some t ∧
      t.sequence = id.sequence ∧ entry t.expiration id.timer ∈ s.timers ∧ t.expiration ≤ now := by
  constructor
  · rintro ⟨e, he, hat⟩
    obtain ⟨htimer, t, ht, hseq⟩ := idAt_eq_some.mp hat
    obtain ⟨hmem, hdue⟩ := h.mem_due.mp he
    have hexp := h.expiration_eq hmem hat ht
    refine ⟨t, ht, hseq, ?_, hexp ▸ hdue⟩
    rw [hexp, ← htimer]
    exact hmem
  · rintro ⟨t, ht, hseq, hmem, hdue⟩
    exact ⟨_, h.mem_due.mpr ⟨hmem, hdue⟩, idAt_eq_some.mpr ⟨rfl, t, ht, hseq⟩⟩

theorem HandlesRead.mem_fired (h : Sound s) (hr : HandlesRead s now tr s') {id : TimerId} :
    id ∈ fired tr ↔ ∃ e ∈ s.due now, s.idAt e = some id := by
  rw [hr.fired_eq h, List.mem_filterMap]

/-- The batch holds no timer twice, so that none is called twice. -/
theorem HandlesRead.nodup_fired (h : Sound s) (hr : HandlesRead s now tr s') :
    (fired tr).Nodup := by
  obtain ⟨u, clock, o, hu, hin, -⟩ := hr.cut h
  obtain ⟨owner, howned⟩ := hu.owned
  have hnodup := howned.nodup_held
  rw [hin.held] at hnodup
  rw [hr.fired_eq h, List.Nodup, List.pairwise_filterMap]
  refine (List.pairwise_map.mp hnodup).imp fun {d e} hde id hid id' hid' heq => ?_
  rw [← heq] at hid'
  exact hde ((idAt_eq_some.mp hid).1.trans (idAt_eq_some.mp hid').1.symm)

theorem HandlesRead.sorted_fired (h : Sound s) (hr : HandlesRead s now tr s') :
    (fired tr).Pairwise fun id id' => ∀ t t', s.heap id.timer = some t →
      s.heap id'.timer = some t' → t.expiration ≤ t'.expiration := by
  rw [hr.fired_eq h, List.pairwise_filterMap]
  refine (sorted_due s now).imp_of_mem fun {d e} hd he hde id hid id' hid' t t' ht ht' => ?_
  rw [h.expiration_eq (h.mem_due.mp hd).1 hid ht, h.expiration_eq (h.mem_due.mp he).1 hid' ht']
  exact hde

/-- **`handleRead` fires exactly the due timers.** Nothing is asked of the callbacks: what they
add is not fired, and what they cancel is not in the queue when `handleRead` returns. -/
theorem handleRead_fires_due {calling : Bool} {tr₀ : List (Action × Option Event)}
    (h₀ : machine.Run (initial calling) tr₀ s) (h : HandlesRead s now tr s') :
    (∀ id, id ∈ fired tr ↔ ∃ t, s.heap id.timer = some t ∧ t.sequence = id.sequence ∧
      entry t.expiration id.timer ∈ s.timers ∧ t.expiration ≤ now) ∧
    (fired tr).Nodup ∧
    (fired tr).Pairwise (fun id id' => ∀ t t', s.heap id.timer = some t →
      s.heap id'.timer = some t' → t.expiration ≤ t'.expiration) ∧
    (∀ a t, s.heap a = some t → entry t.expiration a ∈ s.timers → now < t.expiration →
      .cancelTimerInLoop ⟨a, t.sequence⟩ ∉ tr.map Prod.fst →
      s'.heap a = some t ∧ entry t.expiration a ∈ s'.timers) ∧
    (∀ id, some (.inserted id) ∈ tr.map Prod.snd → id ∉ fired tr) ∧
    ∀ id t, id ∈ fired tr → s.heap id.timer = some t →
      if t.repeats = true ∧ .cancelTimerInLoop id ∉ tr.map Prod.fst then
        s'.heap id.timer = some { t with expiration := now + t.interval.micros } ∧
          entry (now + t.interval.micros) id.timer ∈ s'.timers
      else s'.heap id.timer = none ∧ ∀ x, entry x id.timer ∉ s'.timers := by
  have hs : Sound s := sound_inductive.run h₀ (sound_initial calling)
  obtain ⟨u, clock, o, hu, hin, hm, hend⟩ := h.cut hs
  refine ⟨fun id => (h.mem_fired hs).trans hs.exists_due, h.nodup_fired hs, h.sorted_fired hs,
    fun a t ht hmem hlater hnot => inBatch_end_later hs hm hend hin ht hmem hlater hnot,
    fun id hid hmem => ?_, fun id t hid ht => ?_⟩
  · obtain ⟨e, he, hat⟩ := (h.mem_fired hs).mp hmem
    obtain ⟨htimer, -⟩ := idAt_eq_some.mp hat
    exact hin.added id hid (List.mem_map.mpr ⟨e, he, htimer⟩)
  · obtain ⟨e, he, hat⟩ := (h.mem_fired hs).mp hid
    obtain ⟨htimer, v, hv, hseq⟩ := idAt_eq_some.mp hat
    obtain rfl := Option.some.inj (ht.symm.trans hv)
    have hsettled := inBatch_end hu hm hend hin he (by rw [htimer]; exact ht)
    obtain ⟨timer, sequence⟩ := id
    obtain rfl : e.timer = timer := htimer
    obtain rfl : t.sequence = sequence := hseq
    exact hsettled

/-- Three timers are due, two of them at `now`. The callback of the first cancels it and adds a
timer of the past, the second's cancels one that is not due. -/
theorem handleRead_fires_due_ties : ∃ tr₀ s tr s', machine.Run (initial false) tr₀ s ∧
    HandlesRead s 100 tr s' ∧ s.timers.elems = [entry 90 9, entry 100 7, entry 100 8, entry 500 10] ∧
    fired tr = [⟨9, 3⟩, ⟨7, 1⟩, ⟨8, 2⟩] ∧ s'.timers.elems = [entry 50 11, entry 150 7] ∧
    (fired tr).Nodup ∧ (∀ id, some (.inserted id) ∈ tr.map Prod.snd → id ∉ fired tr) ∧
    ∀ id, id ∈ fired tr ↔ ∃ t, s.heap id.timer = some t ∧ t.sequence = id.sequence ∧
      entry t.expiration id.timer ∈ s.timers ∧ t.expiration ≤ 100 := by
  obtain ⟨tr₀, s, h₀, -, htimers, hrest⟩ := machine.exists_run_of_replay (s := initial false)
    (P := fun _ s => s.timers.elems = [entry 90 9, entry 100 7, entry 100 8, entry 500 10] ∧
      (machine.replay s [.beginRead 100, .run, .cancelTimerInLoop ⟨9, 3⟩, .create 11 50 .once,
        .addTimerInLoop 11 105, .run, .cancelTimerInLoop ⟨10, 4⟩, .run, .endRead 120]).any
        (fun r : List (Action × Option Event) × State => decide (
          r.1 = (.beginRead 100, none) :: ([(.run, some (.started ⟨9, 3⟩)),
          (.cancelTimerInLoop ⟨9, 3⟩, none), (.create 11 50 .once, some (.issued ⟨11, 5⟩)),
          (.addTimerInLoop 11 105, some (.inserted ⟨11, 5⟩)), (.run, some (.started ⟨7, 1⟩)),
          (.cancelTimerInLoop ⟨10, 4⟩, none), (.run, some (.started ⟨8, 2⟩))] ++
          [(.endRead 120, none)]) ∧ r.2.timers.elems = [entry 50 11, entry 150 7])) = true)
    [.create 7 100 (.every 50), .addTimerInLoop 7 50, .create 8 100 .once, .addTimerInLoop 8 50,
      .create 9 90 (.every 10), .addTimerInLoop 9 50, .create 10 500 .once, .addTimerInLoop 10 50,
      .expire]
    (by decide +kernel)
  obtain ⟨tr, s', h, -, rfl, htimers'⟩ := machine.exists_run_of_replay
    (P := fun tr s' => tr = _ ∧ s'.timers.elems = _) _ hrest
  have hread : HandlesRead s 100 _ s' := ⟨_, _, _, h, by simp⟩
  obtain ⟨hfired, hnodup, -, -, hadded, -⟩ := handleRead_fires_due h₀ hread
  exact ⟨tr₀, s, _, s', h₀, hread, htimers, rfl, htimers', hnodup, hadded, hfired⟩

end Leanet.TimerQueue

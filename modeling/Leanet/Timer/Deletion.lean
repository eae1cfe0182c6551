import Leanet.Timer.Cancel

/-! Who deletes a timer.

Two steps do, a cancellation that finds the timer in the sets and a `reset` that does not insert
it again; the state before says which (`Deletes`). A live timer outlives every other step, and a
deleted one does not come back under its number (`live_iff`, `live_run`). -/
namespace Leanet.TimerQueue

variable {s s' : State} {id : TimerId} {l : Action} {o : Option Event} {a : Nat} {t : Timer}

/-- The step that deletes the timer of this id: its cancellation while it is in the sets, or
`reset` of a batch with it that does not insert it again. -/
def Deletes (s : State) (id : TimerId) : Action → Prop
  | .cancelTimerInLoop timerid =>
    timerid = id ∧ activeTimer id.timer id.sequence ∈ s.activeTimers
  | .endRead _ => id.timer ∈ s.held ∧ ∀ t, s.heap id.timer = some t → t.repeats = true →
    activeTimer id.timer t.sequence ∈ s.cancelingTimers
  | _ => False

/-- The state after the turn of the timer `t` of the entry `e` in the loop of `reset`. -/
def State.resettled (s : State) (now : Int) (e : Entry) (t : Timer) : State :=
  if t.repeats ∧ activeTimer e.timer t.sequence ∉ s.cancelingTimers then
    ({ s with heap := Function.update s.heap e.timer (some (t.restart now)) } : State).queued e.timer
      (t.restart now)
  else { s with heap := Function.update s.heap e.timer none }

theorem resettled_heap_of_ne {now : Int} {e : Entry} (ha : a ≠ e.timer) :
    (s.resettled now e t).heap a = s.heap a := by
  unfold State.resettled
  split <;> exact Function.update_of_ne ha ..

theorem resettled_canceling (s : State) (now : Int) (e : Entry) (t : Timer) :
    (s.resettled now e t).cancelingTimers = s.cancelingTimers := by
  unfold State.resettled
  split <;> rfl

theorem resettled_kept {now : Int} {e x : Entry} (hx : x ∈ s.timers) :
    x ∈ (s.resettled now e t).timers := by
  unfold State.resettled
  split
  · exact OrdSet.mem_insert.mpr (.inr hx)
  · exact hx

theorem readd_cons {now : Int} {e : Entry} {rest : List Entry}
    (h : readd s now (e :: rest) = .ok s') :
    ∃ t, s.heap e.timer = some t ∧ readd (s.resettled now e t) now rest = .ok s' := by
  obtain ⟨t, ht, h⟩ := bind_eq_ok.mp h
  have ht := deref_eq_ok.mp ht
  refine ⟨t, ht, ?_⟩
  unfold State.resettled
  dsimp only at h
  split at h
  · next hagain =>
    rw [insert_eq (t := t.restart now) (Function.update_self ..)] at h
    rw [if_pos hagain]
    exact h
  · next hagain =>
    rw [delete, ht] at h
    rw [if_neg hagain]
    exact h

theorem readd_frame {now : Int} {l : List Entry} (h : readd s now l = .ok s') :
    (∀ a, a ∉ l.map Entry.timer → s'.heap a = s.heap a) ∧ ∀ x ∈ s.timers, x ∈ s'.timers := by
  induction l generalizing s with
  | nil =>
    cases h
    exact ⟨fun _ _ => rfl, fun _ hx => hx⟩
  | cons e rest ih =>
    obtain ⟨t, -, h⟩ := readd_cons h
    obtain ⟨hheap, hkept⟩ := ih h
    refine ⟨fun a ha => ?_, fun x hx => hkept x (resettled_kept hx)⟩
    rw [List.map_cons, List.mem_cons, not_or] at ha
    rw [hheap a ha.2, resettled_heap_of_ne ha.1]

/-- `reset` inserts again what repeats and is not cancelled, and deletes the rest. -/
theorem readd_settles {now : Int} {l : List Entry} (h : readd s now l = .ok s')
    (hnodup : (l.map Entry.timer).Nodup) (ha : a ∈ l.map Entry.timer) (ht : s.heap a = some t) :
    if t.repeats = true ∧ activeTimer a t.sequence ∉ s.cancelingTimers then
      s'.heap a = some (t.restart now) ∧ entry (t.restart now).expiration a ∈ s'.timers
    else s'.heap a = none := by
  induction l generalizing s with
  | nil => cases ha
  | cons e rest ih =>
    obtain ⟨u, hu, h⟩ := readd_cons h
    obtain ⟨hnot, hnodup⟩ := List.nodup_cons.mp hnodup
    by_cases hself : a = e.timer
    · -- The turn of `a` itself; the rest of the batch leaves it alone.
      subst hself
      obtain rfl := Option.some.inj (ht.symm.trans hu)
      obtain ⟨hheap, hkept⟩ := readd_frame h
      have hheap := hheap e.timer hnot
      split
      · next hagain =>
        rw [State.resettled, if_pos hagain] at hheap hkept
        exact ⟨hheap.trans (Function.update_self ..),
          hkept _ (OrdSet.mem_insert.mpr (.inl rfl))⟩
      · next hagain =>
        rw [State.resettled, if_neg hagain] at hheap
        exact hheap.trans (Function.update_self ..)
    · have hmem := (List.mem_cons.mp ha).resolve_left hself
      have hrest := ih h hnodup hmem ((resettled_heap_of_ne hself).trans ht)
      rwa [resettled_canceling] at hrest

/-- What `reset` leaves is what its loop does, but for the timerfd. -/
theorem endRead_readd {clock : Int} {b : Batch} (hb : s.batch = some b)
    (hs : step s (.endRead clock) = .ok (o, s')) : ∃ r fd,
      readd { s with callingExpiredTimers := false, batch := none } b.now (b.done ++ b.waiting) =
        .ok r ∧ s' = { r with timerfd := fd } := by
  simp only [step, hb, deref_some, ok_bind] at hs
  obtain ⟨s₁, hs₁, hs⟩ := bind_eq_ok.mp hs
  cases hs
  obtain ⟨r, hr, hs₁⟩ := bind_eq_ok.mp hs₁
  dsimp only at hs₁
  split at hs₁
  · obtain ⟨u, -, hs₁⟩ := bind_eq_ok.mp hs₁
    simp only [pure_eq_ok, ok_bind] at hs₁
    split at hs₁ <;> cases hs₁ <;> exact ⟨_, _, hr, rfl⟩
  · simp only [pure_eq_ok, ok_bind] at hs₁
    split at hs₁ <;> cases hs₁ <;> exact ⟨_, _, hr, rfl⟩

theorem addTimerInLoop_heap {clock : Int} (hs : step s (.addTimerInLoop a clock) = .ok (o, s')) :
    s'.heap = s.heap := by
  obtain ⟨s₁, hs₁, hs⟩ := bind_eq_ok.mp hs
  obtain ⟨read, -, hs⟩ := bind_eq_ok.mp hs
  cases hs
  -- the insertion reads the timer, so there is one
  have ht : ∃ t, s.heap a = some t := by
    obtain ⟨_, hinsert, -⟩ := bind_eq_ok.mp hs₁
    obtain ⟨t, ht, -⟩ := bind_eq_ok.mp hinsert
    exact ⟨t, deref_eq_ok.mp ht⟩
  obtain ⟨t, ht⟩ := ht
  rw [addTimerInLoop_eq (s := { s with created := s.created.erase a }) ht] at hs₁
  cases hs₁
  split <;> rfl

theorem run_single (hm : may s l) (hs : step s l = .ok (o, s')) : machine.Run s [(l, o)] s' :=
  .single hm hs

theorem live_run {tr : List (Action × Option Event)} (h : Sound s) (hr : machine.Run s tr s')
    (hnum : id.sequence ≤ s.numCreated) :
    s.numCreated ≤ s'.numCreated ∧ (s'.Live id → s.Live id) := by
  induction hr with
  | nil => exact ⟨le_rfl, fun hl => hl⟩
  | cons hm hs _ ih =>
    obtain ⟨hmono, hback⟩ := live_step h hm hs hnum
    obtain ⟨hmono', hback'⟩ := ih (sound_inductive.run (.single hm hs) h) (hnum.trans hmono)
    exact ⟨hmono.trans hmono', fun hl => hback (hback' hl)⟩

/-- A cancellation deletes the timer of its id if that is in the sets, and no other. -/
theorem live_iff_cancel (h : Sound s) {timerid : TimerId}
    (hs : step s (.cancelTimerInLoop timerid) = .ok (o, s')) (hl : s.Live id) :
    s'.Live id ↔ ¬ Deletes s id (.cancelTimerInLoop timerid) := by
  obtain ⟨t, ht, hseq⟩ := hl
  by_cases hactive : activeTimer timerid.timer timerid.sequence ∈ s.activeTimers
  · obtain ⟨u, hu, huseq, hrun⟩ := step_cancel_active h hactive
    rw [hrun] at hs
    cases hs
    by_cases ha : id.timer = timerid.timer
    · have hid : timerid = id := by
        rw [ha] at ht
        obtain rfl := Option.some.inj (ht.symm.trans hu)
        obtain ⟨timer, sequence⟩ := timerid
        obtain ⟨timer', sequence'⟩ := id
        rw [TimerId.mk.injEq]
        exact ⟨ha.symm, huseq.symm.trans hseq⟩
      subst hid
      refine iff_of_false ?_ (not_not.mpr ⟨rfl, hactive⟩)
      rintro ⟨v, hv, -⟩
      simp [State.cancelled] at hv
    · refine iff_of_true ⟨t, (Function.update_of_ne ha ..).trans ht, hseq⟩ ?_
      rintro ⟨rfl, -⟩
      exact ha rfl
  · rw [step_cancel_noted hactive] at hs
    cases hs
    refine iff_of_true ⟨t, ht, hseq⟩ ?_
    rintro ⟨rfl, hmem⟩
    exact hactive hmem

/-- `reset` deletes the timers of the batch that it does not insert again. -/
theorem live_iff_endRead (h : Sound s) {clock : Int} (hm : may s (.endRead clock))
    (hs : step s (.endRead clock) = .ok (o, s')) (hl : s.Live id) :
    s'.Live id ↔ ¬ Deletes s id (.endRead clock) := by
  obtain ⟨t, ht, hseq⟩ := hl
  obtain ⟨b, hb, -⟩ := hm
  have hb : s.batch = some b := hb
  obtain ⟨r, fd, hr, rfl⟩ := endRead_readd hb hs
  obtain ⟨owner, howned⟩ := h.owned
  have hnodup := howned.nodup_held
  rw [Deletes]
  by_cases hheld : id.timer ∈ s.held
  · have hmem := hheld
    rw [held_of_some hb] at hmem hnodup
    have hsettles := readd_settles hr hnodup hmem ht
    by_cases hagain : t.repeats = true ∧ activeTimer id.timer t.sequence ∉ s.cancelingTimers
    · rw [if_pos hagain] at hsettles
      have hrestart : t.restart b.now = { t with expiration := b.now + t.interval.micros } :=
        if_pos hagain.1
      refine iff_of_true ⟨_, hsettles.1, by rw [hrestart, hseq]⟩ ?_
      rintro ⟨-, hgone⟩
      exact hagain.2 (hgone t ht hagain.1)
    · rw [if_neg hagain] at hsettles
      refine iff_of_false ?_ (not_not.mpr ⟨hheld, fun u hu hrepeats => ?_⟩)
      · rintro ⟨u, hu, -⟩
        rw [hsettles] at hu
        cases hu
      · obtain rfl := Option.some.inj (ht.symm.trans hu)
        by_contra hnot
        exact hagain ⟨hrepeats, hnot⟩
  · have hsame : r.heap id.timer = s.heap id.timer := by
      rw [held_of_some hb] at hheld
      exact (readd_frame hr).1 _ hheld
    exact iff_of_true ⟨t, hsame.trans ht, hseq⟩ fun hgone => hheld hgone.1

/-- A live timer lives on unless the step is the one that deletes it. -/
theorem live_iff (h : Sound s) (hm : may s l) (hs : step s l = .ok (o, s')) (hl : s.Live id) :
    s'.Live id ↔ ¬ Deletes s id l := by
  cases l with
  | cancelTimerInLoop timerid => exact live_iff_cancel h hs hl
  | endRead clock => exact live_iff_endRead h hm hs hl
  | create a when interval =>
    cases hs
    obtain ⟨t, ht, hseq⟩ := hl
    have hne : id.timer ≠ a := by
      rintro rfl
      rw [hm.1] at ht
      cases ht
    exact iff_of_true ⟨t, (Function.update_of_ne hne ..).trans ht, hseq⟩ not_false
  | addTimerInLoop a clock =>
    cases h.stepped hm hs with
    | inserted => exact iff_of_true hl not_false
  | beginRead now =>
    cases h.stepped hm hs with
    | extracted => exact iff_of_true hl not_false
  | run =>
    cases h.stepped hm hs with
    | started => exact iff_of_true hl not_false
  | expire =>
    cases hs
    exact iff_of_true hl not_false

end Leanet.TimerQueue

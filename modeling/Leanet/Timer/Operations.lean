import Leanet.Timer.Ownership

/-! The operations of the timer queue keep the ownership.

Each operation is evaluated under `Owned`: every pointer it follows is live, every
`n == 1` holds, and what it leaves is `Owned` again. `readd_spec` says besides what
becomes of the batch: a timer that is not cancelled and repeats is back in the sets, the
others are gone. `Stepped` writes out what a step can do, for whatever else is to be shown
of every step; `sound_inductive` says that every request is answered. -/
namespace Leanet.TimerQueue

variable {owner : Nat → Owner} {created held : List Nat} {s : State} {a : Nat} {t : Timer}

/-! ### Adding and cancelling -/

theorem addTimerInLoop_eq (ha : s.heap a = some t) (clock : Int) :
    addTimerInLoop s clock a = .ok
      (if s.isEarliest t then resetTimerfd (s.queued a t) clock t.expiration else s.queued a t) := by
  have hq : (s.queued a t).heap a = some t := ha
  simp only [addTimerInLoop, insert_eq ha, ok_bind]
  split
  · rw [hq]
    rfl
  · rfl

/-- The state after the cancellation of an active timer. -/
def State.cancelled (s : State) (id : TimerId) (t : Timer) : State :=
  { s with
    heap := Function.update s.heap id.timer none
    timers := s.timers.erase (entry t.expiration id.timer)
    activeTimers := s.activeTimers.erase (activeTimer id.timer id.sequence) }

theorem cancel_of_active (h : Owned owner created held s) {id : TimerId}
    (hactive : activeTimer id.timer id.sequence ∈ s.activeTimers) :
    ∃ t, s.heap id.timer = some t ∧ t.sequence = id.sequence ∧ owner id.timer = .queue ∧
      cancelTimerInLoop s id = .ok (s.cancelled id t) := by
  obtain ⟨t, ha, hq, ho⟩ := ((h.placed id.timer).active id.sequence).mp hactive
  refine ⟨t, ha, hq, ho, ?_⟩
  have hmem : entry t.expiration id.timer ∈ s.timers := (h.mem_timers ha).mpr ⟨rfl, ho⟩
  simp only [cancelTimerInLoop, if_pos hactive, ha, deref_some, ok_bind,
    assert_holds (OrdSet.count_of_mem hmem), delete]
  rfl

theorem owned_cancelled (h : Owned owner created held s) {id : TimerId}
    (ha : s.heap id.timer = some t) (hq : t.sequence = id.sequence) :
    Owned (Function.update owner id.timer .functor) (created.erase id.timer) (held.erase id.timer)
      (s.cancelled id t) := by
  refine owned_delete h rfl rfl (fun e b => ?_) (fun b q => ?_)
  · simp only [State.cancelled, OrdSet.mem_erase, ne_eq, entry_inj, not_and]
    constructor
    · rintro ⟨hne, hmem⟩
      refine ⟨?_, hmem⟩
      rintro rfl
      exact hne ((h.mem_timers ha).mp hmem).1.symm rfl
    · rintro ⟨hb, hmem⟩
      exact ⟨fun _ => hb, hmem⟩
  · simp only [State.cancelled, OrdSet.mem_erase, ne_eq, activeTimer_inj, not_and]
    constructor
    · rintro ⟨hne, hmem⟩
      refine ⟨?_, hmem⟩
      rintro rfl
      exact hne rfl (hq ▸ ((h.mem_active ha).mp hmem).1.symm)
    · rintro ⟨hb, hmem⟩
      exact ⟨fun heq => absurd heq hb, hmem⟩

/-- Of a timer that is not active only a note is taken, and only in a batch. -/
theorem cancel_of_not_active {id : TimerId}
    (hactive : activeTimer id.timer id.sequence ∉ s.activeTimers) :
    cancelTimerInLoop s id = .ok { s with
      cancelingTimers := if s.callingExpiredTimers then
        s.cancelingTimers.insert (activeTimer id.timer id.sequence) else s.cancelingTimers } := by
  simp only [cancelTimerInLoop, if_neg hactive]
  split <;> rfl

/-! ### `getExpired` -/

/-- The loop of `getExpired` over live, active timers with distinct addresses. -/
theorem deactivate_spec (s : State) (l : List Entry) (hnodup : (l.map Entry.timer).Nodup)
    (hlive : ∀ e ∈ l, ∃ t, s.heap e.timer = some t ∧
      ∀ q, activeTimer e.timer q ∈ s.activeTimers ↔ t.sequence = q) :
    ∃ active, deactivate s l = .ok { s with activeTimers := active } ∧
      ∀ b q, activeTimer b q ∈ active ↔ activeTimer b q ∈ s.activeTimers ∧ b ∉ l.map Entry.timer := by
  induction l generalizing s with
  | nil => exact ⟨s.activeTimers, rfl, by simp⟩
  | cons e rest ih =>
    obtain ⟨t, ht, hq⟩ := hlive e List.mem_cons_self
    obtain ⟨hnot, hnodup⟩ := List.nodup_cons.mp hnodup
    have hcount := OrdSet.count_of_mem ((hq t.sequence).mpr rfl)
    simp only [deactivate, ht, deref_some, ok_bind, assert_holds hcount]
    have hother {b q : Nat} (hb : b ≠ e.timer) :
        activeTimer b q ∈ s.activeTimers.erase (activeTimer e.timer t.sequence) ↔
          activeTimer b q ∈ s.activeTimers := by
      simp [activeTimer_inj, hb]
    obtain ⟨active, hrun, hactive⟩ := ih { s with
      activeTimers := s.activeTimers.erase (activeTimer e.timer t.sequence) } hnodup (fun d hd => by
        obtain ⟨u, hu, huq⟩ := hlive d (List.mem_cons_of_mem _ hd)
        have hne : d.timer ≠ e.timer := fun heq => hnot (heq ▸ List.mem_map_of_mem hd)
        exact ⟨u, hu, fun q => by rw [← huq q]; exact hother hne⟩)
    refine ⟨active, hrun, fun b q => ?_⟩
    rw [hactive, List.map_cons, List.mem_cons, not_or]
    by_cases hb : b = e.timer
    · subst hb
      have hgone : activeTimer e.timer q ∉ s.activeTimers.erase (activeTimer e.timer t.sequence) := by
        simp only [OrdSet.mem_erase, ne_eq, activeTimer_inj, true_and, not_and]
        exact fun hne hmem => hne ((hq q).mp hmem).symm
      simp [hgone]
    · simp only [hother hb, hb, not_false_eq_true, true_and]

theorem lt_expiration {now : Int} {e : Entry} (haddr : e.timer < UINTPTR_MAX) :
    entry now UINTPTR_MAX ≤ e ↔ now < e.expiration := by
  rw [← entry_eta e, entry, entry, Prod.Lex.toLex_le_toLex]
  show now < e.expiration ∨ now = e.expiration ∧ UINTPTR_MAX ≤ e.timer ↔ now < e.expiration
  omega

theorem Owned.live_of_mem (h : Owned owner created held s) {e : Entry} (he : e ∈ s.timers) :
    ∃ t, s.heap e.timer = some t ∧ t.expiration = e.expiration ∧ owner e.timer = .queue :=
  ((h.placed e.timer).timers e.expiration).mp he

/-- The expired timers go over to the batch. -/
theorem getExpired_spec (h : Owned owner created [] s) (now : Int) :
    ∃ expired active, getExpired s now = .ok (expired, { s with
        timers := s.timers.notBelow (entry now UINTPTR_MAX), activeTimers := active }) ∧
      expired = s.timers.below (entry now UINTPTR_MAX) ∧
      Owned (fun a => if a ∈ expired.map Entry.timer then .batch else owner a) created
        (expired.map Entry.timer) { s with
          timers := s.timers.notBelow (entry now UINTPTR_MAX), activeTimers := active } := by
  have hlater : ∀ e ∈ (s.timers.notBelow (entry now UINTPTR_MAX)).first, now < e.expiration := by
    intro e he
    obtain ⟨hmem, hle⟩ := OrdSet.mem_notBelow.mp (OrdSet.first_mem he)
    obtain ⟨t, ht, -, -⟩ := h.live_of_mem hmem
    exact (lt_expiration (h.fresh _ t ht).2).mp hle
  have hmem : ∀ e ∈ s.timers.below (entry now UINTPTR_MAX), e ∈ s.timers :=
    fun e he => (OrdSet.mem_below.mp he).1
  -- Two entries of one address would have one expiration, and be one entry.
  have hnodup : ((s.timers.below (entry now UINTPTR_MAX)).map Entry.timer).Nodup := by
    refine (OrdSet.nodup_below _ _).map_on fun d hd e he heq => ?_
    obtain ⟨t, ht, htd, -⟩ := h.live_of_mem (hmem d hd)
    obtain ⟨u, hu, hue, -⟩ := h.live_of_mem (hmem e he)
    rw [heq] at ht
    obtain rfl := Option.some.inj (ht.symm.trans hu)
    rw [← entry_eta d, ← entry_eta e, heq, ← htd, hue]
  obtain ⟨active, hrun, hactive⟩ := deactivate_spec { s with
    timers := s.timers.notBelow (entry now UINTPTR_MAX) } _ hnodup (fun e he => by
      obtain ⟨t, ht, -, ho⟩ := h.live_of_mem (hmem e he)
      exact ⟨t, ht, fun q => by rw [h.mem_active ht]; simp [ho]⟩)
  refine ⟨_, active, ?_, rfl, fun a => ?_, h.nodup_created, hnodup, h.fresh, h.distinct⟩
  · simp only [getExpired, assert_holds hlater, ok_bind, hrun]
    rfl
  · obtain ⟨hta, hac, hc, hh⟩ := h.placed a
    by_cases ha : a ∈ (s.timers.below (entry now UINTPTR_MAX)).map Entry.timer
    · obtain ⟨e, he, rfl⟩ := List.mem_map.mp ha
      obtain ⟨t, ht, hte, ho⟩ := h.live_of_mem (hmem e he)
      have hbelow : ∀ e', entry e' e.timer ∉ s.timers.notBelow (entry now UINTPTR_MAX) := by
        intro e' he'
        obtain ⟨hmem', hle⟩ := OrdSet.mem_notBelow.mp he'
        obtain ⟨rfl, -⟩ := (h.mem_timers ht).mp hmem'
        rw [hte, entry_eta] at hle
        exact absurd hle (not_le.mpr (OrdSet.mem_below.mp he).2)
      rw [if_pos ha]
      exact ⟨fun e' => by simp [hbelow e'], fun q => by simp [hactive, ha],
        by simp [h.mem_created ht, ho], by simp [ha, ht]⟩
    · rw [if_neg ha]
      refine ⟨fun e' => ?_, fun q => ?_, hc, ?_⟩
      · rw [← hta e', OrdSet.mem_notBelow]
        refine and_iff_left_of_imp fun hmem' => not_lt.mp fun hlt => ha ?_
        exact List.mem_map.mpr ⟨_, OrdSet.mem_below.mpr ⟨hmem', hlt⟩, rfl⟩
      · rw [hactive, ← hac q]
        exact and_iff_left ha
      · rw [iff_false_left ha]
        simpa using hh

/-! ### `reset` -/

/-- What the loop of `reset` leaves of `s`, after the batch `l`. -/
structure Readded (s : State) (now : Int) (l : List Entry) (s' : State) : Prop where
  /-- A timer is what it was, or a timer of the batch that goes on. -/
  heap : ∀ a u, s'.heap a = some u → ∃ t, s.heap a = some t ∧ u.sequence = t.sequence ∧
    (a ∈ l.map Entry.timer → t.repeats = true ∧ activeTimer a t.sequence ∉ s.cancelingTimers)
  frame : ∀ a, a ∉ l.map Entry.timer → s'.heap a = s.heap a
  timers : ∀ x, x ∈ s'.timers → x ∈ s.timers ∨ now ≤ x.expiration
  kept : ∀ x, x ∈ s.timers → x ∈ s'.timers
  numCreated : s'.numCreated = s.numCreated
  created : s'.created = s.created
  batch : s'.batch = s.batch
  calling : s'.callingExpiredTimers = s.callingExpiredTimers
  canceling : s'.cancelingTimers = s.cancelingTimers
  timerfd : s'.timerfd = s.timerfd

/-- One more timer of the batch, in front of the rest. -/
theorem Readded.cons {now : Int} {e : Entry} {rest : List Entry} {s₁ s' : State}
    (h : Readded s₁ now rest s') (ht : s.heap e.timer = some t)
    (hat : ∀ u, s₁.heap e.timer = some u → u.sequence = t.sequence ∧ t.repeats = true ∧
      activeTimer e.timer t.sequence ∉ s.cancelingTimers)
    (hheap : ∀ a, a ≠ e.timer → s₁.heap a = s.heap a)
    (htimers : ∀ x, x ∈ s₁.timers → x ∈ s.timers ∨ now ≤ x.expiration)
    (hkept : ∀ x, x ∈ s.timers → x ∈ s₁.timers) (hnum : s₁.numCreated = s.numCreated)
    (hcreated : s₁.created = s.created) (hbatch : s₁.batch = s.batch)
    (hcalling : s₁.callingExpiredTimers = s.callingExpiredTimers)
    (hcanceling : s₁.cancelingTimers = s.cancelingTimers) (hfd : s₁.timerfd = s.timerfd) :
    Readded s now (e :: rest) s' := by
  refine ⟨fun a u hu => ?_, fun a ha => ?_, fun x hx => (h.timers x hx).elim (htimers x) .inr,
    fun x hx => h.kept x (hkept x hx), h.numCreated.trans hnum, h.created.trans hcreated,
    h.batch.trans hbatch, h.calling.trans hcalling, h.canceling.trans hcanceling,
    h.timerfd.trans hfd⟩
  · obtain ⟨v, hv, huv, hagain⟩ := h.heap a u hu
    by_cases ha : a = e.timer
    · subst ha
      obtain ⟨hvt, hrest⟩ := hat v hv
      exact ⟨t, ht, huv.trans hvt, fun _ => hrest⟩
    · rw [hheap a ha] at hv
      refine ⟨v, hv, huv, fun hmem => ?_⟩
      rw [← hcanceling]
      exact hagain ((List.mem_cons.mp hmem).resolve_left ha)
  · rw [List.map_cons, List.mem_cons, not_or] at ha
    rw [h.frame a ha.2, hheap a ha.1]

theorem readd_spec (h : Owned owner created held s) (now : Int) (l : List Entry)
    (hl : held = l.map Entry.timer) :
    ∃ owner' s', readd s now l = .ok s' ∧ Owned owner' created [] s' ∧ Readded s now l s' := by
  induction l generalizing owner held s with
  | nil =>
    subst hl
    exact ⟨owner, s, rfl, h, ⟨fun a u hu => ⟨u, hu, rfl, by simp⟩, fun _ _ => rfl, fun _ => .inl,
      fun _ => id, rfl, rfl, rfl, rfl, rfl, rfl⟩⟩
  | cons e rest ih =>
    obtain ⟨t, ht, ho⟩ := ((h.placed e.timer).held).mp (by rw [hl]; exact List.mem_cons_self)
    have hcreated : created.erase e.timer = created := by
      refine List.erase_of_not_mem fun hmem => ?_
      rw [h.mem_created ht, ho] at hmem
      cases hmem
    have hheld : held.erase e.timer = rest.map Entry.timer := by simp [hl]
    simp only [readd, ht, deref_some, ok_bind]
    by_cases hagain : t.repeats = true ∧ activeTimer e.timer t.sequence ∉ s.cancelingTimers
    · -- Restarted, and in the sets again.
      let s₁ : State := { s with heap := Function.update s.heap e.timer (some (t.restart now)) }
      have hrestart : t.restart now = { t with expiration := now + t.interval.micros } :=
        if_pos hagain.1
      have ht₁ : s₁.heap e.timer = some (t.restart now) := Function.update_self ..
      have howned := owned_insert (owned_restart h ht ho (u := t.restart now) (by rw [hrestart]))
        ht₁ (by rw [ho]; exact nofun)
      rw [hcreated, hheld] at howned
      obtain ⟨owner', s', hrun, howned', hreadded⟩ := ih howned rfl
      rw [if_pos hagain, insert_eq ht₁]
      refine ⟨owner', s', hrun, howned', hreadded.cons ht (fun u hu => ?_) (fun a ha => ?_)
        (fun x hx => ?_) (fun x hx => ?_) rfl rfl rfl rfl rfl rfl⟩
      · obtain rfl := Option.some.inj (ht₁.symm.trans hu)
        exact ⟨by rw [hrestart], hagain⟩
      · exact Function.update_of_ne ha ..
      · rcases OrdSet.mem_insert.mp hx with rfl | hx
        · right
          have hnonneg := t.interval.nonneg hagain.1
          show now ≤ (t.restart now).expiration
          rw [hrestart]
          exact Int.le_add_of_nonneg_right hnonneg
        · exact .inl hx
      · exact OrdSet.mem_insert.mpr (.inr hx)
    · -- Deleted.
      have howned : Owned (Function.update owner e.timer .functor) (created.erase e.timer)
          (held.erase e.timer) { s with heap := Function.update s.heap e.timer none } := by
        refine owned_delete h rfl rfl (fun e' b => ?_) (fun b q => ?_)
        · refine (and_iff_right_of_imp ?_).symm
          rintro hmem rfl
          rw [h.mem_timers ht, ho] at hmem
          cases hmem.2
        · refine (and_iff_right_of_imp ?_).symm
          rintro hmem rfl
          rw [h.mem_active ht, ho] at hmem
          cases hmem.2
      rw [hcreated, hheld] at howned
      obtain ⟨owner', s', hrun, howned', hreadded⟩ := ih howned rfl
      simp only [if_neg hagain, delete, ht, deref_some, ok_bind, pure_eq_ok]
      refine ⟨owner', s', hrun, howned', hreadded.cons ht (fun u hu => ?_) (fun a ha => ?_)
        (fun x hx => .inl hx) (fun x hx => hx) rfl rfl rfl rfl rfl rfl⟩
      · simp at hu
      · exact Function.update_of_ne ha ..

/-- The state after a reading of the timerfd is requested for the earliest timer left. -/
def State.rearmed (s : State) (clock : Int) : State :=
  match s.timers.first with
  | none => s
  | some e => if 0 < e.expiration then resetTimerfd s clock e.expiration else s

theorem reset_eq {expired : List Entry} {s' : State} {clock now : Int}
    (hrun : readd s now expired = .ok s') (h : Owned owner created [] s') :
    reset s clock now expired = .ok (s'.rearmed clock) := by
  simp only [reset, hrun, ok_bind, State.rearmed]
  cases hfirst : s'.timers.first with
  | none => rfl
  | some e =>
    obtain ⟨t, ht, hte, -⟩ := h.live_of_mem (OrdSet.first_mem hfirst)
    simp only [ht, deref_some, ok_bind, pure_eq_ok, hte]
    split <;> rfl

/-! ### One step of the machine -/

/-- The invariant of the timer queue. -/
structure Sound (s : State) : Prop where
  owned : ∃ owner, Owned owner s.created s.held s
  calling : s.batch ≠ none → s.callingExpiredTimers = true

theorem sound_initial (calling : Bool) : Sound (initial calling) :=
  ⟨⟨_, owned_initial calling⟩, fun h => absurd rfl h⟩

/-- The state after `addTimerInLoop` of the timer `t` at `a`. -/
def State.added (s : State) (a : Nat) (t : Timer) (clock : Int) : State :=
  if s.isEarliest t then resetTimerfd (s.queued a t) clock t.expiration else s.queued a t

theorem step_add (h : Sound s) {clock : Int} (hm : may s (.addTimerInLoop a clock)) :
    ∃ t, s.heap a = some t ∧ step s (.addTimerInLoop a clock) =
      .ok (some (.inserted ⟨a, t.sequence⟩),
        ({ s with created := s.created.erase a } : State).added a t clock) := by
  obtain ⟨owner, howned⟩ := h.owned
  obtain ⟨t, ht, -⟩ := ((howned.placed a).created).mp hm.1
  refine ⟨t, ht, ?_⟩
  have ht' : ({ s with created := s.created.erase a } : State).heap a = some t := ht
  simp only [step, addTimerInLoop_eq ht', ok_bind, State.added]
  split
  · simp only [identify, resetTimerfd, State.queued, ht, deref_some, ok_bind, pure_eq_ok]
  · simp only [identify, State.queued, ht, deref_some, ok_bind, pure_eq_ok]

theorem step_cancel_active (h : Sound s) {id : TimerId}
    (hactive : activeTimer id.timer id.sequence ∈ s.activeTimers) :
    ∃ t, s.heap id.timer = some t ∧ t.sequence = id.sequence ∧
      step s (.cancelTimerInLoop id) = .ok (none, s.cancelled id t) := by
  obtain ⟨owner, howned⟩ := h.owned
  obtain ⟨t, ht, hq, -, hrun⟩ := cancel_of_active howned hactive
  exact ⟨t, ht, hq, by simp only [step, hrun, ok_bind, pure_eq_ok]⟩

theorem step_cancel_noted {id : TimerId}
    (hactive : activeTimer id.timer id.sequence ∉ s.activeTimers) :
    step s (.cancelTimerInLoop id) = .ok (none, { s with
      cancelingTimers := if s.callingExpiredTimers then
        s.cancelingTimers.insert (activeTimer id.timer id.sequence) else s.cancelingTimers }) := by
  simp only [step, cancel_of_not_active hactive, ok_bind, pure_eq_ok]

theorem held_of_none (h : s.batch = none) : s.held = [] := by simp [State.held, h]

/-- The batch is held while the expired timers are called. -/
theorem Sound.calling_of_held (h : Sound s) (hheld : a ∈ s.held) : s.callingExpiredTimers = true := by
  refine h.calling fun hnone => ?_
  rw [held_of_none hnone] at hheld
  cases hheld

theorem held_of_some {b : Batch} (h : s.batch = some b) :
    s.held = (b.done ++ b.waiting).map Entry.timer := by simp [State.held, h]

/-- The state after `handleRead` up to the first callback. -/
def State.extracted (s : State) (now : Int) (active : OrdSet ActiveTimer) : State :=
  { readTimerfd s with
    timers := s.timers.notBelow (entry now UINTPTR_MAX)
    activeTimers := active
    callingExpiredTimers := true
    cancelingTimers := .empty
    batch := some ⟨now, [], s.timers.below (entry now UINTPTR_MAX)⟩ }

theorem readTimerfd_eq (s : State) : ∃ fd, readTimerfd s = { s with timerfd := fd } := by
  unfold readTimerfd
  split
  · exact ⟨_, rfl⟩
  · exact ⟨s.timerfd, rfl⟩

theorem step_beginRead (h : Sound s) {now : Int} (hm : may s (.beginRead now)) :
    ∃ active owner, step s (.beginRead now) = .ok (none, s.extracted now active) ∧
      Owned owner s.created ((s.timers.below (entry now UINTPTR_MAX)).map Entry.timer)
        (s.extracted now active) := by
  obtain ⟨owner, howned⟩ := h.owned
  rw [held_of_none (Option.isNone_iff_eq_none.mp hm)] at howned
  obtain ⟨fd, hfd⟩ := readTimerfd_eq s
  obtain ⟨expired, active, hrun, rfl, howned'⟩ :=
    getExpired_spec (s := { s with timerfd := fd }) (howned.congr rfl rfl rfl rfl) now
  refine ⟨active, _, ?_, howned'.congr ?_ ?_ rfl rfl⟩
  · simp only [step, beginRead, State.extracted, hfd, hrun, ok_bind, pure_eq_ok]
  · simp only [State.extracted, hfd]
  · simp only [State.extracted, hfd]

theorem step_run (h : Sound s) (hm : may s .run) : ∃ now done e rest t,
    s.batch = some ⟨now, done, e :: rest⟩ ∧ s.heap e.timer = some t ∧
      step s .run = .ok (some (.started ⟨e.timer, t.sequence⟩),
        { s with batch := some ⟨now, done ++ [e], rest⟩ }) := by
  obtain ⟨⟨now, done, waiting⟩, hb, hne⟩ := hm
  have hb : s.batch = some ⟨now, done, waiting⟩ := hb
  obtain ⟨e, rest, rfl⟩ := List.exists_cons_of_ne_nil hne
  obtain ⟨owner, howned⟩ := h.owned
  rw [held_of_some hb] at howned
  obtain ⟨t, ht, -⟩ := ((howned.placed e.timer).held).mp (List.mem_map_of_mem (by simp))
  exact ⟨now, done, e, rest, t, hb, ht, by simp only [step, hb, identify, ht, deref_some, ok_bind,
    pure_eq_ok]⟩

theorem step_endRead (h : Sound s) {clock : Int} (hm : may s (.endRead clock)) :
    ∃ b owner s', s.batch = some b ∧ b.waiting = [] ∧
      step s (.endRead clock) = .ok (none, s'.rearmed clock) ∧ Owned owner s.created [] s' ∧
      Readded { s with callingExpiredTimers := false, batch := none } b.now
        (b.done ++ b.waiting) s' := by
  obtain ⟨b, hb, hwaiting⟩ := hm
  have hb : s.batch = some b := hb
  obtain ⟨owner, howned⟩ := h.owned
  rw [held_of_some hb] at howned
  obtain ⟨owner', s', hrun, howned', hreadded⟩ := readd_spec
    (s := { s with callingExpiredTimers := false, batch := none })
    (howned.congr rfl rfl rfl rfl) b.now _ rfl
  refine ⟨b, owner', s', hb, hwaiting, ?_, howned', hreadded⟩
  simp only [step, hb, deref_some, ok_bind, endRead, reset_eq hrun howned', pure_eq_ok]

theorem rearmed_eq (s : State) (clock : Int) : ∃ fd, s.rearmed clock = { s with timerfd := fd } := by
  unfold State.rearmed
  split
  · exact ⟨s.timerfd, rfl⟩
  · split
    · exact ⟨_, rfl⟩
    · exact ⟨s.timerfd, rfl⟩

theorem added_eq (s : State) (a : Nat) (t : Timer) (clock : Int) :
    ∃ fd, s.added a t clock = { s.queued a t with timerfd := fd } := by
  unfold State.added
  split
  · exact ⟨_, rfl⟩
  · exact ⟨s.timerfd, rfl⟩

/-- What a step can do: the next state, written out up to the timerfd. -/
inductive Stepped (s : State) : Action → Option Event → State → Prop where
  | created (a : Nat) (when : Int) (interval : Interval) (hfree : s.heap a = none) :
    Stepped s (.create a when interval) (some (.issued ⟨a, s.numCreated + 1⟩)) { s with
      numCreated := s.numCreated + 1
      heap := Function.update s.heap a (some ⟨when, interval, s.numCreated + 1⟩)
      created := s.created ++ [a] }
  | inserted (a : Nat) (clock : Int) (t : Timer) (fd : Timerfd) (ht : s.heap a = some t)
      (hadded : ({ s with created := s.created.erase a } : State).added a t clock =
        { s.queued a t with created := s.created.erase a, timerfd := fd }) :
    Stepped s (.addTimerInLoop a clock) (some (.inserted ⟨a, t.sequence⟩))
      { s.queued a t with created := s.created.erase a, timerfd := fd }
  | cancelled (id : TimerId) (t : Timer) :
    Stepped s (.cancelTimerInLoop id) none (s.cancelled id t)
  | noted (id : TimerId) :
    Stepped s (.cancelTimerInLoop id) none { s with
      cancelingTimers := if s.callingExpiredTimers then
        s.cancelingTimers.insert (activeTimer id.timer id.sequence) else s.cancelingTimers }
  | extracted (now : Int) (active : OrdSet ActiveTimer) (fd : Timerfd) (hidle : s.batch = none) :
    Stepped s (.beginRead now) none { s with
      timers := s.timers.notBelow (entry now UINTPTR_MAX)
      activeTimers := active
      callingExpiredTimers := true
      cancelingTimers := .empty
      timerfd := fd
      batch := some ⟨now, [], s.timers.below (entry now UINTPTR_MAX)⟩ }
  | started (now : Int) (done : List Entry) (e : Entry) (rest : List Entry) (t : Timer)
      (hb : s.batch = some ⟨now, done, e :: rest⟩) (ht : s.heap e.timer = some t) :
    Stepped s .run (some (.started ⟨e.timer, t.sequence⟩)) { s with
      batch := some ⟨now, done ++ [e], rest⟩ }
  | reset (clock : Int) (b : Batch) (r : State) (fd : Timerfd) (hb : s.batch = some b)
      (hwaiting : b.waiting = [])
      (hreadded : Readded { s with callingExpiredTimers := false, batch := none } b.now
        (b.done ++ b.waiting) r)
      (hrearmed : r.rearmed clock = { r with timerfd := fd }) :
    Stepped s (.endRead clock) none { r with timerfd := fd }
  | expired : Stepped s .expire none { s with timerfd := .expired }

theorem Sound.stepped (h : Sound s) {s' : State} {l : Action} {o : Option Event} (hm : may s l)
    (hs : step s l = .ok (o, s')) : Stepped s l o s' := by
  cases l with
  | create a when interval =>
    cases hs
    exact .created a when interval hm.1
  | addTimerInLoop a clock =>
    obtain ⟨t, ht, hrun⟩ := step_add h hm
    obtain ⟨fd, hfd⟩ := added_eq ({ s with created := s.created.erase a } : State) a t clock
    rw [hrun, hfd] at hs
    cases hs
    exact .inserted a clock t fd ht hfd
  | cancelTimerInLoop id =>
    by_cases hactive : activeTimer id.timer id.sequence ∈ s.activeTimers
    · obtain ⟨t, -, -, hrun⟩ := step_cancel_active h hactive
      rw [hrun] at hs
      cases hs
      exact .cancelled id t
    · rw [step_cancel_noted hactive] at hs
      cases hs
      exact .noted id
  | beginRead now =>
    obtain ⟨active, owner, hrun, -⟩ := step_beginRead h hm
    obtain ⟨fd, hfd⟩ := readTimerfd_eq s
    rw [hrun, State.extracted, hfd] at hs
    cases hs
    exact .extracted now active fd (Option.isNone_iff_eq_none.mp hm)
  | run =>
    obtain ⟨now, done, e, rest, t, hb, ht, hrun⟩ := step_run h hm
    rw [hrun] at hs
    cases hs
    exact .started now done e rest t hb ht
  | endRead clock =>
    obtain ⟨b, owner, r, hb, hwaiting, hrun, -, hreadded⟩ := step_endRead h hm
    obtain ⟨fd, hfd⟩ := rearmed_eq r clock
    rw [hrun, hfd] at hs
    cases hs
    exact .reset clock b r fd hb hwaiting hreadded hfd
  | expire =>
    cases hs
    exact .expired

/-- **Every operation is answered and keeps the ownership.** -/
theorem sound_inductive : machine.Inductive Sound := by
  intro s l h hm
  obtain ⟨owner, howned⟩ := h.owned
  cases l with
  | create a when interval =>
    exact ⟨_, _, rfl, ⟨_, owned_create howned hm.1 hm.2 (t := ⟨when, interval, s.numCreated + 1⟩) rfl
      rfl rfl rfl rfl⟩, h.calling⟩
  | addTimerInLoop a clock =>
    obtain ⟨t, ht, hrun⟩ := step_add h hm
    obtain ⟨u, hu, ho⟩ := ((howned.placed a).created).mp hm.1
    obtain ⟨fd, hfd⟩ := added_eq ({ s with created := s.created.erase a } : State) a t clock
    refine ⟨_, _, hrun, ?_⟩
    rw [hfd]
    have hnot : a ∉ s.held := by
      rw [howned.mem_held ht, ho]
      exact nofun
    have hinsert := owned_insert howned ht (by rw [ho]; exact nofun)
    rw [List.erase_of_not_mem hnot] at hinsert
    exact ⟨⟨_, hinsert.congr rfl rfl rfl rfl⟩, h.calling⟩
  | cancelTimerInLoop id =>
    by_cases hactive : activeTimer id.timer id.sequence ∈ s.activeTimers
    · obtain ⟨t, ht, hq, hrun⟩ := step_cancel_active h hactive
      have ho : owner id.timer = .queue := ((howned.mem_active ht).mp hactive).2
      have hcancel := owned_cancelled howned ht hq
      rw [List.erase_of_not_mem (by rw [howned.mem_created ht, ho]; exact nofun),
        List.erase_of_not_mem (by rw [howned.mem_held ht, ho]; exact nofun)] at hcancel
      exact ⟨_, _, hrun, ⟨_, hcancel⟩, h.calling⟩
    · exact ⟨_, _, step_cancel_noted hactive, ⟨owner, howned.congr rfl rfl rfl rfl⟩, h.calling⟩
  | beginRead now =>
    obtain ⟨active, owner', hrun, howned'⟩ := step_beginRead h hm
    refine ⟨_, _, hrun, ⟨owner', ?_⟩, fun _ => rfl⟩
    have hcreated : (s.extracted now active).created = s.created := by
      obtain ⟨fd, hfd⟩ := readTimerfd_eq s
      simp only [State.extracted, hfd]
    rw [hcreated, held_of_some rfl]
    exact howned'
  | run =>
    obtain ⟨now, done, e, rest, t, hb, ht, hrun⟩ := step_run h hm
    refine ⟨_, _, hrun, ⟨owner, ?_⟩, fun _ => h.calling (by rw [hb]; exact nofun)⟩
    have hheld : (done ++ e :: rest).map Entry.timer = ((done ++ [e]) ++ rest).map Entry.timer := by
      simp
    rw [held_of_some hb, hheld] at howned
    exact howned.congr rfl rfl rfl rfl
  | endRead clock =>
    obtain ⟨b, owner', s', hb, hwaiting, hrun, howned', hreadded⟩ := step_endRead h hm
    obtain ⟨fd, hfd⟩ := rearmed_eq s' clock
    refine ⟨_, _, hrun, ⟨owner', ?_⟩, ?_⟩
    · have hcreated : s'.created = s.created := hreadded.created
      rw [hfd, held_of_none (s := { s' with timerfd := fd }) hreadded.batch]
      show Owned owner' s'.created [] _
      rw [hcreated]
      exact howned'.congr rfl rfl rfl rfl
    · rw [hfd]
      intro hne
      exact absurd hreadded.batch hne
  | expire => exact ⟨_, _, rfl, ⟨owner, howned.congr rfl rfl rfl rfl⟩, h.calling⟩

end Leanet.TimerQueue

import Leanet.Timer.Operations

/-! The alarm.

`addTimerInLoop` sets the timerfd when the new timer is the earliest, `reset` sets it
when the earliest expiration is a valid one, a cancellation leaves it alone. While
`handleRead` runs the timerfd may be disarmed; what the sets hold then is later than the
`now` of that `handleRead` (`Watched`), so a valid expiration, and `reset` sets the alarm
for it. -/
namespace Leanet.TimerQueue

/-- The span of a timespec, in microseconds. -/
def Timespec.micros (t : Timespec) : Int := t.tv_sec * kMicroSecondsPerSecond + t.tv_nsec / 1000

/-- The timerfd has expired, or will at this expiration or 100 microseconds after it was
set, whichever is later. -/
def Timerfd.Alarms (fd : Timerfd) (expiration : Int) : Prop :=
  fd = .expired ∨ ∃ value at_, fd = .armed value at_ ∧ value ≠ ⟨0, 0⟩ ∧ 0 ≤ value.tv_sec ∧
    0 ≤ value.tv_nsec ∧ value.tv_nsec < 1000000000 ∧ at_ + value.micros ≤ max expiration (at_ + 100)

/-- The clock readings of the loop are positive. -/
def PositiveClock (_ : State) : Action → Prop
  | .addTimerInLoop _ clock | .beginRead clock | .endRead clock => 0 < clock
  | .create _ _ _ | .cancelTimerInLoop _ | .run | .expire => True

instance (s : State) : (l : Action) → Decidable (PositiveClock s l)
  | .addTimerInLoop _ clock | .beginRead clock | .endRead clock =>
    inferInstanceAs (Decidable (0 < clock))
  | .create _ _ _ | .cancelTimerInLoop _ | .run | .expire => isTrue trivial

/-! ### Setting the timerfd -/

/-- The value is in range, and as far from now as the expiration, 100 microseconds at least. -/
theorem howMuchTimeFromNow_spec (now when : Int) :
    0 ≤ (howMuchTimeFromNow now when).tv_sec ∧ 0 ≤ (howMuchTimeFromNow now when).tv_nsec ∧
    (howMuchTimeFromNow now when).tv_nsec < 1000000000 ∧
    (howMuchTimeFromNow now when).micros = max (when - now) 100 := by
  obtain ⟨m, hm, hmax⟩ : ∃ m : Int, (if when - now < 100 then 100 else when - now) = m ∧
      m = max (when - now) 100 := by
    refine ⟨_, rfl, ?_⟩
    split <;> omega
  have hpos : 0 ≤ m := by omega
  simp only [howMuchTimeFromNow, Timespec.micros, hm, kMicroSecondsPerSecond,
    Int.tdiv_eq_ediv_of_nonneg hpos, Int.tmod_eq_emod_of_nonneg hpos]
  omega

theorem Timerfd.Alarms.later {fd : Timerfd} {e e' : Int} (h : fd.Alarms e) (hle : e ≤ e') :
    fd.Alarms e' := by
  rcases h with h | ⟨value, at_, hfd, hne, hsec, hnsec, hlt, hat⟩
  · exact .inl h
  · exact .inr ⟨value, at_, hfd, hne, hsec, hnsec, hlt, by omega⟩

/-- The timerfd takes the value. -/
theorem alarms_settime (fd : Timerfd) (now when : Int) :
    (settime fd now (howMuchTimeFromNow now when)).Alarms when := by
  obtain ⟨hsec, hnsec, hlt, hmicros⟩ := howMuchTimeFromNow_spec now when
  have hne : howMuchTimeFromNow now when ≠ ⟨0, 0⟩ := by
    intro h
    rw [h] at hmicros
    have : (0 : Int) = max (when - now) 100 := hmicros
    omega
  rw [settime, if_neg (by omega), if_neg hne]
  refine .inr ⟨_, now, rfl, hne, hsec, hnsec, hlt, ?_⟩
  omega

/-! ### Every step -/

/-- Every timer in the sets is due for the alarm, or for the batch in progress to set it. -/
structure Watched (s : State) : Prop where
  clock : ∀ b, s.batch = some b → 0 < b.now
  alarm : (∀ e ∈ s.timers, s.timerfd.Alarms e.expiration) ∨
    ∃ b, s.batch = some b ∧ ∀ e ∈ s.timers, b.now < e.expiration

variable {s s' : State} {l : Action} {o : Option Event}

theorem watched_initial (calling : Bool) : Watched (initial calling) :=
  ⟨nofun, .inl fun e he => absurd he (OrdSet.notMem_empty e)⟩

/-- Fewer timers, the same timerfd. -/
theorem Watched.anti (h : Watched s) (hbatch : ∀ b', s'.batch = some b' →
      ∃ b, s.batch = some b ∧ b.now = b'.now)
    (hnow : ∀ b, s.batch = some b → ∃ b', s'.batch = some b' ∧ b'.now = b.now)
    (htimers : ∀ e, e ∈ s'.timers → e ∈ s.timers) (hfd : s'.timerfd = s.timerfd) : Watched s' := by
  refine ⟨fun b' hb' => ?_, ?_⟩
  · obtain ⟨b, hb, hnow⟩ := hbatch b' hb'
    exact hnow ▸ h.clock b hb
  · rcases h.alarm with halarm | ⟨b, hb, hlater⟩
    · exact .inl fun e he => hfd ▸ halarm e (htimers e he)
    · obtain ⟨b', hb', heq⟩ := hnow b hb
      exact .inr ⟨b', hb', fun e he => heq ▸ hlater e (htimers e he)⟩

theorem Watched.congr (h : Watched s) (hbatch : s'.batch = s.batch)
    (htimers : ∀ e, e ∈ s'.timers → e ∈ s.timers) (hfd : s'.timerfd = s.timerfd) : Watched s' :=
  h.anti (fun b hb => ⟨b, hbatch ▸ hb, rfl⟩) (fun b hb => ⟨b, hbatch.trans hb, rfl⟩) htimers hfd

theorem expiration_mono {e e' : Entry} (h : e ≤ e') : e.expiration ≤ e'.expiration :=
  Prod.Lex.monotone_fst e e' h

/-- A timer that is not the earliest comes after one that is in the sets. -/
theorem exists_of_not_earliest {t : Timer} (h : s.isEarliest t = false) :
    ∃ e ∈ s.timers, e.expiration ≤ t.expiration := by
  unfold State.isEarliest at h
  split at h
  · cases h
  · next e he => exact ⟨e, OrdSet.first_mem he, not_lt.mp (of_decide_eq_false h)⟩

theorem le_of_earliest {t : Timer} (h : s.isEarliest t = true) {e : Entry} (he : e ∈ s.timers) :
    t.expiration ≤ e.expiration := by
  unfold State.isEarliest at h
  split at h
  · next hnone => exact absurd he (OrdSet.first_eq_none.mp hnone e)
  · next f hf => exact (of_decide_eq_true h).le.trans (expiration_mono (OrdSet.first_le hf he))

/-- A new timer sets the timerfd if it is the earliest, and is watched with the others if
it is not. -/
theorem watched_added (h : Watched s) (a : Nat) (t : Timer) (clock : Int) :
    Watched (s.added a t clock) := by
  unfold State.added
  split
  · next hearliest =>
    refine ⟨h.clock, .inl fun e he => (alarms_settime s.timerfd clock t.expiration).later ?_⟩
    rcases OrdSet.mem_insert.mp he with rfl | he
    · exact le_rfl
    · exact le_of_earliest hearliest he
  · next hearliest =>
    obtain ⟨f, hf, hle⟩ := exists_of_not_earliest (Bool.not_eq_true _ ▸ hearliest)
    refine ⟨h.clock, h.alarm.imp (fun halarm e he => ?_) fun ⟨b, hb, hlater⟩ => ⟨b, hb, fun e he => ?_⟩⟩
    · rcases OrdSet.mem_insert.mp he with rfl | he
      · exact (halarm f hf).later hle
      · exact halarm e he
    · rcases OrdSet.mem_insert.mp he with rfl | he
      · exact (hlater f hf).trans_le hle
      · exact hlater e he

/-- `reset` sets the timerfd for the earliest timer. One with an expiration that is not
valid came in with a callback, and has set it. -/
theorem watched_rearmed {r : State} {now clock : Int} {batch : List Entry} (h : Watched s)
    (hnow : ∀ b, s.batch = some b → b.now = now) (hpos : 0 < now)
    (hreadded : Readded { s with callingExpiredTimers := false, batch := none } now batch r) :
    Watched (r.rearmed clock) := by
  obtain ⟨fd, hfd⟩ := rearmed_eq r clock
  refine ⟨fun b hb => ?_, .inl fun e he => ?_⟩
  · rw [hfd] at hb
    exact absurd (hreadded.batch.symm.trans hb) nofun
  have he : e ∈ r.timers := by rwa [hfd] at he
  unfold State.rearmed
  cases hfirst : r.timers.first with
  | none => exact absurd he (OrdSet.first_eq_none.mp hfirst e)
  | some f =>
    have hle : f.expiration ≤ e.expiration := expiration_mono (OrdSet.first_le hfirst he)
    by_cases hvalid : 0 < f.expiration
    · simp only [if_pos hvalid]
      exact (alarms_settime r.timerfd clock f.expiration).later hle
    · simp only [if_neg hvalid]
      have hf : f ∈ s.timers :=
        (hreadded.timers f (OrdSet.first_mem hfirst)).resolve_right (by omega)
      rcases h.alarm with halarm | ⟨b, hb, hlater⟩
      · rw [hreadded.timerfd]
        exact (halarm f hf).later hle
      · have := hnow b hb
        have := hlater f hf
        omega

theorem watched_step (hsound : Sound s) (h : Watched s) (hm : may s l) (hpos : PositiveClock s l)
    (hs : step s l = .ok (o, s')) : Watched s' := by
  cases hsound.stepped hm hs with
  | created | noted => exact h.congr rfl (fun _ he => he) rfl
  | inserted a clock t fd ht hadded =>
    have hrest : Watched { s with created := s.created.erase a } := h.congr rfl (fun _ => id) rfl
    exact hadded ▸ watched_added hrest a t clock
  | cancelled => exact h.congr rfl (fun e he => (OrdSet.mem_erase.mp he).2) rfl
  | extracted now active fd =>
    refine ⟨fun b hb => ?_, .inr ⟨_, rfl, fun e he => ?_⟩⟩
    · obtain rfl := Option.some.inj hb
      exact hpos
    · obtain ⟨hmem, hle⟩ := OrdSet.mem_notBelow.mp he
      obtain ⟨owner, howned⟩ := hsound.owned
      obtain ⟨t, ht, -, -⟩ := howned.live_of_mem hmem
      exact (lt_expiration (howned.fresh _ t ht).2).mp hle
  | started now done e rest t hb =>
    refine h.anti (fun b' hb' => ⟨_, hb, ?_⟩) (fun b hb' => ⟨_, rfl, ?_⟩) (fun _ => id) rfl
    · obtain rfl := Option.some.inj hb'
      rfl
    · obtain rfl := Option.some.inj (hb.symm.trans hb')
      rfl
  | reset clock b r fd hb hwaiting hreadded hrearmed =>
    rw [← hrearmed]
    refine watched_rearmed h (fun b' hb' => ?_) (h.clock b hb) hreadded
    obtain rfl := Option.some.inj (hb.symm.trans hb')
    rfl
  | expired => exact ⟨h.clock, .inl fun _ _ => .inl rfl⟩

theorem watched_inductive :
    (machine.only PositiveClock).Inductive fun s => Sound s ∧ Watched s := by
  rintro s l ⟨hsound, hw⟩ ⟨hm, hpos⟩
  obtain ⟨o, t, hs, ht⟩ := sound_inductive s l hsound hm
  exact ⟨o, t, hs, ht, watched_step hsound hw hm hpos hs⟩

/-- **No timer is stranded.** While the clock reads positive values, whatever is added and
cancelled: between two operations of the loop the timerfd has expired or is set for the
earliest timer, and inside a `handleRead`, which will set it, it is so too or the earliest
timer is not due for this `handleRead`. -/
theorem no_timer_stranded {calling : Bool} {tr : List (Action × Option Event)}
    (h : (machine.only PositiveClock).Run (initial calling) tr s) {e : Entry}
    (he : s.timers.first = some e) :
    (s.batch = none → s.timerfd.Alarms e.expiration) ∧
    ∀ b, s.batch = some b → s.timerfd.Alarms e.expiration ∨ b.now < e.expiration := by
  have hw := (watched_inductive.run h ⟨sound_initial calling, watched_initial calling⟩).2
  have hmem := OrdSet.first_mem he
  rcases hw.alarm with halarm | ⟨b, hb, hlater⟩
  · exact ⟨fun _ => halarm e hmem, fun _ _ => .inl (halarm e hmem)⟩
  · refine ⟨fun hnone => absurd (hnone.symm.trans hb) nofun, fun b' hb' => .inr ?_⟩
    obtain rfl := Option.some.inj (hb.symm.trans hb')
    exact hlater e hmem

/-- A callback adds a timer of a negative expiration, which is the earliest; `reset` finds it
not valid and leaves the timerfd as it was set. -/
theorem no_timer_stranded_negative : ∃ tr s,
    (machine.only PositiveClock).Run (initial false) tr s ∧
    s.timers.first = some (entry (-5) 8) ∧ s.timerfd = .armed ⟨0, 100000⟩ 155 ∧
    s.timerfd.Alarms (-5) := by
  obtain ⟨tr, s, h, -, hidle, he, hfd⟩ := (machine.only PositiveClock).exists_run_of_replay
    (s := initial false)
    (P := fun _ s => s.batch.isNone = true ∧ s.timers.first = some (entry (-5) 8) ∧
      s.timerfd = .armed ⟨0, 100000⟩ 155)
    [.create 7 100 .once, .addTimerInLoop 7 50, .expire, .beginRead 150, .run, .create 8 (-5) .once,
      .addTimerInLoop 8 155, .endRead 160]
    (by decide +kernel)
  exact ⟨tr, s, h, he, hfd, (no_timer_stranded h he).1 (Option.isNone_iff_eq_none.mp hidle)⟩

end Leanet.TimerQueue

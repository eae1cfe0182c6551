import Leanet.Timer.Operations

/-! What a cancellation settles.

A timer that has been inserted and is then cancelled is `Gone`: deleted, or held by the
batch in progress with its number noted in `cancelingTimers`. Gone timers stay gone
whatever happens, since numbers do not come back when addresses do (`gone_step`). While
the batch lasts a gone timer may still be waiting in it for its turn, and then it has
it: `reset` looks at the notes, the loop over the callbacks does not. That one start is
the only one there can be (`cancel_final`). -/
namespace Leanet.TimerQueue

/-- The timer of this id exists. -/
def State.Live (s : State) (id : TimerId) : Prop :=
  ∃ t, s.heap id.timer = some t ∧ t.sequence = id.sequence

/-- It is in the batch, its callback not started. -/
def State.Waits (s : State) (id : TimerId) : Prop :=
  s.Live id ∧ ∃ b, s.batch = some b ∧ id.timer ∈ b.waiting.map Entry.timer

/-- How often the callback of a timer starts in a history. -/
def starts (id : TimerId) (tr : List (Action × Option Event)) : Nat :=
  (tr.map Prod.snd).count (some (.started id))

/-- The timer has been inserted. -/
structure Settled (s : State) (id : TimerId) : Prop where
  numbered : id.sequence ≤ s.numCreated
  inserted : s.Live id → id.timer ∉ s.created

/-- The timer has been inserted and cancelled. -/
structure Gone (s : State) (id : TimerId) : Prop where
  numbered : id.sequence ≤ s.numCreated
  noted : s.Live id → id.timer ∈ s.held ∧ activeTimer id.timer id.sequence ∈ s.cancelingTimers

variable {s s' : State} {id : TimerId} {l : Action} {o : Option Event}

theorem waits_held (h : s.Waits id) : id.timer ∈ s.held := by
  obtain ⟨-, b, hb, hmem⟩ := h
  rw [held_of_some hb, List.map_append]
  exact List.mem_append_right _ hmem

theorem not_waits_of_none (h : s.batch = none) : ¬ s.Waits id := by
  rintro ⟨-, b, hb, -⟩
  rw [h] at hb
  cases hb

/-- Timers of the batch are not in the sets. -/
theorem Sound.not_active_of_held (h : Sound s) {a q : Nat} (ha : a ∈ s.held) :
    activeTimer a q ∉ s.activeTimers := by
  obtain ⟨owner, howned⟩ := h.owned
  obtain ⟨t, ht, ho⟩ := ((howned.placed a).held).mp ha
  rw [howned.mem_active ht, ho]
  exact nofun

/-- No step brings a timer to life that has a number already. -/
theorem live_step (h : Sound s) (hm : may s l) (hs : step s l = .ok (o, s'))
    (hnum : id.sequence ≤ s.numCreated) :
    s.numCreated ≤ s'.numCreated ∧ (s'.Live id → s.Live id) := by
  cases h.stepped hm hs with
  | created a when interval =>
    refine ⟨Nat.le_succ _, ?_⟩
    rintro ⟨t, ht, hq⟩
    by_cases ha : id.timer = a
    · rw [ha] at ht
      obtain rfl : _ = t := by simpa using ht
      have : s.numCreated + 1 = id.sequence := hq
      omega
    · exact ⟨t, by simpa [Function.update_of_ne ha] using ht, hq⟩
  | cancelled timerid t =>
    refine ⟨le_rfl, ?_⟩
    rintro ⟨u, hu, hq⟩
    by_cases ha : id.timer = timerid.timer
    · simp [State.cancelled, ha] at hu
    · exact ⟨u, by simpa [State.cancelled, Function.update_of_ne ha] using hu, hq⟩
  | reset clock b r fd hb hwaiting hreadded =>
    refine ⟨hreadded.numCreated.ge, ?_⟩
    rintro ⟨u, hu, hq⟩
    obtain ⟨t, ht, htu, -⟩ := hreadded.heap _ u hu
    exact ⟨t, ht, htu.symm.trans hq⟩
  | inserted | noted | extracted | started | expired => exact ⟨le_rfl, fun h => h⟩

/-- What becomes of the batch in one step, and which callback starts. -/
inductive Progress (s s' : State) (l : Action) (o : Option Event) : Prop where
  | begins (now : Int) (hl : l = .beginRead now) (hbatch : s.batch = none)
      (hquiet : ∀ id, o ≠ some (.started id))
  | ends (clock : Int) (b : Batch) (hl : l = .endRead clock) (hbatch : s.batch = some b)
      (hwaiting : b.waiting = []) (hdone : s'.batch = none) (hquiet : ∀ id, o ≠ some (.started id))
      (hnoted : ∀ id, s'.Live id → id.timer ∈ s.held →
        activeTimer id.timer id.sequence ∉ s.cancelingTimers)
  | stays (hbatch : s'.batch = s.batch) (hnoted : ∀ x ∈ s.cancelingTimers, x ∈ s'.cancelingTimers)
      (hquiet : ∀ id, o ≠ some (.started id))
  | runs (now : Int) (done : List Entry) (e : Entry) (rest : List Entry) (t : Timer)
      (hbatch : s.batch = some ⟨now, done, e :: rest⟩) (ht : s.heap e.timer = some t)
      (hnext : s'.batch = some ⟨now, done ++ [e], rest⟩) (hheap : s'.heap = s.heap)
      (hnoted : s'.cancelingTimers = s.cancelingTimers)
      (hstarts : o = some (.started ⟨e.timer, t.sequence⟩))

theorem progress_step (h : Sound s) (hm : may s l) (hs : step s l = .ok (o, s')) :
    Progress s s' l o := by
  cases h.stepped hm hs with
  | created | inserted | cancelled | expired => exact .stays rfl (fun _ => id) nofun
  | noted timerid =>
    refine .stays rfl (fun x hx => ?_) nofun
    dsimp only
    split
    · exact OrdSet.mem_insert.mpr (.inr hx)
    · exact hx
  | extracted now active fd hidle => exact .begins now rfl hidle nofun
  | started now done e rest t hb ht => exact .runs now done e rest t hb ht rfl rfl rfl rfl
  | reset clock b r fd hb hwaiting hreadded =>
    refine .ends clock b rfl hb hwaiting hreadded.batch nofun ?_
    rintro id ⟨u, hu, hq⟩ hheld
    obtain ⟨t, -, htu, hagain⟩ := hreadded.heap _ u hu
    rw [held_of_some hb] at hheld
    rw [← hq, htu]
    exact (hagain hheld).2

/-- A timer enters the list of created ones only where no timer was. -/
theorem created_step (h : Sound s) (hm : may s l) (hs : step s l = .ok (o, s')) {a : Nat}
    (ha : a ∈ s'.created) : a ∈ s.created ∨ s.heap a = none := by
  cases h.stepped hm hs with
  | created b when interval hfree =>
    rcases List.mem_append.mp ha with ha | ha
    · exact .inl ha
    · rw [List.mem_singleton.mp ha]
      exact .inr hfree
  | inserted => exact .inl (List.mem_of_mem_erase ha)
  | reset clock b r fd hb hwaiting hreadded => exact .inl (hreadded.created ▸ ha)
  | cancelled | noted | extracted | started | expired => exact .inl ha

/-! ### Inserted timers -/

theorem settled_step (h : Sound s) (hm : may s l) (hs : step s l = .ok (o, s'))
    (hid : Settled s id) : Settled s' id := by
  obtain ⟨hnum, hlive⟩ := live_step h hm hs hid.numbered
  refine ⟨hid.numbered.trans hnum, fun hl hmem => ?_⟩
  rcases created_step h hm hs hmem with hmem | hnone
  · exact hid.inserted (hlive hl) hmem
  · obtain ⟨t, ht, -⟩ := hlive hl
    rw [hnone] at ht
    cases ht

/-- `addTimerInLoop` settles the timer it inserts. -/
theorem settled_of_inserted (h : Sound s) (hm : may s l)
    (hs : step s l = .ok (some (.inserted id), s')) : Settled s' id := by
  cases h.stepped hm hs with
  | inserted a clock t fd ht =>
    obtain ⟨owner, howned⟩ := h.owned
    exact ⟨(howned.fresh a t ht).1, fun _ => howned.nodup_created.not_mem_erase⟩

theorem settled_run {calling : Bool} {tr : List (Action × Option Event)}
    (h : machine.Run (initial calling) tr s) (hid : some (.inserted id) ∈ tr.map Prod.snd) :
    Settled s id := by
  refine h.snoc_induction (P := fun tr s => some (.inserted id) ∈ tr.map Prod.snd → Settled s id)
    (fun hnil => by simp at hnil) ?_ hid
  intro tr t l o u hrun ih hm hs hmem
  have hsound := sound_inductive.run hrun (sound_initial calling)
  rw [List.map_append, List.mem_append] at hmem
  rcases hmem with hmem | hmem
  · exact settled_step hsound hm hs (ih hmem)
  · obtain rfl : some (.inserted id) = o := by simpa using hmem
    exact settled_of_inserted hsound hm hs

/-! ### Cancelled timers -/

theorem gone_of_cancel (h : Sound s) (hid : Settled s id)
    (hs : step s (.cancelTimerInLoop id) = .ok (o, s')) :
    Gone s' id ∧ (s'.Waits id ↔ s.Waits id) := by
  obtain ⟨owner, howned⟩ := h.owned
  by_cases hactive : activeTimer id.timer id.sequence ∈ s.activeTimers
  · obtain ⟨t, -, -, hrun⟩ := step_cancel_active h hactive
    rw [hrun] at hs
    cases hs
    have hdead : ¬ (s.cancelled id t).Live id := by
      rintro ⟨u, hu, -⟩
      simp [State.cancelled] at hu
    have hnot : ¬ s.Waits id := fun hw => h.not_active_of_held (waits_held hw) hactive
    exact ⟨⟨hid.numbered, fun hl => absurd hl hdead⟩, iff_of_false (fun hw => hdead hw.1) hnot⟩
  · rw [step_cancel_noted hactive] at hs
    cases hs
    refine ⟨⟨hid.numbered, fun hl => ?_⟩, Iff.rfl⟩
    -- Live, inserted and not in the sets: the batch holds it, so there is one.
    obtain ⟨t, ht, hq⟩ : s.Live id := hl
    have hheld : id.timer ∈ s.held := by
      rw [howned.mem_held ht]
      cases ho : owner id.timer with
      | batch => rfl
      | functor => exact absurd ((howned.mem_created ht).mpr ho) (hid.inserted ⟨t, ht, hq⟩)
      | queue => exact absurd ((howned.mem_active ht).mpr ⟨hq, ho⟩) hactive
    refine ⟨hheld, ?_⟩
    simp [h.calling_of_held hheld]

/-- A gone timer stays gone; its callback starts only where it was waiting, and waits no
longer then. -/
theorem gone_step (h : Sound s) (hm : may s l) (hs : step s l = .ok (o, s')) (hid : Gone s id) :
    Gone s' id ∧ ((o = some (.started id) ∧ s.Waits id ∧ ¬ s'.Waits id) ∨
      (o ≠ some (.started id) ∧ (s'.Waits id → s.Waits id))) := by
  obtain ⟨hnum, hlive⟩ := live_step h hm hs hid.numbered
  have hnum := hid.numbered.trans hnum
  cases progress_step h hm hs with
  | begins now hl hbatch hquiet =>
    have hdead : ¬ s'.Live id := fun hl => by
      have hheld := (hid.noted (hlive hl)).1
      rw [held_of_none hbatch] at hheld
      cases hheld
    exact ⟨⟨hnum, fun hl => absurd hl hdead⟩, .inr ⟨hquiet id, fun hw => absurd hw.1 hdead⟩⟩
  | ends clock b hl hbatch hwaiting hdone hquiet hnoted =>
    have hdead : ¬ s'.Live id := fun hl =>
      hnoted id hl (hid.noted (hlive hl)).1 (hid.noted (hlive hl)).2
    exact ⟨⟨hnum, fun hl => absurd hl hdead⟩, .inr ⟨hquiet id, fun hw => absurd hw.1 hdead⟩⟩
  | stays hbatch hnoted hquiet =>
    refine ⟨⟨hnum, fun hl => ?_⟩, .inr ⟨hquiet id, fun ⟨hl, b, hb, hmem⟩ => ?_⟩⟩
    · obtain ⟨hheld, hin⟩ := hid.noted (hlive hl)
      exact ⟨by rwa [State.held, hbatch], hnoted _ hin⟩
    · exact ⟨hlive hl, b, by rw [← hbatch, hb], hmem⟩
  | runs now done e rest t hbatch ht hnext hheap hnoted hstarts =>
    have hheld : s'.held = s.held := by
      rw [held_of_some hnext, held_of_some hbatch]
      simp
    refine ⟨⟨hnum, fun hl => ?_⟩, ?_⟩
    · rw [hheld, hnoted]
      exact hid.noted (hlive hl)
    by_cases hself : e.timer = id.timer ∧ t.sequence = id.sequence
    · obtain ⟨hat, hq⟩ := hself
      refine .inl ⟨by rw [hstarts, hat, hq], ⟨⟨t, hat ▸ ht, hq⟩, _, hbatch, by simp [hat]⟩, ?_⟩
      rintro ⟨-, b, hb, hmem⟩
      obtain rfl := Option.some.inj (hnext.symm.trans hb)
      -- The batch holds each timer once.
      obtain ⟨owner, howned⟩ := h.owned
      have hnodup := howned.nodup_held
      rw [held_of_some hbatch, List.map_append, List.map_cons, hat] at hnodup
      exact (List.nodup_cons.mp (List.nodup_append.mp hnodup).2.1).1 hmem
    · refine .inr ⟨?_, ?_⟩
      · rw [hstarts]
        intro heq
        obtain rfl := Event.started.inj (Option.some.inj heq)
        exact hself ⟨rfl, rfl⟩
      · rintro ⟨hl, b, hb, hmem⟩
        obtain rfl := Option.some.inj (hnext.symm.trans hb)
        exact ⟨hlive hl, _, hbatch, by simp [hmem]⟩

theorem starts_append (id : TimerId) (tr tr' : List (Action × Option Event)) :
    starts id (tr ++ tr') = starts id tr + starts id tr' := by
  simp [starts]

/-- Over a whole run: at most one start, and that of a timer that was waiting. -/
theorem gone_run {tr : List (Action × Option Event)} (hs : Sound s) (hid : Gone s id)
    (h : machine.Run s tr s') :
    Gone s' id ∧ ((starts id tr = 1 ∧ s.Waits id ∧ ¬ s'.Waits id) ∨
      (starts id tr = 0 ∧ (s'.Waits id → s.Waits id))) := by
  refine h.snoc_induction (P := fun tr s' => Gone s' id ∧
    ((starts id tr = 1 ∧ s.Waits id ∧ ¬ s'.Waits id) ∨
      (starts id tr = 0 ∧ (s'.Waits id → s.Waits id)))) ⟨hid, .inr ⟨rfl, fun hw => hw⟩⟩ ?_
  rintro tr t l o u hrun ⟨hgone, hcase⟩ hm hstep
  obtain ⟨hgone', hone⟩ := gone_step (sound_inductive.run hrun hs) hm hstep hgone
  refine ⟨hgone', ?_⟩
  have hlast : starts id [(l, o)] = if o = some (.started id) then 1 else 0 := by
    by_cases ho : o = some (.started id) <;> simp [starts, ho]
  rw [starts_append, hlast]
  rcases hone with ⟨ho, hw, hw'⟩ | ⟨ho, hw⟩
  · rcases hcase with ⟨-, -, hnot⟩ | ⟨hzero, himp⟩
    · exact absurd hw hnot
    · exact .inl ⟨by simp [hzero, ho], himp hw, hw'⟩
  · rcases hcase with ⟨hcount, hfirst, hnot⟩ | ⟨hzero, himp⟩
    · exact .inl ⟨by simp [hcount, ho], hfirst, fun hu => hnot (hw hu)⟩
    · exact .inr ⟨by simp [hzero, ho], fun hu => himp (hw hu)⟩

/-! ### Every run -/

/-- At the end of `handleRead` a cancelled timer is in no batch that could start it. -/
theorem starts_after_endRead {tr : List (Action × Option Event)} {clock : Int} {t : State}
    (hs : Sound s) (hid : Gone s id) (hm : may s (.endRead clock))
    (hstep : step s (.endRead clock) = .ok (o, t)) (h : machine.Run t tr s') : starts id tr = 0 := by
  obtain ⟨hgone, -⟩ := gone_step hs hm hstep hid
  have ht : Sound t :=
    sound_inductive.run (Machine.Run.single (m := machine) (l := .endRead clock) hm hstep) hs
  have hidle : t.batch = none := by
    cases hs.stepped hm hstep with
    | reset clock b r fd hb hwaiting hreadded => exact hreadded.batch
  rcases (gone_run ht hgone h).2 with ⟨-, hw, -⟩ | ⟨hzero, -⟩
  · exact absurd hw (not_waits_of_none hidle)
  · exact hzero

/-- **A cancelled timer is not started any more, but for its turn in the batch.** From
the cancellation of an inserted timer on, its callback starts only if it was waiting in
the batch in progress, at most once, and never after that `handleRead`. -/
theorem cancel_final {calling : Bool} {tr₁ tr₂ : List (Action × Option Event)} {s₁ s₂ s₃ : State}
    (h₁ : machine.Run (initial calling) tr₁ s₁) (hid : some (.inserted id) ∈ tr₁.map Prod.snd)
    (hc : machine.Run s₁ [(.cancelTimerInLoop id, o)] s₂) (h₂ : machine.Run s₂ tr₂ s₃) :
    (¬ s₁.Waits id → starts id tr₂ = 0) ∧ starts id tr₂ ≤ 1 ∧
    ∀ pre clock o' post, tr₂ = pre ++ (.endRead clock, o') :: post → starts id post = 0 := by
  have hs₁ : Sound s₁ := sound_inductive.run h₁ (sound_initial calling)
  have hs₂ : Sound s₂ := sound_inductive.run hc hs₁
  obtain ⟨hgone, hwaits⟩ : Gone s₂ id ∧ (s₂.Waits id ↔ s₁.Waits id) := by
    cases hc with
    | cons hm hstep hnil =>
      cases hnil
      exact gone_of_cancel hs₁ (settled_run h₁ hid) hstep
  refine ⟨fun hnot => ?_, ?_, fun pre clock o' post htr => ?_⟩
  · rcases (gone_run hs₂ hgone h₂).2 with ⟨-, hw, -⟩ | ⟨hzero, -⟩
    · exact absurd (hwaits.mp hw) hnot
    · exact hzero
  · rcases (gone_run hs₂ hgone h₂).2 with ⟨hone, -⟩ | ⟨hzero, -⟩ <;> omega
  · subst htr
    obtain ⟨t, hpre, hrest⟩ := h₂.split
    cases hrest with
    | cons hm hstep hpost =>
      exact starts_after_endRead (sound_inductive.run hpre hs₂) (gone_run hs₂ hgone hpre).1 hm hstep
        hpost

/-- Two timers are due together and repeat; the callback of the first cancels the second,
which has its turn in that batch and none in the next. -/
theorem cancel_final_repeating : ∃ tr₁ s₁ s₂ tr₂ s₃, machine.Run (initial false) tr₁ s₁ ∧
    machine.Run s₁ [(.cancelTimerInLoop ⟨8, 2⟩, none)] s₂ ∧ machine.Run s₂ tr₂ s₃ ∧
    tr₂.map Prod.fst = [.run, .endRead 160, .expire, .beginRead 260, .run, .endRead 270] ∧
    starts ⟨8, 2⟩ tr₂ ≤ 1 ∧
    ∀ pre clock o post, tr₂ = pre ++ (.endRead clock, o) :: post → starts ⟨8, 2⟩ post = 0 := by
  obtain ⟨tr, s₃, h, -, rfl⟩ := machine.exists_run_of_replay (s := initial false)
    (P := fun tr _ => tr =
      [(.create 7 100 (.every 100), some (.issued ⟨7, 1⟩)),
        (.addTimerInLoop 7 50, some (.inserted ⟨7, 1⟩)),
        (.create 8 100 (.every 100), some (.issued ⟨8, 2⟩)),
        (.addTimerInLoop 8 50, some (.inserted ⟨8, 2⟩)), (.expire, none), (.beginRead 150, none),
        (.run, some (.started ⟨7, 1⟩))] ++
      ([(.cancelTimerInLoop ⟨8, 2⟩, none)] ++
        [(.run, some (.started ⟨8, 2⟩)), (.endRead 160, none), (.expire, none),
          (.beginRead 260, none), (.run, some (.started ⟨7, 1⟩)), (.endRead 270, none)]))
    [.create 7 100 (.every 100), .addTimerInLoop 7 50,
      .create 8 100 (.every 100), .addTimerInLoop 8 50, .expire, .beginRead 150,
      .run, .cancelTimerInLoop ⟨8, 2⟩, .run, .endRead 160, .expire, .beginRead 260, .run,
      .endRead 270]
    (by decide +kernel)
  obtain ⟨s₁, h₁, h⟩ := h.split
  obtain ⟨s₂, hc, h₂⟩ := h.split
  have hfinal := cancel_final h₁ (by decide) hc h₂
  exact ⟨_, s₁, s₂, _, s₃, h₁, hc, h₂, rfl, hfinal.2⟩

/-- Two timers are due together; the callback of the first cancels the second, whose
callback starts all the same. -/
theorem cancelled_starts : ∃ pre post s,
    machine.Run (initial false) (pre ++ (.cancelTimerInLoop ⟨8, 2⟩, none) :: post) s ∧
    some (.inserted ⟨8, 2⟩) ∈ pre.map Prod.snd ∧ some (.started ⟨8, 2⟩) ∈ post.map Prod.snd := by
  obtain ⟨tr, s, h, -, rfl⟩ := machine.exists_run_of_replay (s := initial false)
    (P := fun tr _ => tr =
      [(.create 7 100 .once, some (.issued ⟨7, 1⟩)),
        (.addTimerInLoop 7 50, some (.inserted ⟨7, 1⟩)),
        (.create 8 100 .once, some (.issued ⟨8, 2⟩)),
        (.addTimerInLoop 8 50, some (.inserted ⟨8, 2⟩)), (.expire, none), (.beginRead 150, none),
        (.run, some (.started ⟨7, 1⟩))] ++
      (.cancelTimerInLoop ⟨8, 2⟩, none) :: [(.run, some (.started ⟨8, 2⟩)), (.endRead 160, none)])
    [.create 7 100 .once, .addTimerInLoop 7 50, .create 8 100 .once,
      .addTimerInLoop 8 50, .expire, .beginRead 150, .run, .cancelTimerInLoop ⟨8, 2⟩, .run,
      .endRead 160]
    (by decide +kernel)
  exact ⟨_, _, s, h, by decide, by decide⟩

/-- Where a timer is: with the functor that will insert it, in both sets, in the batch. -/
def State.In (s : State) (a : Nat) : Owner → Prop
  | .functor => a ∈ s.created
  | .queue => ∃ t, s.heap a = some t ∧ entry t.expiration a ∈ s.timers ∧
    activeTimer a t.sequence ∈ s.activeTimers
  | .batch => a ∈ s.held

theorem Sound.unique_place (h : Sound s) {a : Nat} (ha : s.heap a ≠ none) : ∃! place, s.In a place := by
  obtain ⟨owner, howned⟩ := h.owned
  obtain ⟨t, ht⟩ := Option.ne_none_iff_exists'.mp ha
  have hin : ∀ place, s.In a place ↔ owner a = place := by
    rintro (_ | _ | _)
    · exact howned.mem_created ht
    · simp [State.In, ht, howned.mem_timers ht, howned.mem_active ht]
    · exact howned.mem_held ht
  exact ⟨owner a, (hin _).mpr rfl, fun place hp => ((hin place).mp hp).symm⟩

theorem Sound.live_of_in (h : Sound s) {a : Nat} {place : Owner} (ha : s.In a place) :
    s.heap a ≠ none := by
  obtain ⟨owner, howned⟩ := h.owned
  cases place with
  | functor =>
    obtain ⟨t, ht, -⟩ := ((howned.placed a).created).mp ha
    simp [ht]
  | queue =>
    obtain ⟨t, ht, -⟩ := ha
    simp [ht]
  | batch =>
    obtain ⟨t, ht, -⟩ := ((howned.placed a).held).mp ha
    simp [ht]

theorem Gone.not_active (h : Sound s) (hid : Gone s id) :
    activeTimer id.timer id.sequence ∉ s.activeTimers := by
  intro hactive
  obtain ⟨owner, howned⟩ := h.owned
  obtain ⟨t, ht, hq, -⟩ := ((howned.placed id.timer).active id.sequence).mp hactive
  exact h.not_active_of_held (hid.noted ⟨t, ht, hq⟩).1 hactive

/-- **The sets agree and own their timers.** At any time in any run the two sets hold
the same timers, every live timer is in one place and no deleted one in any, the next
operation passes its assertions and touches live timers only, and a timer cancelled after
its insertion is in neither set once no `handleRead` is in progress. -/
theorem timer_ownership {calling : Bool} {tr : List (Action × Option Event)}
    (h : machine.Run (initial calling) tr s) :
    (∀ e a, entry e a ∈ s.timers ↔ ∃ t, s.heap a = some t ∧
      activeTimer a t.sequence ∈ s.activeTimers ∧ e = t.expiration) ∧
    (∀ a q, activeTimer a q ∈ s.activeTimers → ∃ t, s.heap a = some t ∧ t.sequence = q) ∧
    (∀ a, s.heap a ≠ none → ∃! place, s.In a place) ∧
    (∀ a place, s.In a place → s.heap a ≠ none) ∧
    (∀ l, may s l → ∃ o s', step s l = .ok (o, s')) ∧
    ∀ pre id o post, tr = pre ++ (.cancelTimerInLoop id, o) :: post →
      some (.inserted id) ∈ pre.map Prod.snd → s.batch = none →
      activeTimer id.timer id.sequence ∉ s.activeTimers ∧
      ∀ e t, s.heap id.timer = some t → t.sequence = id.sequence → entry e id.timer ∉ s.timers := by
  have hs : Sound s := sound_inductive.run h (sound_initial calling)
  obtain ⟨owner, howned⟩ := hs.owned
  refine ⟨fun e a => ?_, fun a q hactive => ?_, fun a => hs.unique_place,
    fun a place => hs.live_of_in, fun l hm => ?_, fun pre id o post htr hid hidle => ?_⟩
  · rw [(howned.placed a).timers]
    constructor
    · rintro ⟨t, ht, rfl, ho⟩
      exact ⟨t, ht, (howned.mem_active ht).mpr ⟨rfl, ho⟩, rfl⟩
    · rintro ⟨t, ht, hactive, rfl⟩
      exact ⟨t, ht, rfl, ((howned.mem_active ht).mp hactive).2⟩
  · obtain ⟨t, ht, hq, -⟩ := ((howned.placed a).active q).mp hactive
    exact ⟨t, ht, hq⟩
  · obtain ⟨o, s', hstep, -⟩ := sound_inductive s l hs hm
    exact ⟨o, s', hstep⟩
  · subst htr
    obtain ⟨t, hpre, hrest⟩ := h.split
    have hst : Sound t := sound_inductive.run hpre (sound_initial calling)
    cases hrest with
    | cons hm hstep hpost =>
      obtain ⟨hgone, -⟩ := gone_of_cancel hst (settled_run hpre hid) hstep
      obtain ⟨hgone', -⟩ := gone_run (sound_inductive.run (.single hm hstep) hst) hgone hpost
      have hnot := hgone'.not_active hs
      refine ⟨hnot, fun e u hu hq hmem => hnot ?_⟩
      exact (howned.mem_active hu).mpr ⟨hq, ((howned.mem_timers hu).mp hmem).2⟩

/-- The callback of a repeating timer cancels it; its address is used again for another
timer, which is in the sets, and the old id cancels nothing any more. -/
theorem timer_ownership_reused : ∃ tr s, machine.Run (initial false) tr s ∧ s.batch = none ∧
    s.timers.elems = [entry 300 7] ∧ (∃! place, s.In 7 place) ∧
    activeTimer 7 1 ∉ s.activeTimers ∧ ∀ l, may s l → ∃ o s', step s l = .ok (o, s') := by
  obtain ⟨tr, s, h, -, htr, hidle, htimers, hlive⟩ := machine.exists_run_of_replay
    (s := initial false)
    (P := fun tr s => tr =
      [(.create 7 100 (.every 100), some (.issued ⟨7, 1⟩)),
        (.addTimerInLoop 7 50, some (.inserted ⟨7, 1⟩)), (.expire, none), (.beginRead 150, none),
        (.run, some (.started ⟨7, 1⟩))] ++
      (.cancelTimerInLoop ⟨7, 1⟩, none) :: [(.endRead 160, none),
        (.create 7 300 .once, some (.issued ⟨7, 2⟩)),
        (.addTimerInLoop 7 200, some (.inserted ⟨7, 2⟩)), (.cancelTimerInLoop ⟨7, 1⟩, none)] ∧
      s.batch.isNone = true ∧ s.timers.elems = [entry 300 7] ∧ s.heap 7 ≠ none)
    [.create 7 100 (.every 100), .addTimerInLoop 7 50, .expire, .beginRead 150,
      .run, .cancelTimerInLoop ⟨7, 1⟩, .endRead 160, .create 7 300 .once,
      .addTimerInLoop 7 200, .cancelTimerInLoop ⟨7, 1⟩]
    (by decide +kernel)
  obtain ⟨-, -, hplace, -, hrun, hcancelled⟩ := timer_ownership h
  have hidle := Option.isNone_iff_eq_none.mp hidle
  exact ⟨tr, s, h, hidle, htimers, hplace 7 hlive,
    (hcancelled _ ⟨7, 1⟩ _ _ htr (by decide) hidle).1, hrun⟩

end Leanet.TimerQueue

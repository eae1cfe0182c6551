import Leanet.Timer.Fire
import Mathlib.Data.List.Chain
import Mathlib.Tactic.Ring

/-! What the owner of a timer can count on.

`handleRead` reads the clock once and calls back by that reading, so the readings at which a
timer's callback starts say what its owner sees. They keep to the schedule the timer was made
for: none before its time, two of them an interval apart, one at most if it does not repeat
(`timer_contract`). The schedule is not a fixed one: `restart` counts from the reading of the
batch, so that a late call moves the calls behind it (`due`).

With the queue its timers are deleted, those in the sets. A timer whose `addTimerInLoop` is still
a functor is nobody's then (`destruct_leaks`). -/
namespace Leanet.TimerQueue

/-! ### Schedules -/

/-- When the next call is due, after calls at these readings. -/
def due (when_ : Int) (interval : Interval) (readings : List Int) : Int :=
  match readings.getLast? with
  | none => when_
  | some reading => reading + interval.micros

/-- The readings of the calls of a timer made for `when_` and `interval`. -/
structure OnSchedule (when_ : Int) (interval : Interval) (readings : List Int) : Prop where
  first : ∀ reading ∈ readings.head?, when_ ≤ reading
  apart : readings.IsChain fun reading next => reading + interval.micros ≤ next
  once : interval.positive = false → readings.length ≤ 1

variable {when_ : Int} {interval : Interval} {readings : List Int}

theorem onSchedule_nil : OnSchedule when_ interval [] := ⟨nofun, .nil, fun _ => Nat.zero_le _⟩

/-- A call that is not early, of a timer that has not been called or repeats. -/
theorem OnSchedule.snoc (h : OnSchedule when_ interval readings) {now : Int}
    (hdue : due when_ interval readings ≤ now) (hagain : readings = [] ∨ interval.positive = true) :
    OnSchedule when_ interval (readings ++ [now]) := by
  unfold due at hdue
  cases hlast : readings.getLast? with
  | none =>
    rw [hlast] at hdue
    obtain rfl := List.getLast?_eq_none_iff.mp hlast
    exact ⟨by simpa using hdue, .singleton now, fun _ => le_rfl⟩
  | some reading =>
    rw [hlast] at hdue
    have hne : readings ≠ [] := by
      rintro rfl
      cases hlast
    refine ⟨?_, h.apart.append (.singleton now) fun r hr next hnext => ?_, fun hfalse => ?_⟩
    · rw [List.head?_append_of_ne_nil _ hne]
      exact h.first
    · obtain rfl := Option.some.inj (hlast.symm.trans hr)
      obtain rfl : now = next := by simpa using hnext
      exact hdue
    · rw [hagain.resolve_left hne] at hfalse
      cases hfalse

/-- The calls are counted from zero. -/
theorem OnSchedule.le_getElem (h : OnSchedule when_ interval readings) {k : Nat} {reading : Int}
    (hk : readings[k]? = some reading) : when_ + k * interval.micros ≤ reading := by
  induction k generalizing reading with
  | zero =>
    rw [← List.head?_eq_getElem?] at hk
    simpa using h.first reading hk
  | succ k ih =>
    obtain ⟨hlt, rfl⟩ := List.getElem?_eq_some_iff.mp hk
    have hprevious := ih (List.getElem?_eq_getElem (Nat.lt_of_succ_lt hlt))
    have hapart := List.isChain_iff_getElem.mp h.apart k hlt
    calc when_ + (k + 1 : Nat) * interval.micros
        = when_ + k * interval.micros + interval.micros := by push_cast; ring
      _ ≤ readings[k] + interval.micros := by omega
      _ ≤ readings[k + 1] := hapart

/-! ### The readings in a history -/

/-- The reading of the last `handleRead` in a history that begins with `now` read. -/
def lastReading (now : Int) : List (Action × Option Event) → Int
  | [] => now
  | (.beginRead now, _) :: tr => lastReading now tr
  | _ :: tr => lastReading now tr

/-- The readings at which the callback of `id` starts. -/
def startReadings (id : TimerId) (now : Int) : List (Action × Option Event) → List Int
  | [] => []
  | (.beginRead now, _) :: tr => startReadings id now tr
  | (_, o) :: tr => if o = some (.started id) then now :: startReadings id now tr else
      startReadings id now tr

variable {s s' : State} {id : TimerId} {l : Action} {o : Option Event} {now : Int}
  {tr : List (Action × Option Event)}

theorem lastReading_snoc (hl : ∀ c, l ≠ .beginRead c) :
    lastReading now (tr ++ [(l, o)]) = lastReading now tr := by
  induction tr generalizing now with
  | nil =>
    cases l with
    | beginRead c => exact absurd rfl (hl c)
    | _ => rfl
  | cons e tr ih =>
    obtain ⟨l', o'⟩ := e
    cases l' <;> exact ih

theorem lastReading_snoc_beginRead {c : Int} :
    lastReading now (tr ++ [(.beginRead c, o)]) = c := by
  induction tr generalizing now with
  | nil => rfl
  | cons e tr ih =>
    obtain ⟨l', o'⟩ := e
    cases l' <;> exact ih

theorem startReadings_snoc (hl : ∀ c, l ≠ .beginRead c) :
    startReadings id now (tr ++ [(l, o)]) = startReadings id now tr ++
      if o = some (.started id) then [lastReading now tr] else [] := by
  induction tr generalizing now with
  | nil =>
    cases l with
    | beginRead c => exact absurd rfl (hl c)
    | _ => rfl
  | cons e tr ih =>
    obtain ⟨l', o'⟩ := e
    cases l' with
    | beginRead c => exact ih
    | _ =>
      simp only [List.cons_append, startReadings, ih, lastReading]
      split <;> rfl

theorem startReadings_snoc_beginRead {c : Int} :
    startReadings id now (tr ++ [(.beginRead c, o)]) = startReadings id now tr := by
  induction tr generalizing now with
  | nil => rfl
  | cons e tr ih =>
    obtain ⟨l', o'⟩ := e
    cases l' with
    | beginRead c => exact ih
    | _ => simp only [List.cons_append, startReadings, ih]

/-! ### One step -/

/-- The callback of the timer at `a` has started in the batch in progress. -/
def State.Called (s : State) (a : Nat) : Prop := ∃ b ∈ s.batch, a ∈ b.done.map Entry.timer

/-- Who waits in the batch is due at its reading. -/
def Overdue (s : State) : Prop :=
  ∀ b ∈ s.batch, ∀ e ∈ b.waiting, ∀ t, s.heap e.timer = some t → t.expiration ≤ b.now

/-- A timer at `a`, made for `when_` and `interval` and called at `readings` so far: it has been
called in the batch in progress, or has the time of its next call. -/
structure Next (when_ : Int) (interval : Interval) (readings : List Int) (s : State) (a : Nat)
    (t : Timer) : Prop where
  made : t.interval = interval
  called : s.Called a → ∀ b ∈ s.batch, readings.getLast? = some b.now
  waits : ¬ s.Called a → t.expiration = due when_ interval readings ∧
    (readings = [] ∨ interval.positive = true)

/-- The timer of `id`, if it is still there, was made for `when_` and `interval`, and has been
called at `readings`. -/
structure Follows (when_ : Int) (interval : Interval) (id : TimerId) (readings : List Int)
    (s : State) : Prop where
  numbered : id.sequence ≤ s.numCreated
  onSchedule : OnSchedule when_ interval readings
  next : ∀ t, s.heap id.timer = some t → t.sequence = id.sequence →
    Next when_ interval readings s id.timer t

theorem called_iff {b : Batch} (hb : s.batch = some b) {a : Nat} :
    s.Called a ↔ a ∈ b.done.map Entry.timer := by
  simp only [State.Called, hb, Option.mem_some_iff, exists_eq_left']

theorem called_held {a : Nat} (h : s.Called a) : a ∈ s.held := by
  obtain ⟨b, hb, hmem⟩ := h
  rw [held_of_some hb, List.map_append]
  exact List.mem_append_left _ hmem

theorem not_called (h : s.batch = none) {a : Nat} : ¬ s.Called a := by
  rintro ⟨b, hb, -⟩
  rw [h] at hb
  cases hb

/-- A step that neither starts a callback nor ends a batch, and leaves the live timers as they are. -/
theorem Follows.congr (h : Follows when_ interval id readings s)
    (hnum : s.numCreated ≤ s'.numCreated)
    (hheap : ∀ t, s'.heap id.timer = some t → t.sequence = id.sequence → s.heap id.timer = some t)
    (hcalled : s'.Called id.timer ↔ s.Called id.timer)
    (hbatch : s.Called id.timer → s'.batch = s.batch) : Follows when_ interval id readings s' where
  numbered := h.numbered.trans hnum
  onSchedule := h.onSchedule
  next t ht hq :=
    have hnext := h.next t (hheap t ht hq) hq
    ⟨hnext.made, fun hc b hb => hnext.called (hcalled.mp hc) b (hbatch (hcalled.mp hc) ▸ hb),
      fun hc => hnext.waits (mt hcalled.mpr hc)⟩

theorem overdue_step (hs : Sound s) (h : Overdue s) (hm : may s l)
    (hstep : step s l = .ok (o, s')) : Overdue s' := by
  obtain ⟨owner, howned⟩ := hs.owned
  have hlive : ∀ b ∈ s.batch, ∀ e ∈ b.waiting, ∃ t, s.heap e.timer = some t := by
    intro b hb e he
    obtain ⟨t, ht, -⟩ := ((howned.placed e.timer).held).mp
      (held_of_some hb ▸ List.mem_map_of_mem (List.mem_append_right _ he))
    exact ⟨t, ht⟩
  cases hs.stepped hm hstep with
  | created a when_ interval hfree =>
    intro b hb e he t ht
    obtain ⟨u, hu⟩ := hlive b hb e he
    have hne : e.timer ≠ a := by
      rintro rfl
      rw [hfree] at hu
      cases hu
    exact h b hb e he t ((Function.update_of_ne hne ..).symm.trans ht)
  | cancelled timerid u =>
    intro b hb e he t ht
    by_cases hne : e.timer = timerid.timer
    · simp [State.cancelled, hne] at ht
    · exact h b hb e he t ((Function.update_of_ne hne ..).symm.trans ht)
  | extracted now active fd hidle =>
    intro b hb e he t ht
    cases hb
    obtain ⟨hmem, hle⟩ := hs.mem_due.mp he
    obtain ⟨u, hu, hexp, -⟩ := howned.live_of_mem hmem
    obtain rfl := Option.some.inj (ht.symm.trans hu)
    exact hexp.trans_le hle
  | started now done e rest t hb ht =>
    intro b hb' e' he'
    cases hb'
    exact h _ hb e' (List.mem_cons_of_mem e he')
  | reset clock b r fd hb hwaiting hreadded =>
    intro b' hb'
    have hidle : r.batch = none := hreadded.batch
    cases hidle.symm.trans hb'
  | inserted | noted | expired => exact h

/-- A start of the callback follows the schedule, and is the last call so far. -/
theorem Follows.start (hs : Sound s) (hover : Overdue s)
    (h : Follows when_ interval id readings s) {done : List Entry} {e : Entry} {rest : List Entry}
    {t : Timer} (hb : s.batch = some ⟨now, done, e :: rest⟩) (ht : s.heap e.timer = some t)
    (hid : id = ⟨e.timer, t.sequence⟩) :
    Follows when_ interval id (readings ++ [now])
      { s with batch := some ⟨now, done ++ [e], rest⟩ } := by
  subst hid
  obtain ⟨owner, howned⟩ := hs.owned
  -- The batch holds each timer once.
  have hnot : ¬ s.Called e.timer := by
    rintro ⟨b, hb', hmem⟩
    obtain rfl := Option.some.inj (hb.symm.trans hb')
    have hnodup := howned.nodup_held
    rw [held_of_some hb, List.map_append] at hnodup
    exact (List.nodup_append.mp hnodup).2.2 _ hmem _ List.mem_cons_self rfl
  have hcalled : State.Called { s with batch := some ⟨now, done ++ [e], rest⟩ } e.timer :=
    (called_iff rfl).mpr (by simp)
  have hnext := h.next t ht rfl
  obtain ⟨hexp, hagain⟩ := hnext.waits hnot
  have hdue := hover _ hb e List.mem_cons_self t ht
  refine ⟨h.numbered, h.onSchedule.snoc (hexp ▸ hdue) hagain, fun u hu hq => ?_⟩
  obtain rfl := Option.some.inj (ht.symm.trans hu)
  refine ⟨hnext.made, fun _ b' hb' => ?_, fun hno => absurd hcalled hno⟩
  cases hb'
  simp

/-- What `reset` leaves of a timer. -/
theorem reset_heap (hs : Sound s) {clock : Int} (hm : may s (.endRead clock))
    (hstep : step s (.endRead clock) = .ok (o, s')) {a : Nat} {u : Timer}
    (hu : s'.heap a = some u) : ∃ t, s.heap a = some t ∧
      ((∃ b ∈ s.batch, s.Called a ∧ t.repeats = true ∧
        u = { t with expiration := b.now + t.interval.micros }) ∨ ¬ s.Called a ∧ u = t) := by
  obtain ⟨owner, howned⟩ := hs.owned
  obtain ⟨b, hb, hwaiting⟩ := hm
  have hb : s.batch = some b := hb
  obtain ⟨r, fd, hr, rfl⟩ := endRead_readd hb hstep
  have hu : r.heap a = some u := hu
  have hnodup := howned.nodup_held
  rw [held_of_some hb] at hnodup
  have hmem : a ∈ (b.done ++ b.waiting).map Entry.timer ↔ s.Called a := by
    rw [called_iff hb, show b.waiting = [] from hwaiting, List.append_nil]
  by_cases hcalled : s.Called a
  · obtain ⟨t, ht, -⟩ := ((howned.placed a).held).mp (called_held hcalled)
    have hsettles := readd_settles hr hnodup (hmem.mpr hcalled) ht
    split at hsettles
    · next hagain =>
      rw [hu, Timer.restart, if_pos hagain.1] at hsettles
      exact ⟨t, ht, .inl ⟨b, hb, hcalled, hagain.1, Option.some.inj hsettles.1⟩⟩
    · rw [hu] at hsettles
      cases hsettles
  · rw [(readd_frame hr).1 a (mt hmem.mp hcalled)] at hu
    exact ⟨u, hu, .inr ⟨hcalled, rfl⟩⟩

/-- After `reset` a timer that is still there has the time of its next call. -/
theorem Follows.reset (hs : Sound s) (h : Follows when_ interval id readings s) {clock : Int}
    (hm : may s (.endRead clock)) (hstep : step s (.endRead clock) = .ok (o, s')) :
    Follows when_ interval id readings s' := by
  have hidle : s'.batch = none ∧ s'.numCreated = s.numCreated := by
    cases hs.stepped hm hstep with
    | reset _ b r fd hb hwaiting hreadded => exact ⟨hreadded.batch, hreadded.numCreated⟩
  refine ⟨h.numbered.trans hidle.2.ge, h.onSchedule, fun u hu hq => ?_⟩
  have hnone {P : Prop} (hc : s'.Called id.timer) : P := absurd hc (not_called hidle.1)
  obtain ⟨t, ht, ⟨b, hb, hcalled, hrepeats, rfl⟩ | ⟨hcalled, rfl⟩⟩ := reset_heap hs hm hstep hu
  · have hnext := h.next t ht hq
    refine ⟨hnext.made, hnone, fun _ => ?_⟩
    rw [due, hnext.called hcalled b hb, ← hnext.made]
    exact ⟨rfl, .inr hrepeats⟩
  · have hnext := h.next u ht hq
    exact ⟨hnext.made, hnone, fun _ => hnext.waits hcalled⟩

theorem follows_step (hs : Sound s) (hover : Overdue s)
    (h : Follows when_ interval id readings s) (hm : may s l) (hstep : step s l = .ok (o, s')) :
    Follows when_ interval id
      (readings ++ if o = some (.started id) then (s.batch.map Batch.now).toList else []) s' := by
  cases hs.stepped hm hstep with
  | created a w i hfree =>
    rw [if_neg (by simp), List.append_nil]
    refine h.congr (Nat.le_succ _) (fun t ht hq => ?_) Iff.rfl fun _ => rfl
    by_cases ha : id.timer = a
    · rw [ha] at ht
      obtain rfl : _ = t := by simpa using ht
      have := h.numbered
      have : s.numCreated + 1 = id.sequence := hq
      omega
    · exact (Function.update_of_ne ha ..).symm.trans ht
  | cancelled timerid u =>
    rw [if_neg (by simp), List.append_nil]
    refine h.congr le_rfl (fun t ht _ => ?_) Iff.rfl fun _ => rfl
    by_cases ha : id.timer = timerid.timer
    · simp [State.cancelled, ha] at ht
    · exact (Function.update_of_ne ha ..).symm.trans ht
  | extracted now active fd hidle =>
    rw [if_neg (by simp), List.append_nil]
    exact h.congr le_rfl (fun _ ht _ => ht)
      (iff_of_false (by simp [State.Called]) (not_called hidle)) fun hc => absurd hc (not_called hidle)
  | started now done e rest t hb ht =>
    by_cases hid : id = ⟨e.timer, t.sequence⟩
    · rw [if_pos (by rw [hid]), hb]
      exact h.start hs hover hb ht hid
    · rw [if_neg (by simpa [eq_comm] using hid), List.append_nil]
      refine ⟨h.numbered, h.onSchedule, fun u hu hq => ?_⟩
      have hne : id.timer ≠ e.timer := by
        intro heq
        rw [heq] at hu
        obtain rfl := Option.some.inj (ht.symm.trans hu)
        obtain ⟨timer, sequence⟩ := id
        exact hid (TimerId.mk.injEq .. ▸ ⟨heq, hq.symm⟩)
      have hcalled : State.Called { s with batch := some ⟨now, done ++ [e], rest⟩ } id.timer ↔
          s.Called id.timer := by
        rw [called_iff rfl, called_iff hb, List.map_append, List.mem_append, List.map_singleton,
          List.mem_singleton, or_iff_left hne]
      have hnext := h.next u hu hq
      refine ⟨hnext.made, fun hc b' hb' => ?_, fun hc => hnext.waits (mt hcalled.mpr hc)⟩
      cases hb'
      exact (hnext.called (hcalled.mp hc) ⟨now, done, e :: rest⟩ hb)
  | reset clock b r fd hb hwaiting hreadded =>
    rw [if_neg (by simp), List.append_nil]
    exact h.reset hs hm hstep
  | inserted | noted | expired =>
    rw [if_neg (by simp), List.append_nil]
    exact h.congr le_rfl (fun _ ht _ => ht) Iff.rfl fun _ => rfl

/-! ### Every run -/

structure Kept (tr : List (Action × Option Event)) (s : State) : Prop where
  reading : ∀ b ∈ s.batch, lastReading 0 tr = b.now
  overdue : Overdue s
  unissued : ∀ id : TimerId, s.numCreated < id.sequence → startReadings id 0 tr = []
  follows : ∀ id when_ interval, (.create id.timer when_ interval, some (.issued id)) ∈ tr →
    Follows when_ interval id (startReadings id 0 tr) s

/-- A start is at the reading of the batch in progress. -/
theorem Kept.startReadings_snoc (hk : Kept tr s) (hs : Sound s) (hm : may s l)
    (hstep : step s l = .ok (o, s')) (id : TimerId) :
    startReadings id 0 (tr ++ [(l, o)]) = startReadings id 0 tr ++
      if o = some (.started id) then (s.batch.map Batch.now).toList else [] := by
  cases hs.stepped hm hstep with
  | extracted => rw [startReadings_snoc_beginRead, if_neg (by simp), List.append_nil]
  | started now done e rest t hb =>
    rw [TimerQueue.startReadings_snoc (by simp), hk.reading _ hb, hb]
    rfl
  | created | inserted | cancelled | noted | reset | expired =>
    rw [TimerQueue.startReadings_snoc (by simp), if_neg (by simp), if_neg (by simp)]

theorem Kept.reading_step (hk : Kept tr s) (hs : Sound s) (hm : may s l)
    (hstep : step s l = .ok (o, s')) : ∀ b ∈ s'.batch, lastReading 0 (tr ++ [(l, o)]) = b.now := by
  intro b hb
  cases hs.stepped hm hstep with
  | extracted now =>
    cases hb
    exact lastReading_snoc_beginRead
  | started now done e rest t hb' =>
    cases hb
    exact (lastReading_snoc (by simp)).trans (hk.reading ⟨now, done, e :: rest⟩ hb')
  | reset clock b' r fd hb' hwaiting hreadded =>
    have hidle : r.batch = none := hreadded.batch
    cases hidle.symm.trans hb
  | created | inserted | cancelled | noted | expired =>
    exact (lastReading_snoc (by simp)).trans (hk.reading b hb)

theorem kept_step (hk : Kept tr s) (hs : Sound s) (hm : may s l)
    (hstep : step s l = .ok (o, s')) : Kept (tr ++ [(l, o)]) s' := by
  obtain ⟨owner, howned⟩ := hs.owned
  have hgrow (id : TimerId) (hid : id.sequence ≤ s.numCreated) : s.numCreated ≤ s'.numCreated :=
    (live_step hs hm hstep hid).1
  have hmono := hgrow ⟨0, 0⟩ (Nat.zero_le _)
  refine ⟨hk.reading_step hs hm hstep, overdue_step hs hk.overdue hm hstep, fun id hid => ?_,
    fun id when_ interval hmem => ?_⟩
  · rw [hk.startReadings_snoc hs hm hstep, hk.unissued id (hmono.trans_lt hid), List.nil_append,
      if_neg]
    rintro rfl
    cases hs.stepped hm hstep with
    | started now done e rest t hb ht =>
      exact absurd hid (Nat.not_lt.mpr (howned.fresh _ t ht).1)
  · rw [hk.startReadings_snoc hs hm hstep]
    obtain hmem | hmem := List.mem_append.mp hmem
    · exact follows_step hs hk.overdue (hk.follows id when_ interval hmem) hm hstep
    · -- The timer is new.
      obtain ⟨rfl, rfl⟩ : .create id.timer when_ interval = l ∧ some (.issued id) = o := by
        simpa using hmem
      obtain ⟨timer, sequence⟩ := id
      cases hstep
      rw [hk.unissued _ (Nat.lt_succ_self _), List.nil_append, if_neg (by simp)]
      have hidle : ¬ s.Called timer := fun hc => by
        obtain ⟨t, ht, -⟩ := ((howned.placed timer).held).mp (called_held hc)
        cases ht.symm.trans hm.1
      refine ⟨le_rfl, onSchedule_nil, fun t ht _ => ?_⟩
      obtain rfl : _ = t := by simpa using ht
      exact ⟨rfl, fun hc => absurd hc hidle, fun _ => ⟨rfl, .inl rfl⟩⟩

theorem kept_run {calling : Bool} (h : machine.Run (initial calling) tr s) : Kept tr s := by
  refine h.snoc_induction (P := Kept) ⟨nofun, nofun, fun _ _ => rfl, nofun⟩ ?_
  exact fun tr s l o s' hrun hk hm hstep =>
    kept_step hk (sound_inductive.run hrun (sound_initial calling)) hm hstep

/-- **A timer is called on the schedule it was made for**: not before its time, the calls an
interval apart by the clock, and once at most if it does not repeat. -/
theorem timer_contract {calling : Bool} (h : machine.Run (initial calling) tr s) {a q : Nat}
    (hid : (.create a when_ interval, some (.issued ⟨a, q⟩)) ∈ tr) :
    (∀ (k : Nat) reading, (startReadings ⟨a, q⟩ 0 tr)[k]? = some reading →
      when_ + k * interval.micros ≤ reading) ∧
    (startReadings ⟨a, q⟩ 0 tr).IsChain (fun reading next => reading + interval.micros ≤ next) ∧
    (interval.positive = false → (startReadings ⟨a, q⟩ 0 tr).length ≤ 1) := by
  have hsched := ((kept_run h).follows ⟨a, q⟩ when_ interval hid).onSchedule
  exact ⟨fun k reading hk => hsched.le_getElem hk, hsched.apart, hsched.once⟩

/-- A timer that repeats every 50, read late the first time. -/
theorem timer_contract_late : ∃ tr s, machine.Run (initial false) tr s ∧
    startReadings ⟨7, 1⟩ 0 tr = [130, 180] ∧
    (startReadings ⟨7, 1⟩ 0 tr).IsChain (fun reading next => reading + 50 ≤ next) := by
  obtain ⟨tr, s, h, -, hid, hreadings⟩ := machine.exists_run_of_replay (s := initial false)
    (P := fun tr _ => (.create 7 100 (.every 50), some (.issued ⟨7, 1⟩)) ∈ tr ∧
      startReadings ⟨7, 1⟩ 0 tr = [130, 180])
    [.create 7 100 (.every 50), .addTimerInLoop 7 50, .expire, .beginRead 130, .run, .endRead 131,
      .expire, .beginRead 170, .endRead 170, .beginRead 180, .run, .endRead 181]
    (by decide +kernel)
  obtain ⟨-, hapart, -⟩ := timer_contract h hid
  exact ⟨tr, s, h, hreadings, hapart⟩

/-! ### The loop's functions -/

/-- `runAt(time, cb)`, up to the functor. -/
def runAt (timer : Nat) (time : Int) : Action := .create timer time .once

/-- `runAfter(delay, cb)` at `now`, the delay in the microseconds that `addTime` makes of it. -/
def runAfter (timer : Nat) (now delay : Int) : Action := runAt timer (now + delay)

/-- `runEvery(interval, cb)` at `now`. -/
def runEvery (timer : Nat) (now : Int) (interval : Interval) : Action :=
  .create timer (now + interval.micros) interval

/-- Calls are counted from one, and are never ahead of their count. -/
theorem runEvery_le {calling : Bool} (h : machine.Run (initial calling) tr s) {a q k : Nat}
    (hid : (runEvery a now interval, some (.issued ⟨a, q⟩)) ∈ tr) {reading : Int}
    (hk : (startReadings ⟨a, q⟩ 0 tr)[k]? = some reading) :
    now + (k + 1) * interval.micros ≤ reading := by
  have hsched := ((kept_run h).follows ⟨a, q⟩ _ interval hid).onSchedule
  calc now + (k + 1) * interval.micros = now + interval.micros + k * interval.micros := by ring
    _ ≤ reading := hsched.le_getElem hk

/-! ### The end of the queue -/

/-- The loop of `~TimerQueue`. -/
def deleteAll (s : State) : List Entry → Except Fault State
  | [] => pure s
  | e :: rest => do
    let s ← delete s e.timer
    deleteAll s rest

/-- `~TimerQueue`, but for its channel. -/
def destruct (s : State) : Except Fault State := deleteAll s s.timers.elems

theorem deleteAll_spec {es : List Entry} (hnodup : (es.map Entry.timer).Nodup)
    (hlive : ∀ e ∈ es, s.heap e.timer ≠ none) : ∃ heap, deleteAll s es = .ok { s with heap } ∧
      ∀ a, heap a = if a ∈ es.map Entry.timer then none else s.heap a := by
  induction es generalizing s with
  | nil => exact ⟨s.heap, rfl, fun a => (if_neg List.not_mem_nil).symm⟩
  | cons e rest ih =>
    obtain ⟨hnot, hnodup⟩ := List.nodup_cons.mp hnodup
    obtain ⟨hlive, hrest⟩ := List.forall_mem_cons.mp hlive
    obtain ⟨t, ht⟩ := Option.ne_none_iff_exists'.mp hlive
    obtain ⟨heap, hrun, hheap⟩ := ih (s := { s with heap := Function.update s.heap e.timer none })
      hnodup fun d hd => by
        have hne : d.timer ≠ e.timer := fun heq => hnot (heq ▸ List.mem_map_of_mem hd)
        exact (Function.update_of_ne hne ..).trans_ne (hrest d hd)
    refine ⟨heap, ?_, fun a => ?_⟩
    · simp only [deleteAll, delete, ht, deref_some, ok_bind, pure_eq_ok, hrun]
    · by_cases ha : a = e.timer
      · simp [hheap, ha]
      · simp only [hheap, Function.update_of_ne ha, List.map_cons, List.mem_cons, ha, false_or]

/-- **With the queue its timers are deleted, each once, and those are left whose `addTimerInLoop`
has not run.** -/
theorem destruct_leaks {calling : Bool} (h : machine.Run (initial calling) tr s)
    (hidle : s.batch = none) : ∃ s', destruct s = .ok s' ∧
      ∀ a, s'.heap a = if a ∈ s.created then s.heap a else none := by
  obtain ⟨owner, howned⟩ := (sound_inductive.run h (sound_initial calling)).owned
  rw [held_of_none hidle] at howned
  have hlive : ∀ e ∈ s.timers.elems, s.heap e.timer ≠ none := fun e he => by
    obtain ⟨t, ht, -⟩ := howned.live_of_mem he
    simp [ht]
  -- A timer is in the set under its expiration alone.
  have hnodup : (s.timers.elems.map Entry.timer).Nodup := by
    refine s.timers.sorted.nodup.map_on fun d hd e he heq => ?_
    obtain ⟨t, ht, hd, -⟩ := howned.live_of_mem hd
    obtain ⟨u, hu, he, -⟩ := howned.live_of_mem he
    rw [heq] at ht
    obtain rfl := Option.some.inj (ht.symm.trans hu)
    rw [← entry_eta d, ← entry_eta e, heq, ← hd, he]
  obtain ⟨heap, hrun, hheap⟩ := deleteAll_spec hnodup hlive
  refine ⟨_, hrun, fun a => (hheap a).trans ?_⟩
  cases ha : s.heap a with
  | none => simp
  | some t =>
    have hmem : a ∈ s.timers.elems.map Entry.timer ↔ owner a = .queue := by
      refine ⟨fun hmem => ?_, fun ho => ?_⟩
      · obtain ⟨e, he, rfl⟩ := List.mem_map.mp hmem
        exact (howned.live_of_mem he).choose_spec.2.2
      · exact List.mem_map.mpr ⟨entry t.expiration a, (howned.mem_timers ha).mpr ⟨rfl, ho⟩, rfl⟩
    simp only [hmem, howned.mem_created ha]
    cases ho : owner a with
    | functor => rfl
    | queue => rfl
    | batch => exact absurd ((howned.mem_held ha).mpr ho) List.not_mem_nil

/-- Two timers in the queue, and a functor that will not run. -/
theorem destruct_leaks_functor : ∃ tr s, machine.Run (initial false) tr s ∧ s.created = [9] ∧
    ∃ s', destruct s = .ok s' ∧ ∀ a, s'.heap a = if a ∈ s.created then s.heap a else none := by
  obtain ⟨tr, s, h, -, hidle, hcreated⟩ := machine.exists_run_of_replay (s := initial false)
    (P := fun _ s => s.batch.isNone = true ∧ s.created = [9])
    [.create 7 100 (.every 50), .addTimerInLoop 7 50, .create 8 200 .once, .addTimerInLoop 8 50,
      .create 9 300 .once]
    (by decide +kernel)
  exact ⟨tr, s, h, hcreated, destruct_leaks h (Option.isNone_iff_eq_none.mp hidle)⟩

end Leanet.TimerQueue

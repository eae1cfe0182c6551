import Leanet.Timer.TimerQueue

/-! Who owns a timer.

Every live timer has one owner: the functor that will insert it, the two sets together,
or the batch that `handleRead` is working on. `Owned` states the sets, the created timers
and the batch as the three fibres of one owner function, so a timer cannot be in two
places, and each operation changes the owner of one timer at a time. The loops of
`getExpired` and `reset` are followed with the rest of their batch as a parameter. -/
namespace Leanet.TimerQueue

inductive Owner where
  | functor
  | queue
  | batch
  deriving DecidableEq

/-- The timers the batch in progress holds. -/
def State.held (s : State) : List Nat :=
  match s.batch with
  | none => []
  | some b => (b.done ++ b.waiting).map Entry.timer

/-- What the owner `o` of the address `a` says about the sets and lists there. -/
structure Placed (o : Owner) (created held : List Nat) (s : State) (a : Nat) : Prop where
  timers : ∀ e, entry e a ∈ s.timers ↔ ∃ t, s.heap a = some t ∧ t.expiration = e ∧ o = .queue
  active : ∀ q, activeTimer a q ∈ s.activeTimers ↔
    ∃ t, s.heap a = some t ∧ t.sequence = q ∧ o = .queue
  created : a ∈ created ↔ ∃ t, s.heap a = some t ∧ o = .functor
  held : a ∈ held ↔ ∃ t, s.heap a = some t ∧ o = .batch

/-- The ownership invariant: `created` and `held` are the timers of the functors and of
the batch. -/
structure Owned (owner : Nat → Owner) (created held : List Nat) (s : State) : Prop where
  placed : ∀ a, Placed (owner a) created held s a
  nodup_created : created.Nodup
  nodup_held : held.Nodup
  fresh : ∀ a t, s.heap a = some t → t.sequence ≤ s.numCreated ∧ a < UINTPTR_MAX
  distinct : ∀ a b t u, s.heap a = some t → s.heap b = some u → t.sequence = u.sequence → a = b

theorem entry_inj {e e' : Int} {a a' : Nat} : entry e a = entry e' a' ↔ e = e' ∧ a = a' := by
  simp [entry]

theorem activeTimer_inj {a a' q q' : Nat} : activeTimer a q = activeTimer a' q' ↔ a = a' ∧ q = q' := by
  simp [activeTimer]

theorem entry_eta (e : Entry) : entry e.expiration e.timer = e := rfl

theorem owned_initial (calling : Bool) : Owned (fun _ => .functor) [] [] (initial calling) := by
  refine ⟨fun a => ⟨?_, ?_, ?_, ?_⟩, .nil, .nil, nofun, nofun⟩ <;> intros <;> simp [initial]

variable {owner : Nat → Owner} {created held : List Nat} {s : State} {a : Nat} {t : Timer}

namespace Owned

theorem mem_timers (h : Owned owner created held s) (ha : s.heap a = some t) {e : Int} :
    entry e a ∈ s.timers ↔ t.expiration = e ∧ owner a = .queue := by
  simp [(h.placed a).timers, ha]

theorem mem_active (h : Owned owner created held s) (ha : s.heap a = some t) {q : Nat} :
    activeTimer a q ∈ s.activeTimers ↔ t.sequence = q ∧ owner a = .queue := by
  simp [(h.placed a).active, ha]

theorem mem_created (h : Owned owner created held s) (ha : s.heap a = some t) :
    a ∈ created ↔ owner a = .functor := by
  simp [(h.placed a).created, ha]

theorem mem_held (h : Owned owner created held s) (ha : s.heap a = some t) :
    a ∈ held ↔ owner a = .batch := by
  simp [(h.placed a).held, ha]

/-- Only the address `a` changes, and `o` owns it now. -/
theorem change (h : Owned owner created held s) {s' : State} {created' held' : List Nat} (a : Nat)
    (o : Owner) (hheap : ∀ b, b ≠ a → s'.heap b = s.heap b)
    (htimers : ∀ e b, b ≠ a → (entry e b ∈ s'.timers ↔ entry e b ∈ s.timers))
    (hactive : ∀ b q, b ≠ a → (activeTimer b q ∈ s'.activeTimers ↔ activeTimer b q ∈ s.activeTimers))
    (hcreated : ∀ b, b ≠ a → (b ∈ created' ↔ b ∈ created))
    (hheld : ∀ b, b ≠ a → (b ∈ held' ↔ b ∈ held))
    (hplaced : Placed o created' held' s' a) (hnodup : created'.Nodup ∧ held'.Nodup)
    (hnum : s.numCreated ≤ s'.numCreated)
    (hfresh : ∀ t, s'.heap a = some t → t.sequence ≤ s'.numCreated ∧ a < UINTPTR_MAX ∧
      ∀ b u, b ≠ a → s.heap b = some u → t.sequence ≠ u.sequence) :
    Owned (Function.update owner a o) created' held' s' := by
  refine ⟨fun b => ?_, hnodup.1, hnodup.2, fun b u hu => ?_, fun b c u v hu hv huv => ?_⟩
  · by_cases hb : b = a
    · subst hb
      rwa [Function.update_self]
    · obtain ⟨ht, hac, hc, hh⟩ := h.placed b
      rw [Function.update_of_ne hb]
      refine ⟨fun e => ?_, fun q => ?_, ?_, ?_⟩
      · rw [htimers e b hb, hheap b hb, ht]
      · rw [hactive b q hb, hheap b hb, hac]
      · rw [hcreated b hb, hheap b hb, hc]
      · rw [hheld b hb, hheap b hb, hh]
  · by_cases hb : b = a
    · subst hb
      exact ⟨(hfresh u hu).1, (hfresh u hu).2.1⟩
    · rw [hheap b hb] at hu
      exact ⟨(h.fresh b u hu).1.trans hnum, (h.fresh b u hu).2⟩
  · by_cases hb : b = a <;> by_cases hc : c = a
    · rw [hb, hc]
    · subst hb
      rw [hheap c hc] at hv
      exact absurd huv ((hfresh u hu).2.2 c v hc hv)
    · subst hc
      rw [hheap b hb] at hu
      exact absurd huv.symm ((hfresh v hv).2.2 b u hb hu)
    · rw [hheap b hb] at hu
      rw [hheap c hc] at hv
      exact h.distinct b c u v hu hv huv

/-- The sequence number of a live timer is its own. -/
theorem own (h : Owned owner created held s) (ha : s.heap a = some t) {u : Timer}
    (hu : u.sequence = t.sequence) : u.sequence ≤ s.numCreated ∧ a < UINTPTR_MAX ∧
      ∀ b v, b ≠ a → s.heap b = some v → u.sequence ≠ v.sequence :=
  ⟨hu ▸ (h.fresh a t ha).1, (h.fresh a t ha).2, fun b v hb hv heq =>
    hb (h.distinct b a v t hv ha (heq.symm.trans hu))⟩

end Owned

/-! ### One timer at a time -/

/-- A new timer belongs to the functor that will insert it. -/
theorem owned_create (h : Owned owner created held s) (hfree : s.heap a = none)
    (haddr : a < UINTPTR_MAX) (hseq : t.sequence = s.numCreated + 1) {s' : State}
    (hheap : s'.heap = Function.update s.heap a (some t)) (hnum : s'.numCreated = s.numCreated + 1)
    (htimers : s'.timers = s.timers) (hactive : s'.activeTimers = s.activeTimers) :
    Owned (Function.update owner a .functor) (created ++ [a]) held s' := by
  obtain ⟨ht, hac, hc, hh⟩ := h.placed a
  simp only [hfree, reduceCtorEq, false_and, exists_false, iff_false] at ht hac hc hh
  refine h.change a .functor (fun b hb => by rw [hheap, Function.update_of_ne hb])
    (fun e b _ => by rw [htimers]) (fun b q _ => by rw [hactive])
    (fun b hb => by simp [hb]) (fun _ _ => Iff.rfl)
    ⟨fun e => by simp [htimers, ht], fun q => by simp [hactive, hac], by simp [hheap],
      by simp [hh]⟩ ⟨?_, h.nodup_held⟩ (by omega) (fun u hu => ?_)
  · rw [List.nodup_append]
    refine ⟨h.nodup_created, List.nodup_singleton a, ?_⟩
    rintro b hb c hca rfl
    exact hc (List.mem_singleton.mp hca ▸ hb)
  · obtain rfl : t = u := by simpa [hheap] using hu
    refine ⟨by omega, haddr, fun b v _ hv heq => ?_⟩
    have := (h.fresh b v hv).1
    omega

/-- The state after `insert` of the timer `t` at `a`. -/
def State.queued (s : State) (a : Nat) (t : Timer) : State :=
  { s with
    timers := s.timers.insert (entry t.expiration a)
    activeTimers := s.activeTimers.insert (activeTimer a t.sequence) }

/-- What `insert` returns. -/
def State.isEarliest (s : State) (t : Timer) : Bool :=
  match s.timers.first with
  | none => true
  | some e => decide (t.expiration < e.expiration)

theorem insert_eq (ha : s.heap a = some t) :
    insert s a = .ok (s.isEarliest t, s.queued a t) := by
  simp only [insert, ha, deref_some, ok_bind]
  rfl

/-- `insert` takes a timer that is not in the sets. -/
theorem owned_insert (h : Owned owner created held s) (ha : s.heap a = some t)
    (ho : owner a ≠ .queue) :
    Owned (Function.update owner a .queue) (created.erase a) (held.erase a) (s.queued a t) := by
  refine h.change a .queue (fun _ _ => rfl) (fun e b hb => ?_) (fun b q hb => ?_)
    (fun b hb => List.mem_erase_of_ne hb) (fun b hb => List.mem_erase_of_ne hb)
    ⟨fun e => ?_, fun q => ?_, ?_, ?_⟩ ⟨h.nodup_created.erase a, h.nodup_held.erase a⟩ le_rfl
    (fun u hu => ?_)
  · simp [State.queued, entry_inj, hb]
  · simp [State.queued, activeTimer_inj, hb]
  · have hnot : entry e a ∉ s.timers := fun hm => ho ((h.mem_timers ha).mp hm).2
    simp [State.queued, entry_inj, hnot, ha, eq_comm]
  · have hnot : activeTimer a q ∉ s.activeTimers := fun hm => ho ((h.mem_active ha).mp hm).2
    simp [State.queued, activeTimer_inj, hnot, ha, eq_comm]
  · simp [h.nodup_created.not_mem_erase]
  · simp [h.nodup_held.not_mem_erase]
  · obtain rfl := Option.some.inj (ha.symm.trans hu)
    exact h.own ha rfl

/-- A timer that is in the sets no longer, and deleted. -/
theorem owned_delete (h : Owned owner created held s) {s' : State}
    (hheap : s'.heap = Function.update s.heap a none) (hnum : s'.numCreated = s.numCreated)
    (htimers : ∀ e b, entry e b ∈ s'.timers ↔ b ≠ a ∧ entry e b ∈ s.timers)
    (hactive : ∀ b q, activeTimer b q ∈ s'.activeTimers ↔ b ≠ a ∧ activeTimer b q ∈ s.activeTimers) :
    Owned (Function.update owner a .functor) (created.erase a) (held.erase a) s' := by
  refine h.change a .functor (fun b hb => by rw [hheap, Function.update_of_ne hb])
    (fun e b hb => by simp [htimers, hb]) (fun b q hb => by simp [hactive, hb])
    (fun b hb => List.mem_erase_of_ne hb) (fun b hb => List.mem_erase_of_ne hb)
    ⟨fun e => by simp [htimers], fun q => by simp [hactive], ?_, ?_⟩
    ⟨h.nodup_created.erase a, h.nodup_held.erase a⟩ hnum.ge (fun u hu => ?_)
  · simp [hheap, h.nodup_created.not_mem_erase]
  · simp [h.nodup_held.not_mem_erase]
  · simp [hheap] at hu

/-- What the invariant reads of a state. -/
theorem Owned.congr (h : Owned owner created held s) {s' : State} (hheap : s'.heap = s.heap)
    (hnum : s'.numCreated = s.numCreated) (htimers : s'.timers = s.timers)
    (hactive : s'.activeTimers = s.activeTimers) : Owned owner created held s' := by
  refine ⟨fun a => ?_, h.nodup_created, h.nodup_held, ?_, ?_⟩
  · obtain ⟨ht, hac, hc, hh⟩ := h.placed a
    exact ⟨by rwa [hheap, htimers], by rwa [hheap, hactive], by rwa [hheap], by rwa [hheap]⟩
  · rw [hheap, hnum]
    exact h.fresh
  · rw [hheap]
    exact h.distinct

/-- A held timer is changed, but keeps its number. -/
theorem owned_restart (h : Owned owner created held s) (ha : s.heap a = some t)
    (ho : owner a = .batch) {u : Timer} (hu : u.sequence = t.sequence) :
    Owned owner created held { s with heap := Function.update s.heap a (some u) } := by
  have hplaced := h.placed a
  have howner : Function.update owner a .batch = owner := by rw [← ho, Function.update_eq_self]
  rw [← howner]
  refine h.change a .batch (fun b hb => Function.update_of_ne hb ..) (fun _ _ _ => Iff.rfl)
    (fun _ _ _ => Iff.rfl) (fun _ _ => Iff.rfl) (fun _ _ => Iff.rfl)
    ⟨fun e => ?_, fun q => ?_, ?_, ?_⟩ ⟨h.nodup_created, h.nodup_held⟩ le_rfl (fun v hv => ?_)
  · simp [h.mem_timers ha, ho]
  · simp [h.mem_active ha, ho]
  · simp [h.mem_created ha, ho]
  · simp [h.mem_held ha, ho]
  · obtain rfl : u = v := by simpa using hv
    exact h.own ha hu

end Leanet.TimerQueue

import Leanet.Loop.EventLoop
import Leanet.Poll.Active

/-! Which channels the loop dispatches to.

`poll` fills `activeChannels_`, and `loop` then calls `handleEvent` on one after the other without
looking at the poller again, while the callbacks may take any channel out of it and its owner may
delete the channel. A channel that gets its turn was in the poller when `poll` returned; it still
is exactly if no callback of the dispatch has taken it out (`dispatch_listed`). -/
namespace Leanet

/-! ### One channel in the poller's map -/

namespace Poller

/-- `channels_` finds the channel under its descriptor. -/
def Listed {ι : Type} (s : State ι) (c : ι) : Prop :=
  s.channels[((s.channel c).fd : Int)]? = some c

/-- The map holds channels under their descriptors, and they have had an index. -/
def Keyed {ι : Type} (s : State ι) : Prop :=
  ∀ k c, s.channels[k]? = some c → ((s.channel c).fd : Int) = k ∧ 0 ≤ (s.channel c).index

variable {ι : Type} [DecidableEq ι]

instance (s : State ι) (c : ι) : Decidable (Listed s c) := inferInstanceAs (Decidable (_ = _))

/-- The map after a call. -/
def Call.table (s : State ι) : Call ι → Std.TreeMap Int ι
  | .update _ c =>
    if (s.channel c).index < 0 then s.channels.insert ((s.channel c).fd : Int) c else s.channels
  | .remove c => s.channels.erase ((s.channel c).fd : Int)
  | .poll _ => s.channels

/-- A call that leaves `c` in the map: no other channel takes its place, and it is not removed,
nor another one of its descriptor. -/
def Spares (c : ι) (s : State ι) : Call ι → Prop
  | .update _ d => d = c ∨ 0 ≤ (s.channel d).index ∨ (s.channel d).fd ≠ (s.channel c).fd
  | .remove d => (s.channel d).fd ≠ (s.channel c).fd
  | .poll _ => True

/-- Descriptors stay, and a channel with an index keeps one. -/
structure Keeps (heap heap' : ι → Channel) : Prop where
  fd : ∀ d, (heap' d).fd = (heap d).fd
  index : ∀ d, 0 ≤ (heap d).index → 0 ≤ (heap' d).index

variable {build : Build} {s s' : State ι} {c d : ι} {l : Call ι} {active : List ι}

omit [DecidableEq ι] in
/-- To disciplined clients the map lists what is registered. -/
theorem Table.listed_iff (h : Table s) : Listed s c ↔ s.Registered c :=
  (h.mapped.lookup _ c).trans (and_iff_left rfl)

omit [DecidableEq ι] in
theorem Keeps.refl (heap : ι → Channel) : Keeps heap heap := ⟨fun _ => rfl, fun _ h => h⟩

omit [DecidableEq ι] in
theorem Keeps.trans {a b c : ι → Channel} (h : Keeps a b) (h' : Keeps b c) : Keeps a c :=
  ⟨fun d => (h'.fd d).trans (h.fd d), fun d hd => h'.index d (h.index d hd)⟩

theorem keeps_update {heap : ι → Channel} {x : Channel} (hfd : x.fd = (heap c).fd)
    (hindex : 0 ≤ (heap c).index → 0 ≤ x.index) : Keeps heap (Function.update heap c x) := by
  constructor
  · intro d
    by_cases hd : d = c
    · subst hd
      rw [Function.update_self, hfd]
    · rw [Function.update_of_ne hd]
  · intro d hold
    by_cases hd : d = c
    · subst hd
      rw [Function.update_self]
      exact hindex hold
    · rwa [Function.update_of_ne hd]

theorem updateChannel_keeps (h : updateChannel build s c = .ok s') :
    Keeps s.channel s'.channel ∧ 0 ≤ (s'.channel c).index ∧ s'.channels = Call.table s (.update .disableAll c) := by
  unfold updateChannel at h
  dsimp only at h
  split at h
  · next hnew =>
    obtain ⟨-, -, h⟩ := bind_eq_ok.mp h
    cases h
    refine ⟨keeps_update rfl fun _ => Int.natCast_nonneg _, ?_, (if_pos hnew).symm⟩
    simp [State.setChannel, Channel.setIndex]
  · next hold =>
    obtain ⟨-, -, h⟩ := bind_eq_ok.mp h
    obtain ⟨pfd, -, h⟩ := bind_eq_ok.mp h
    obtain ⟨-, -, h⟩ := bind_eq_ok.mp h
    cases h
    exact ⟨.refl _, Int.not_lt.mp hold, (if_neg hold).symm⟩

theorem removeChannel_keeps (h : removeChannel build s c = .ok s') :
    Keeps s.channel s'.channel ∧ s'.channels = s.channels.erase ((s.channel c).fd : Int) := by
  obtain ⟨-, -, h⟩ := bind_eq_ok.mp h
  obtain ⟨-, -, h⟩ := bind_eq_ok.mp h
  obtain ⟨-, -, h⟩ := bind_eq_ok.mp h
  obtain ⟨-, -, h⟩ := bind_eq_ok.mp h
  obtain ⟨pfd, hpfd, h⟩ := bind_eq_ok.mp h
  obtain ⟨-, -, h⟩ := bind_eq_ok.mp h
  obtain ⟨-, -, h⟩ := bind_eq_ok.mp h
  dsimp only at h
  split at h
  · cases h
    exact ⟨.refl _, rfl⟩
  · obtain ⟨last, -, h⟩ := bind_eq_ok.mp h
    obtain ⟨d, -, h⟩ := bind_eq_ok.mp h
    cases h
    -- The slot that `d` moves to was read before.
    obtain ⟨n, hn, -⟩ := Slots.at?_eq_some.mp (deref_eq_ok.mp hpfd)
    exact ⟨keeps_update rfl fun _ => hn ▸ Int.natCast_nonneg n, rfl⟩

theorem fill_keeps (channels : Std.TreeMap Int ι) (pollfds : List PollFd) (numEvents : Int)
    (heap : ι → Channel) : Keeps heap (fillActiveChannels channels pollfds numEvents heap).2 := by
  constructor
  · intro d
    obtain ⟨r, hr⟩ := fill_received channels pollfds numEvents heap d
    rw [hr, Channel.setReceivedEvents]
  · intro d hd
    obtain ⟨r, hr⟩ := fill_received channels pollfds numEvents heap d
    rwa [hr]

theorem poll_keeps (s : State ι) (answer : Option (List PollFd)) :
    Keeps s.channel (poll s answer).2.channel ∧ (poll s answer).2.channels = s.channels := by
  cases answer with
  | none => exact ⟨.refl _, rfl⟩
  | some pollfds =>
    unfold poll
    dsimp only
    split
    · exact ⟨fill_keeps .., rfl⟩
    · exact ⟨.refl _, rfl⟩

/-- What a call does to the map. -/
theorem step_keeps (h : step build s l = .ok (active, s')) :
    Keeps s.channel s'.channel ∧ s'.channels = l.table s ∧ ∀ i c, l = .update i c → 0 ≤ (s'.channel c).index := by
  cases l with
  | update i c =>
    obtain ⟨t, ht, h⟩ := bind_eq_ok.mp h
    cases h
    obtain ⟨hkeeps, hindex, hchannels⟩ := updateChannel_keeps ht
    have hset : Keeps s.channel (s.setChannel c ((s.channel c).setInterest i)).channel :=
      keeps_update rfl id
    refine ⟨hset.trans hkeeps, ?_, fun j d heq => by cases heq; exact hindex⟩
    rw [hchannels]
    simp [Call.table, State.setChannel, Channel.setInterest]
  | remove c =>
    obtain ⟨-, -, h⟩ := bind_eq_ok.mp h
    obtain ⟨t, ht, h⟩ := bind_eq_ok.mp h
    cases h
    obtain ⟨hkeeps, hchannels⟩ := removeChannel_keeps ht
    exact ⟨⟨hkeeps.fd, hkeeps.index⟩, hchannels, fun _ _ heq => by cases heq⟩
  | poll answer =>
    obtain ⟨rfl, rfl⟩ := Prod.mk.inj (Except.ok.inj h)
    obtain ⟨hkeeps, hchannels⟩ := poll_keeps s answer
    exact ⟨hkeeps, hchannels, fun _ _ heq => by cases heq⟩

theorem keyed_step (hk : Keyed s) (h : step build s l = .ok (active, s')) : Keyed s' := by
  obtain ⟨hkeeps, hchannels, hindex⟩ := step_keeps h
  intro k e he
  rw [hkeeps.fd]
  rw [hchannels] at he
  have hold (he : s.channels[k]? = some e) : ((s.channel e).fd : Int) = k ∧ 0 ≤ (s'.channel e).index :=
    ⟨(hk k e he).1, hkeeps.index e (hk k e he).2⟩
  cases l with
  | update i d =>
    by_cases hnew : (s.channel d).index < 0
    · rw [Call.table, if_pos hnew, Std.TreeMap.getElem?_insert] at he
      split at he
      · next hd =>
        cases he
        exact ⟨by simpa using hd, hindex i _ rfl⟩
      · exact hold he
    · rw [Call.table, if_neg hnew] at he
      exact hold he
  | remove d =>
    rw [Call.table, Std.TreeMap.getElem?_erase] at he
    split at he
    · cases he
    · exact hold he
  | poll answer => exact hold he

/-- A channel that has had an index and is not in the map does not come back: it is there after a
call exactly if it was there, and the call has spared it. -/
theorem listed_step (hc : 0 ≤ (s.channel c).index) (h : step build s l = .ok (active, s')) :
    Listed s' c ↔ Listed s c ∧ Spares c s l := by
  obtain ⟨hkeeps, hchannels, -⟩ := step_keeps h
  rw [Listed, hkeeps.fd, hchannels]
  cases l with
  | update i d =>
    by_cases hnew : (s.channel d).index < 0
    · have hdc : d ≠ c := by
        rintro rfl
        omega
      rw [Call.table, if_pos hnew, Std.TreeMap.getElem?_insert]
      by_cases hfd : (s.channel d).fd = (s.channel c).fd
      · rw [if_pos (by simp [hfd])]
        simp [Spares, hdc, hfd, hnew]
      · rw [if_neg (by simpa [Int.natCast_inj] using hfd)]
        simp [Listed, Spares, hfd]
    · rw [Call.table, if_neg hnew]
      simp [Listed, Spares, Int.not_lt.mp hnew]
  | remove d =>
    rw [Call.table, Std.TreeMap.getElem?_erase]
    by_cases hfd : (s.channel d).fd = (s.channel c).fd
    · rw [if_pos (by simp [hfd])]
      simp [Spares, hfd]
    · rw [if_neg (by simpa [Int.natCast_inj] using hfd)]
      simp [Listed, Spares, hfd]
  | poll answer => exact (and_iff_left trivial).symm

/-- Only an update of its own puts a channel into the map. -/
theorem listed_before (h : step build s l = .ok (active, s')) (hc : Listed s' c) :
    Listed s c ∨ ∃ i, l = .update i c := by
  obtain ⟨hkeeps, hchannels, -⟩ := step_keeps h
  rw [Listed, hkeeps.fd, hchannels] at hc
  cases l with
  | update i d =>
    by_cases hnew : (s.channel d).index < 0
    · rw [Call.table, if_pos hnew, Std.TreeMap.getElem?_insert] at hc
      split at hc
      · cases hc
        exact .inr ⟨i, rfl⟩
      · exact .inl hc
    · rw [Call.table, if_neg hnew] at hc
      exact .inl hc
  | remove d =>
    rw [Call.table, Std.TreeMap.getElem?_erase] at hc
    split at hc
    · cases hc
    · exact .inl hc
  | poll answer => exact .inl hc

/-- What `fillActiveChannels` reports is in the map. -/
theorem fill_mem {channels : Std.TreeMap Int ι} {pollfds : List PollFd} {numEvents : Int}
    {heap : ι → Channel} (h : c ∈ (fillActiveChannels channels pollfds numEvents heap).1) :
    ∃ k : Int, channels[k]? = some c := by
  fun_induction fillActiveChannels channels pollfds numEvents heap with
  | case1 | case5 => simp at h
  | case2 pfd rest numEvents heap _ _ d hd active heap' hrest ih =>
    rw [hrest] at ih
    obtain rfl | hmem := List.mem_cons.mp h
    · exact ⟨pfd.fd, hd⟩
    · exact ih hmem
  | case3 _ _ _ _ _ _ _ ih | case4 _ _ _ _ _ _ ih => exact ih h

/-- What `poll` reports is in the map when it returns. -/
theorem poll_listed (hk : Keyed s) (answer : Option (List PollFd)) (hc : c ∈ (poll s answer).1) :
    Listed (poll s answer).2 c := by
  obtain ⟨hkeeps, hchannels⟩ := poll_keeps s answer
  rw [Listed, hkeeps.fd, hchannels]
  obtain ⟨k, hk'⟩ : ∃ k : Int, s.channels[k]? = some c := by
    cases answer with
    | none => simp [poll] at hc
    | some pollfds =>
      unfold poll at hc
      dsimp only at hc
      split at hc
      · exact fill_mem hc
      · simp at hc
  rw [(hk k c hk').1, hk']

end Poller

/-! ### The loop and its poller -/

namespace Dispatch
open Poller (PollFd Listed Keyed Answers)

structure State (ι F T : Type) where
  loop : EventLoop.State F T
  poller : Poller.State ι
  /-- `activeChannels_`, from the iterator on. -/
  activeChannels : List ι
  /-- The channel whose `eventHanding_` is set: the callback that runs, and those after it. -/
  handling : Option (ι × List Callback)
  /-- The objects that are gone. -/
  destroyed : ι → Bool

inductive Action (ι F T : Type) where
  /-- What the loop's thread does besides, or another thread. -/
  | loop (a : EventLoop.Action F T)
  | poll (answer : Option (List PollFd))
  /-- `(*iter)->handleEvent(pollReturnedTime_)`, as far as the first callback. -/
  | handleEvent
  /-- The callback returns. -/
  | return
  | update (i : Channel.Interest) (c : ι)
  | remove (c : ι)
  /-- `~Channel`. -/
  | destroy (c : ι)

def Action.isPoll {ι F T : Type} : Action ι F T → Bool
  | .poll _ => true
  | _ => false

/-- What is asked of the poller. -/
def Action.call {ι F T : Type} : Action ι F T → Option (Poller.Call ι)
  | .poll answer => some (.poll answer)
  | .update i c => some (.update i c)
  | .remove c => some (.remove c)
  | .loop _ | .handleEvent | .return | .destroy _ => none

variable {ι F T : Type}

def initial (fd : ι → Nat) : State ι F T where
  loop := EventLoop.initial
  poller := Poller.initial fd
  activeChannels := []
  handling := none
  destroyed _ := false

/-- The dispatch goes on until the active channels have been handled. -/
def State.permits (s : State ι F T) : EventLoop.Action F T → Bool
  | .poll => false
  | .doPendingFunctors => s.activeChannels.isEmpty && s.handling.isNone
  | _ => true

/-- Client code runs on the loop's thread: a callback of a channel, a functor, or outside `loop`. -/
def State.InClient (threadId : T) (s : State ι F T) : Prop :=
  s.loop.call threadId = .none ∧ s.loop.point.inClient = true ∧
    (s.loop.point.isDispatching = true → s.handling.isSome = true)

/-- A client may call any channel that is there, and delete one that is not in the poller. -/
def may (threadId : T) (s : State ι F T) : Action ι F T → Prop
  | .loop a => EventLoop.may threadId s.loop a ∧ s.permits a = true
  | .poll (some pollfds) =>
    EventLoop.may threadId s.loop .poll ∧ s.poller.pollfds.Forall₂ Answers pollfds
  | .poll none => EventLoop.may threadId s.loop .poll
  | .handleEvent => s.loop.call threadId = .none ∧ s.loop.point.isDispatching = true ∧
    s.handling.isNone = true ∧ s.activeChannels ≠ []
  | .return => s.loop.call threadId = .none ∧ s.handling.isSome = true
  | .update _ c | .remove c => s.InClient threadId ∧ s.destroyed c = false
  | .destroy c => s.InClient threadId ∧ s.destroyed c = false ∧ ¬ Listed s.poller c

/-- `handleEvent` goes on to these callbacks, or returns. What it tests was received before the
first of them. -/
def next (c : ι) : List Callback → Option (ι × List Callback)
  | [] => none
  | callbacks => some (c, callbacks)

variable [DecidableEq ι] [DecidableEq T]

/-- The object, if it has not been deleted. -/
def State.use (s : State ι F T) (c : ι) : Except Fault Channel :=
  if s.destroyed c then .error .dangling else .ok (s.poller.channel c)

def step (build : Build) (threadId : T) (s : State ι F T) :
    Action ι F T → Except Fault (Unit × State ι F T)
  | .loop a => do
    let (_, loop) ← EventLoop.step threadId s.loop a
    pure ((), { s with loop })
  | .poll answer => do
    let (_, loop) ← EventLoop.step threadId s.loop .poll
    let (activeChannels, poller) ← Poller.step build s.poller (.poll answer)
    pure ((), { s with loop, poller, activeChannels })
  | .handleEvent => do
    let c ← deref s.activeChannels.head?
    let channel ← s.use c
    pure ((), { s with
      activeChannels := s.activeChannels.tail
      handling := next c channel.handleEvent })
  | .return => do
    let (c, callbacks) ← deref s.handling
    let _ ← s.use c
    pure ((), { s with handling := next c callbacks.tail })
  | .update i c => do
    let (_, poller) ← Poller.step build s.poller (.update i c)
    pure ((), { s with poller })
  | .remove c => do
    let (_, poller) ← Poller.step build s.poller (.remove c)
    pure ((), { s with poller })
  | .destroy c => do
    build.assert (s.handling.map Prod.fst ≠ some c)
    pure ((), { s with destroyed := Function.update s.destroyed c true })

def machine (ι F : Type) [DecidableEq ι] (build : Build) (threadId : T) :
    Machine (State ι F T) (Action ι F T) Unit Fault where
  may := may threadId
  step := step build threadId

instance (threadId : T) (s : State ι F T) : Decidable (s.InClient threadId) :=
  inferInstanceAs (Decidable (_ ∧ _))

instance [DecidableEq F] (threadId : T) (s : EventLoop.State F T) (l : EventLoop.Action F T) :
    Decidable (EventLoop.may threadId s l) :=
  inferInstanceAs (Decidable ((EventLoop.machine F threadId).may s l))

instance [DecidableEq F] (build : Build) (threadId : T) (s : State ι F T) :
    (l : Action ι F T) → Decidable ((machine ι F build threadId).may s l)
  | .poll none => inferInstanceAs (Decidable (EventLoop.may threadId s.loop .poll))
  | .loop _ | .poll (some _) | .handleEvent | .return | .update .. | .remove _ | .destroy _ =>
    inferInstanceAs (Decidable (_ ∧ _))

/-- The loop is about to call `c->handleEvent`. -/
def Turn (threadId : T) (s : State ι F T) (c : ι) : Prop :=
  may threadId s .handleEvent ∧ s.activeChannels.head? = some c

instance [DecidableEq F] (threadId : T) (s : State ι F T) (c : ι) : Decidable (Turn threadId s c) :=
  have : Decidable (may threadId s .handleEvent) :=
    inferInstanceAs (Decidable ((machine ι F .release threadId).may s .handleEvent))
  inferInstanceAs (Decidable (_ ∧ _))

/-- An action that leaves `c` in the poller. -/
def Spares (c : ι) (s : State ι F T) (l : Action ι F T) : Prop :=
  ∀ call, l.call = some call → Poller.Spares c s.poller call

/-- The last poll of the history, which left `v`, and what has been done since. -/
def LastPoll (m : Machine (State ι F T) (Action ι F T) Unit Fault) (s : State ι F T)
    (tr : List (Action ι F T × Unit)) (v : State ι F T) (tr' : List (Action ι F T × Unit)) : Prop :=
  ∃ tr₁ u answer, tr = tr₁ ++ (.poll answer, ()) :: tr' ∧ m.Run s tr₁ u ∧
    m.step u (.poll answer) = .ok ((), v) ∧ ∀ e ∈ tr', e.1.isPoll = false

/-! ### Every run -/

variable {build : Build} {threadId : T} {s s' : State ι F T} {l : Action ι F T} {c : ι}
  {o : Unit}

/-- The poller's map is keyed, and what it lists is there. -/
structure Sound (s : State ι F T) : Prop where
  keyed : Keyed s.poller
  alive : ∀ c, Listed s.poller c → s.destroyed c = false

omit [DecidableEq ι] [DecidableEq T] in
theorem sound_initial (fd : ι → Nat) : Sound (initial fd : State ι F T) := by
  have hnone (k : Int) (c : ι) : ¬ (initial fd : State ι F T).poller.channels[k]? = some c := by
    simp [initial, Poller.initial]
  exact ⟨fun k c h => absurd h (hnone k c), fun c h => absurd h (hnone _ c)⟩

/-- A step is a call of the poller, or leaves it alone. -/
theorem step_call (h : step build threadId s l = .ok (o, s')) :
    l.call = none ∧ s'.poller = s.poller ∧ s'.activeChannels ⊆ s.activeChannels ∧
        (∀ c, s'.destroyed c = true → s.destroyed c = true ∨ l = .destroy c) ∨
      ∃ call active, l.call = some call ∧
        Poller.step build s.poller call = .ok (active, s'.poller) ∧ s'.destroyed = s.destroyed ∧
        s'.activeChannels = if l.isPoll then active else s.activeChannels := by
  cases l with
  | loop a =>
    obtain ⟨e, -, h⟩ := bind_eq_ok.mp h
    cases h
    exact .inl ⟨rfl, rfl, List.Subset.refl _, fun _ => .inl⟩
  | poll answer =>
    obtain ⟨e, -, h⟩ := bind_eq_ok.mp h
    obtain ⟨r, hr, h⟩ := bind_eq_ok.mp h
    cases h
    exact .inr ⟨_, _, rfl, hr, rfl, rfl⟩
  | handleEvent =>
    obtain ⟨d, -, h⟩ := bind_eq_ok.mp h
    obtain ⟨channel, -, h⟩ := bind_eq_ok.mp h
    cases h
    exact .inl ⟨rfl, rfl, List.tail_subset _, fun _ => .inl⟩
  | «return» =>
    obtain ⟨e, -, h⟩ := bind_eq_ok.mp h
    obtain ⟨channel, -, h⟩ := bind_eq_ok.mp h
    cases h
    exact .inl ⟨rfl, rfl, List.Subset.refl _, fun _ => .inl⟩
  | update | remove =>
    obtain ⟨r, hr, h⟩ := bind_eq_ok.mp h
    cases h
    exact .inr ⟨_, _, rfl, hr, rfl, rfl⟩
  | destroy c =>
    obtain ⟨e, -, h⟩ := bind_eq_ok.mp h
    cases h
    refine .inl ⟨rfl, rfl, List.Subset.refl _, fun d hd => ?_⟩
    by_cases hdc : d = c
    · exact .inr (hdc ▸ rfl)
    · exact .inl ((Function.update_of_ne hdc ..).symm.trans hd)

/-- The active channels grow at a poll only. -/
theorem active_step (h : step build threadId s l = .ok (o, s')) (hl : l.isPoll = false)
    (hc : c ∈ s'.activeChannels) : c ∈ s.activeChannels := by
  obtain ⟨-, -, hsubset, -⟩ | ⟨call, active, -, -, -, hactive⟩ := step_call h
  · exact hsubset hc
  · rw [hactive, hl] at hc
    exact hc

/-- A channel that has been in the poller is in it after a step exactly if it was, and the step
has spared it. -/
theorem listed_step (hc : 0 ≤ (s.poller.channel c).index)
    (h : step build threadId s l = .ok (o, s')) :
    0 ≤ (s'.poller.channel c).index ∧ (Listed s'.poller c ↔ Listed s.poller c ∧ Spares c s l) := by
  obtain ⟨hcall, hp, -⟩ | ⟨call, active, hcall, hp, -⟩ := step_call h
  · rw [hp]
    refine ⟨hc, (and_iff_left fun call heq => ?_).symm⟩
    rw [hcall] at heq
    cases heq
  · refine ⟨(Poller.step_keeps hp).1.index c hc, (Poller.listed_step hc hp).trans ?_⟩
    refine and_congr_right fun _ => ⟨fun hspares call' heq => ?_, fun hspares => hspares call hcall⟩
    obtain rfl := Option.some.inj (hcall.symm.trans heq)
    exact hspares

theorem sound_step (hs : Sound s) (hm : may threadId s l) (h : step build threadId s l = .ok (o, s')) :
    Sound s' := by
  obtain ⟨-, hp, -, hgone⟩ | ⟨call, active, hcall, hp, hgone, -⟩ := step_call h
  · refine ⟨hp ▸ hs.keyed, fun c hc => ?_⟩
    rw [hp] at hc
    by_contra hdead
    obtain hdead | rfl := hgone c (by simpa using hdead)
    · rw [hs.alive c hc] at hdead
      cases hdead
    · exact hm.2.2 hc
  · refine ⟨Poller.keyed_step hs.keyed hp, fun c hc => ?_⟩
    rw [hgone]
    obtain hc | ⟨i, rfl⟩ := Poller.listed_before hp hc
    · exact hs.alive c hc
    · cases l <;> cases hcall
      exact hm.2

/-- What a poll reports is in the poller when it returns. -/
theorem reported_listed (hs : Sound s) (hl : l.isPoll = true)
    (h : step build threadId s l = .ok (o, s')) (hc : c ∈ s'.activeChannels) :
    Listed s'.poller c := by
  obtain ⟨hcall, -⟩ | ⟨call, active, hcall, hp, -, hactive⟩ := step_call h
  · cases l <;> cases hcall <;> cases hl
  · cases l with
    | poll answer =>
      cases hcall
      have hpoll : Poller.poll s.poller answer = (active, s'.poller) := Except.ok.inj hp
      have hactive : s'.activeChannels = active := hactive
      have hreported := Poller.poll_listed (c := c) hs.keyed answer
      rw [hpoll, ← hactive] at hreported
      exact hreported hc
    | _ => cases hl

/-- The last poll of the history reported `c`, out of the poller. -/
def Reported (build : Build) (threadId : T) (fd : ι → Nat) (tr : List (Action ι F T × Unit))
    (s : State ι F T) (c : ι) : Prop :=
  ∃ v tr', LastPoll (machine ι F build threadId) (initial fd) tr v tr' ∧
    (machine ι F build threadId).Run v tr' s ∧ Sound v ∧ c ∈ v.activeChannels ∧ Listed v.poller c

variable {fd : ι → Nat} {tr : List (Action ι F T × Unit)}

theorem Reported.snoc (h : Reported build threadId fd tr s c) (hm : may threadId s l)
    (hs : step build threadId s l = .ok (o, s')) (hl : l.isPoll = false) :
    Reported build threadId fd (tr ++ [(l, o)]) s' c := by
  obtain ⟨v, tr', ⟨tr₁, u, answer, rfl, hu, hpoll, hsince⟩, hv, hrest⟩ := h
  refine ⟨v, tr' ++ [(l, o)], ⟨tr₁, u, answer, by simp, hu, hpoll, fun e he => ?_⟩,
    hv.snoc hm hs, hrest⟩
  obtain he | he := List.mem_append.mp he
  · exact hsince e he
  · rw [List.mem_singleton.mp he]
    exact hl

/-- A channel that waits for its turn was reported by the last poll. -/
theorem waiting_reported (h : (machine ι F build threadId).Run (initial fd) tr s) :
    Sound s ∧ ∀ c ∈ s.activeChannels, Reported build threadId fd tr s c := by
  refine h.snoc_induction
    (P := fun tr s => Sound s ∧ ∀ c ∈ s.activeChannels, Reported build threadId fd tr s c)
    ⟨sound_initial fd, nofun⟩ fun tr s l o s' hrun hP hm hstep => ?_
  obtain ⟨hs, hwaiting⟩ := hP
  have hs' : Sound s' := sound_step hs hm hstep
  refine ⟨hs', fun c hc => ?_⟩
  by_cases hl : l.isPoll = true
  · obtain ⟨answer, rfl⟩ : ∃ answer, l = .poll answer := by
      cases l with
      | poll answer => exact ⟨answer, rfl⟩
      | _ => cases hl
    exact ⟨s', [], ⟨tr, s, answer, rfl, hrun, hstep, nofun⟩, .nil s', hs', hc,
      reported_listed hs hl hstep hc⟩
  · have hl : l.isPoll = false := by simpa using hl
    exact (hwaiting c (active_step hstep hl hc)).snoc hm hstep hl

/-- **Every channel that the loop dispatches to was in the poller when the poll returned that
reported it, and still is exactly if everything done since has spared it.** While it is, it has
not been deleted. -/
theorem dispatch_listed (h : (machine ι F build threadId).Run (initial fd) tr s)
    (hturn : Turn threadId s c) : ∃ v tr',
      LastPoll (machine ι F build threadId) (initial fd) tr v tr' ∧
      (machine ι F build threadId).Run v tr' s ∧ c ∈ v.activeChannels ∧ Listed v.poller c ∧
      (Listed s.poller c ↔ ((machine ι F build threadId).only (Spares c)).Run v tr' s) ∧
      (Listed s.poller c → s.destroyed c = false) := by
  obtain ⟨hs, hwaiting⟩ := waiting_reported h
  obtain ⟨v, tr', hlast, hv, hsv, hc, hlisted⟩ := hwaiting c (List.mem_of_head? hturn.2)
  refine ⟨v, tr', hlast, hv, hc, hlisted, ?_, hs.alive c⟩
  -- From the poll on `c` has an index, so that it cannot come back once it is lost.
  refine (hv.end_iff (I := fun s => 0 ≤ (s.poller.channel c).index)
    (hsv.keyed _ c hlisted).2 fun s l o t hi _ hstep => listed_step hi hstep).trans ?_
  exact and_iff_right hlisted

/-! ### Two channels -/

/-- Two channels, both reported. -/
def opening : List (Action (Fin 2) Unit Bool) :=
  [.update .enableReading 0, .update .enableReading 1, .loop .loop, .loop .test,
    .poll (some [⟨4, 3, 1⟩, ⟨5, 3, 1⟩]), .handleEvent]

/-- The first one's callback changes only its own interest. -/
theorem dispatch_listed_spared : ∃ tr s v tr',
    (machine (Fin 2) Unit .release true).Run (initial ![4, 5]) tr s ∧ Turn true s 1 ∧
      LastPoll (machine (Fin 2) Unit .release true) (initial ![4, 5]) tr v tr' ∧
      ((machine (Fin 2) Unit .release true).only (Spares 1)).Run v tr' s ∧ Listed s.poller 1 := by
  obtain ⟨tr, s, h, -, hturn, hlisted⟩ :=
    (machine (Fin 2) Unit .release true).exists_run_of_replay (s := initial ![4, 5])
      (P := fun _ s => Turn true s 1 ∧ Listed s.poller 1)
      (opening ++ [.update .enableWriting 0, .return]) (by decide +kernel)
  obtain ⟨v, tr', hlast, -, -, -, hiff, -⟩ := dispatch_listed h hturn
  exact ⟨tr, s, v, tr', h, hturn, hlast, hiff.mp hlisted, hlisted⟩

/-- The first one's callback disables and removes the second, whose owner then deletes it. -/
theorem dispatch_removed : ∃ tr s,
    (machine (Fin 2) Unit .release true).Run (initial ![4, 5]) tr s ∧ Turn true s 1 ∧
      ¬ Listed s.poller 1 ∧ step .release true s .handleEvent = .error .dangling := by
  obtain ⟨tr, s, h, -, hP⟩ :=
    (machine (Fin 2) Unit .release true).exists_run_of_replay (s := initial ![4, 5])
      (P := fun _ s => Turn true s 1 ∧ ¬ Listed s.poller 1 ∧ s.destroyed 1 = true ∧
        s.activeChannels = [1])
      (opening ++ [.update .disableAll 1, .remove 1, .destroy 1, .return]) (by decide +kernel)
  obtain ⟨hturn, hlost, hdead, hactive⟩ := hP
  refine ⟨tr, s, h, hturn, hlost, ?_⟩
  simp only [step, hactive, List.head?_cons, deref_some, ok_bind, State.use, hdead, if_true,
    error_bind]

end Dispatch
end Leanet

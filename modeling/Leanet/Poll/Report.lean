import Leanet.Poll.Watch
import Mathlib.Algebra.Group.Nat.Defs

/-! What both pollers report.

poll(2) answers in every slot, epoll_wait(2) writes as many of the ready entries of the interest
set as `events_` has room for, in an order of its own. While both watch what there is to watch, the
epoll poller reports the channels that the other one does, with the same events, or as many of
them as there is room for. It doubles `events_` whenever it was full, so of all the polls of a run
only few leave a channel out (`pollers_report`). -/
namespace Leanet

/-- What is reported of a descriptor in the conditions `ready`: hang-ups and errors without being
asked for. -/
def reported (ready interest : BitVec 32) : BitVec 32 := ready &&& (interest ||| POLLERR ||| POLLHUP)

/-- poll(2) on one slot. The descriptors are open, so `POLLNVAL` is not reported. -/
def Poller.PollFd.answer (ready : Int → BitVec 32) (pfd : PollFd) : PollFd :=
  { pfd with
    revents :=
      if pfd.fd < 0 then 0 else (reported (ready pfd.fd) (pfd.events.signExtend 32)).setWidth 16 }

def Poller.answer (ready : Int → BitVec 32) (pollfds : List PollFd) : List PollFd :=
  pollfds.map (PollFd.answer ready)

namespace EPollPoller

def kInitEventListSize : Nat := 16

section
variable {ι : Type} [DecidableEq ι]

/-- epoll_wait(2) on one entry of the interest set. -/
def report (kernel : Int → Option (Event ι)) (ready : Int → BitVec 32) (k : Int) :
    Option (Event ι) := do
  let event ← kernel k
  let events := reported (ready k) event.events
  if events ≠ 0 then some { event with events } else none

/-- `fillActiveChannels` over the events that were written. -/
def fillActiveChannels : List (Event ι) → (ι → Channel) → List ι × (ι → Channel)
  | [], heap => ([], heap)
  | event :: rest, heap =>
    let (active, heap) := fillActiveChannels rest
      (Function.update heap event.ptr ((heap event.ptr).setReceivedEvents event.events))
    (event.ptr :: active, heap)

/-- `poll`: the events written into `events_`, which has `size` elements, or an error. -/
def poll (build : Build) (s : State ι) (size : Nat) :
    Option (List (Event ι)) → Except Fault (List ι × State ι × Nat)
  | some events =>
    if 0 < events.length then do
      build.assert (events.length ≤ size)
      let (active, channel) := fillActiveChannels events s.channel
      pure (active, { s with channel }, if events.length = size then size * 2 else size)
    else pure ([], s, size)
  | none => pure ([], s, size)

end
end EPollPoller

namespace Watch.Report

/-! ### Polls between the calls -/

structure State (ι : Type) where
  pollers : Watch.State ι
  /-- `events_.size()`. -/
  size : Nat

inductive Action (ι : Type) where
  | call (l : Call ι)
  /-- Both poll with descriptors in the conditions `ready`; epoll_wait(2) writes those of `order`. -/
  | poll (ready : Int → BitVec 32) (order : List Int)
  /-- Both fail. -/
  | interrupted

section
variable {ι : Type} [DecidableEq ι]

/-- epoll_wait(2) writes ready entries, each once, and all of them if there is room. -/
def Waits (fd : ι → Nat) (s : State ι) (ready : Int → BitVec 32) (order : List Int) : Prop :=
  order.Nodup ∧ (∀ k ∈ order, (EPollPoller.report s.pollers.epoll.kernel ready k).isSome) ∧
    order.length ≤ s.size ∧
    (order.length < s.size →
      ∀ c, (EPollPoller.report s.pollers.epoll.kernel ready (fd c)).isSome → (fd c : Int) ∈ order)

def may (fd : ι → Nat) (s : State ι) : Action ι → Prop
  | .call l => Watch.may fd s.pollers l ∧ Fits s.pollers l
  | .poll ready order => Waits fd s ready order
  | .interrupted => True

/-- The channels that each poller found active, and the next state. -/
def step (s : State ι) : Action ι → Except Fault ((List ι × List ι) × State ι)
  | .call l => do
    let (_, pollers) ← Watch.step s.pollers l
    pure (([], []), { s with pollers })
  | .poll ready order => do
    let { poller, epoll, table } := s.pollers
    let (active, poller) := Poller.poll poller (some (Poller.answer ready poller.pollfds))
    let events := order.filterMap (EPollPoller.report epoll.kernel ready)
    let (active', epoll, size) ← EPollPoller.poll .release epoll s.size (some events)
    pure ((active, active'), ⟨⟨poller, epoll, table⟩, size⟩)
  | .interrupted => do
    let { poller, epoll, table } := s.pollers
    let (active, poller) := Poller.poll poller none
    let (active', epoll, size) ← EPollPoller.poll .release epoll s.size none
    pure ((active, active'), ⟨⟨poller, epoll, table⟩, size⟩)

def machine (fd : ι → Nat) : Machine (State ι) (Action ι) (List ι × List ι) Fault where
  may := may fd
  step := step

def initial (fd : ι → Nat) (loop_ : Option Nat) (thread : Nat) : State ι :=
  ⟨Watch.initial fd loop_ thread, EPollPoller.kInitEventListSize⟩

/-- The polls in which the epoll poller left a channel out. -/
def leftOut (tr : List (Action ι × (List ι × List ι))) : Nat :=
  tr.countP fun e => e.2.2.length < e.2.1.length

end
end Watch.Report

namespace Watch
open Channel (Plain)
open EPollPoller (Event)

/-! ### Masks -/

variable {r e : BitVec 32}

theorem reported_le (h : Plain e) : (reported r e).toNat ≤ 31 := by
  have hmask : (e ||| POLLERR ||| POLLHUP).toNat ≤ 31 := by
    rcases h with rfl | rfl | rfl | rfl <;> decide
  rw [reported, BitVec.toNat_and]
  exact Nat.and_le_right.trans hmask

theorem reported_toInt (h : Plain e) :
    ((reported r e).setWidth 16).toInt = ((reported r e).toNat : Int) := by
  have hle := reported_le (r := r) h
  have hwidth : ((reported r e).setWidth 16).toNat = (reported r e).toNat := by
    rw [BitVec.toNat_setWidth, Nat.mod_eq_of_lt (by omega)]
  rw [BitVec.toInt_eq_toNat_of_lt (by omega), hwidth]

/-- No flag is lost in the `short` of a slot. -/
theorem reported_width (h : Plain e) :
    ((reported r e).setWidth 16).signExtend 32 = reported r e := by
  have hle := reported_le (r := r) h
  refine BitVec.eq_of_toInt_eq ?_
  rw [BitVec.toInt_signExtend_of_le (by decide), reported_toInt h,
    BitVec.toInt_eq_toNat_of_lt (by omega)]

/-! ### The poll poller -/

section
variable {ι : Type} [DecidableEq ι] {fd : ι → Nat} {table : Interests ι} {ready : Int → BitVec 32}
  {p p' : Poller.State ι} {s s' : EPollPoller.State ι} {c : ι} {events : BitVec 32}

omit [DecidableEq ι] in
/-- What was received is not in the table. -/
theorem Slotted.received (h : Slotted fd table p) (hkept : Poller.Kept p')
    (hchannel : ∀ c, ∃ r, p'.channel c = (p.channel c).setReceivedEvents r)
    (hremoved : p'.removed = p.removed) : Slotted fd table p' := by
  refine ⟨hkept, fun c => ?_, fun c => ?_, fun c => ?_⟩
  · obtain ⟨r, hr⟩ := hchannel c
    rw [hr]
    exact h.descriptor c
  · obtain ⟨r, hr⟩ := hchannel c
    rw [hr]
    exact h.interest c
  · obtain ⟨r, hr⟩ := hchannel c
    rw [← h.registered, Poller.State.Registered, Poller.State.Registered, hr, hremoved]
    rfl

omit [DecidableEq ι] in
theorem Slotted.plain (h : Slotted fd table p) (hc : table c = some events) : Plain events := by
  have hplain := h.kept.table.plain c
  rwa [h.interest, hc] at hplain

omit [DecidableEq ι] in
/-- The kernel writes what it may. -/
theorem Slotted.answers (h : Slotted fd table p) (ready : Int → BitVec 32) :
    p.pollfds.Forall₂ Poller.Answers (Poller.answer ready p.pollfds) := by
  refine List.forall₂_map_right_iff.mpr (List.forall₂_same.mpr fun pfd hmem => ?_)
  refine ⟨rfl, rfl, fun hneg => if_pos hneg, ?_⟩
  obtain ⟨n, hn, rfl⟩ := List.getElem_of_mem hmem
  obtain ⟨c, hc, hidx⟩ := h.kept.table.dense.owner n hn
  obtain ⟨m, pfd, hm, hget, hslot⟩ := h.kept.table.dense.slot c hc
  obtain rfl : m = n := by omega
  rw [List.getElem?_eq_getElem hn, Option.some.injEq] at hget
  have hplain := h.kept.table.plain c
  rw [← slot_interest hslot] at hplain
  rw [hget]
  unfold Poller.PollFd.answer
  dsimp only
  split
  · decide
  · rw [reported_toInt hplain]
    exact Int.natCast_nonneg _

omit [DecidableEq ι] in
/-- The answer in the slot of a channel; none if nothing is asked for. -/
theorem Slotted.answer (h : Slotted fd table p) (ready : Int → BitVec 32)
    (hc : table c = some events) :
    ∃ pfd, Slots.at? (Poller.answer ready p.pollfds) (p.channel c).index = some pfd ∧
      pfd.revents = if events = 0 then 0 else (reported (ready (fd c)) events).setWidth 16 := by
  have hreg : p.Registered c := (h.registered c).mpr (by rw [hc]; exact nofun)
  have hinterest : (p.channel c).interestedEvents = events := by rw [h.interest, hc]; rfl
  obtain ⟨n, pfd, hn, hget, hslot⟩ := h.kept.table.dense.slot c hreg
  refine ⟨pfd.answer ready, Slots.at?_eq_some.mpr ⟨n, hn, by
    rw [Poller.answer, List.getElem?_map, hget]
    rfl⟩, ?_⟩
  rw [Poller.PollFd.answer]
  by_cases hzero : events = 0
  · rw [hzero] at hinterest
    have hfd := h.kept.ignored c n pfd hreg hinterest hn hget
    rw [if_pos hzero, if_pos (by omega)]
  · rw [if_neg hzero]
    have hfd := hslot.watched (by rwa [hinterest])
    rw [if_neg (by omega), slot_interest hslot, hinterest, hfd, h.descriptor]

/-- What a poll reports of a channel. -/
def Reported (fd : ι → Nat) (table : Interests ι) (ready : Int → BitVec 32) (c : ι) : Prop :=
  ∃ events, table c = some events ∧ events ≠ 0 ∧ reported (ready (fd c)) events ≠ 0

theorem poll_eq (p : Poller.State ι) (pollfds : List Poller.PollFd) :
    Poller.poll p (some pollfds) =
      let filled := Poller.fillActiveChannels p.channels pollfds (pollfds.countP (·.revents ≠ 0))
        p.channel
      (filled.1, { p with pollfds, channel := filled.2 }) := by
  unfold Poller.poll
  dsimp only
  split
  · rfl
  · next hnone =>
    have hzero : pollfds.countP (·.revents ≠ 0) = 0 := by omega
    rw [hzero]
    simp [Poller.fill_done]

/-- The poll poller finds every channel of which there is something to report. -/
theorem Slotted.poll (h : Slotted fd table p) (ready : Int → BitVec 32) : ∃ active p',
    Poller.poll p (some (Poller.answer ready p.pollfds)) = (active, p') ∧ Slotted fd table p' ∧
    active.Nodup ∧ (∀ c, c ∈ active ↔ Reported fd table ready c) ∧
    ∀ c ∈ active,
      (p'.channel c).receivedEvents = reported (ready (fd c)) ((table c).getD 0) := by
  have hanswers := h.answers ready
  have htable : Poller.Table { p with pollfds := Poller.answer ready p.pollfds } :=
    h.kept.table.answered hanswers fun c => ⟨(p.channel c).receivedEvents, rfl⟩
  have hexact := Poller.fillActiveChannels_exact htable (Poller.answered_of_answers hanswers)
  have hready (c : ι) : c ∈ (Poller.fillActiveChannels p.channels (Poller.answer ready p.pollfds)
      ((Poller.answer ready p.pollfds).countP (·.revents ≠ 0)) p.channel).1 ↔
        Reported fd table ready c := by
    rw [hexact.ready c]
    constructor
    · rintro ⟨hreg, pfd, hat, hne⟩
      obtain ⟨events, hc⟩ := Option.ne_none_iff_exists'.mp ((h.registered c).mp hreg)
      obtain ⟨pfd', hat', hrevents⟩ := h.answer ready hc
      obtain rfl := Option.some.inj (hat.symm.trans hat')
      rw [hrevents] at hne
      split at hne
      · exact absurd rfl hne
      · next hevents =>
        refine ⟨events, hc, hevents, fun hzero => hne ?_⟩
        rw [hzero]
        rfl
    · rintro ⟨events, hc, hevents, hne⟩
      obtain ⟨pfd, hat, hrevents⟩ := h.answer ready hc
      refine ⟨(h.registered c).mpr (by rw [hc]; exact nofun), pfd, hat, fun hzero => hne ?_⟩
      rw [hrevents, if_neg hevents] at hzero
      rw [← reported_width (h.plain hc), hzero]
      rfl
  obtain ⟨o, p', hstep, hkept⟩ := Poller.kept_inductive p
    (.poll (some (Poller.answer ready p.pollfds))) h.kept ⟨hanswers, trivial⟩
  obtain rfl : (Poller.poll p (some (Poller.answer ready p.pollfds))).2 = p' :=
    congrArg Prod.snd (Except.ok.inj hstep)
  rw [poll_eq] at hkept
  refine ⟨_, _, poll_eq p _, h.received hkept (fun c => Poller.fill_received ..) rfl, hexact.nodup,
    hready, fun c hc => ?_⟩
  obtain ⟨events, htable, hevents, -⟩ := (hready c).mp hc
  obtain ⟨pfd, hat, hrevents⟩ := h.answer ready htable
  refine (congrArg Channel.receivedEvents (hexact.own c hc pfd hat)).trans ?_
  show pfd.revents.signExtend 32 = _
  rw [hrevents, if_neg hevents, htable]
  exact reported_width (h.plain htable)

/-! ### The epoll poller -/

theorem fill_active (events : List (Event ι)) (heap : ι → Channel) :
    (EPollPoller.fillActiveChannels events heap).1 = events.map Event.ptr := by
  induction events generalizing heap with
  | nil => rfl
  | cons event rest ih => exact congrArg (event.ptr :: ·) (ih _)

theorem fill_received (events : List (Event ι)) (heap : ι → Channel) (c : ι) : ∃ r,
    (EPollPoller.fillActiveChannels events heap).2 c = (heap c).setReceivedEvents r := by
  induction events generalizing heap with
  | nil => exact ⟨(heap c).receivedEvents, rfl⟩
  | cons event rest ih =>
    obtain ⟨r, hr⟩ := ih (Function.update heap event.ptr
      ((heap event.ptr).setReceivedEvents event.events))
    refine ⟨r, hr.trans ?_⟩
    by_cases hc : c = event.ptr
    · rw [hc, Function.update_self]
      rfl
    · rw [Function.update_of_ne hc]

theorem fill_frame {events : List (Event ι)} {heap : ι → Channel}
    (hc : ∀ event ∈ events, event.ptr ≠ c) :
    (EPollPoller.fillActiveChannels events heap).2 c = heap c := by
  induction events generalizing heap with
  | nil => rfl
  | cons event rest ih =>
    obtain ⟨hne, hrest⟩ := List.forall_mem_cons.mp hc
    exact (ih hrest).trans (Function.update_of_ne hne.symm ..)

/-- A channel that is reported once receives what was reported of it. -/
theorem fill_own {events : List (Event ι)} {heap : ι → Channel} (h : (events.map Event.ptr).Nodup)
    {event : Event ι} (hevent : event ∈ events) :
    ((EPollPoller.fillActiveChannels events heap).2 event.ptr).receivedEvents = event.events := by
  induction events generalizing heap with
  | nil => cases hevent
  | cons first rest ih =>
    obtain ⟨hfirst, hrest⟩ := List.nodup_cons.mp h
    rcases List.mem_cons.mp hevent with rfl | hevent
    · have hlater : ∀ other ∈ rest, other.ptr ≠ event.ptr := by
        rintro other hother heq
        rw [← heq] at hfirst
        exact hfirst (List.mem_map_of_mem hother)
      refine (congrArg Channel.receivedEvents (fill_frame hlater)).trans ?_
      rw [Function.update_self]
      rfl
    · exact ih hrest hevent

theorem poll_epoll {events : List (Event ι)} {size : Nat} (hsize : 0 < size) :
    EPollPoller.poll .release s size (some events) = .ok (events.map Event.ptr,
      { s with channel := (EPollPoller.fillActiveChannels events s.channel).2 },
      if events.length = size then size * 2 else size) := by
  unfold EPollPoller.poll
  dsimp only
  split
  · rw [Build.assert_release, ok_bind, ← fill_active events s.channel]
    rfl
  · next hnone =>
    obtain rfl : events = [] := List.eq_nil_of_length_eq_zero (by omega)
    have hne : ¬ 0 = size := by omega
    rw [List.length_nil, if_neg hne]
    rfl

omit [DecidableEq ι] in
theorem Tagged.received (h : Tagged fd table s) {channel : ι → Channel}
    (hchannel : ∀ c, ∃ r, channel c = (s.channel c).setReceivedEvents r) :
    Tagged fd table { s with channel } := by
  refine ⟨fun c => ?_, fun c => ?_, fun c => ?_, h.kernel⟩
  · obtain ⟨r, hr⟩ := hchannel c
    exact (congrArg Channel.fd hr).trans (h.descriptor c)
  · obtain ⟨r, hr⟩ := hchannel c
    exact (congrArg Channel.interestedEvents hr).trans (h.interest c)
  · obtain ⟨r, hr⟩ := hchannel c
    exact (congrArg Channel.index hr).trans (h.index c)

omit [DecidableEq ι] in
/-- What epoll_wait(2) can write is what there is to report. -/
theorem Tagged.report_eq_some (h : Tagged fd table s) {k : Int} {event : Event ι} :
    EPollPoller.report s.kernel ready k = some event ↔ (fd event.ptr : Int) = k ∧
      Reported fd table ready event.ptr ∧
      event.events = reported (ready k) ((table event.ptr).getD 0) := by
  simp only [EPollPoller.report, Option.bind_eq_bind, Option.bind_eq_some_iff, h.kernel]
  constructor
  · rintro ⟨asked, ⟨hfd, hentry⟩, hevent⟩
    obtain ⟨-, hne, htable⟩ := entry_eq_some.mp hentry
    split at hevent
    · next hreported =>
      obtain rfl := Option.some.inj hevent
      exact ⟨hfd, ⟨asked.events, htable, hne, by rwa [hfd]⟩, by rw [htable]; rfl⟩
    · cases hevent
  · rintro ⟨hfd, ⟨events, htable, hne, hreported⟩, hevents⟩
    refine ⟨⟨events, event.ptr⟩, ⟨hfd, entry_eq_some.mpr ⟨rfl, hne, htable⟩⟩, ?_⟩
    rw [htable] at hevents
    rw [hfd] at hreported
    rw [if_pos hreported, Option.some.injEq]
    exact congrArg (Event.mk · event.ptr) hevents.symm

/-! ### A poll of both -/

omit [DecidableEq ι] in
/-- The channels behind the descriptors that were written. -/
theorem Tagged.descriptors (h : Tagged fd table s) {order : List Int}
    (hready : ∀ k ∈ order, (EPollPoller.report s.kernel ready k).isSome) :
    (order.filterMap (EPollPoller.report s.kernel ready)).map (fun event => (fd event.ptr : Int)) =
      order := by
  induction order with
  | nil => rfl
  | cons k order ih =>
    obtain ⟨hk, hrest⟩ := List.forall_mem_cons.mp hready
    obtain ⟨event, hevent⟩ := Option.isSome_iff_exists.mp hk
    rw [List.filterMap_cons, hevent, List.map_cons, ih hrest, (h.report_eq_some.mp hevent).1]

end

namespace Report
section
variable {ι : Type} [DecidableEq ι] {fd : ι → Nat} {ready : Int → BitVec 32} {order : List Int}
  {s t : State ι}

/-- What one poll of both comes to. -/
structure Alike (fd : ι → Nat) (s : State ι) (ready : Int → BitVec 32) (active active' : List ι)
    (t : State ι) : Prop where
  nodup : active.Nodup
  exact : ∀ c, c ∈ active ↔ Reported fd s.pollers.table ready c
  within : active'.Subperm active
  length : active'.length = min active.length s.size
  received : ∀ c ∈ active, (t.pollers.poller.channel c).receivedEvents =
    reported (ready (fd c)) ((s.pollers.table c).getD 0)
  received' : ∀ c ∈ active', (t.pollers.epoll.channel c).receivedEvents =
    reported (ready (fd c)) ((s.pollers.table c).getD 0)
  doubled : t.size = if active'.length = s.size then s.size * 2 else s.size

theorem poll_alike (h : Lockstep fd s.pollers) (hsize : 0 < s.size) (hw : Waits fd s ready order) :
    ∃ active active' t, step s (.poll ready order) = .ok ((active, active'), t) ∧
      Lockstep fd t.pollers ∧ Alike fd s ready active active' t := by
  obtain ⟨⟨poller, epoll, table⟩, size⟩ := s
  obtain ⟨hslotted, htagged⟩ := h
  obtain ⟨hnodup, hready, hroom, hall⟩ := hw
  obtain ⟨active, p', hpoll, hslotted', hactive, hexact, hreceived⟩ := hslotted.poll ready
  have hdescriptors := htagged.descriptors hready
  generalize hevents : order.filterMap (EPollPoller.report epoll.kernel ready) = events at hdescriptors
  have hmem (event : Event ι) (hevent : event ∈ events) : Reported fd table ready event.ptr ∧
      event.events = reported (ready (fd event.ptr)) ((table event.ptr).getD 0) := by
    rw [← hevents] at hevent
    obtain ⟨k, -, hk⟩ := List.mem_filterMap.mp hevent
    obtain ⟨hfd, hreported, hmask⟩ := htagged.report_eq_some.mp hk
    exact ⟨hreported, by rw [hmask, hfd]⟩
  have hlength : events.length = order.length := by rw [← hdescriptors, List.length_map]
  have hnodup' : (events.map Event.ptr).Nodup := by
    refine List.Nodup.of_map (fun c => (fd c : Int)) ?_
    rw [List.map_map]
    exact hdescriptors ▸ hnodup
  have hwithin : (events.map Event.ptr).Subperm active := by
    refine List.subperm_of_subset hnodup' fun c hc => ?_
    obtain ⟨event, hevent, rfl⟩ := List.mem_map.mp hc
    exact (hexact _).mpr (hmem event hevent).1
  have hcovers (hlt : order.length < size) : active.Subperm (events.map Event.ptr) := by
    refine List.subperm_of_subset hactive fun c hc => ?_
    have hreported := (hexact c).mp hc
    have hreport : EPollPoller.report epoll.kernel ready (fd c) =
        some ⟨reported (ready (fd c)) ((table c).getD 0), c⟩ :=
      htagged.report_eq_some.mpr ⟨rfl, hreported, rfl⟩
    have hlisted := hall hlt c (Option.isSome_iff_exists.mpr ⟨_, hreport⟩)
    rw [← hevents]
    exact List.mem_map.mpr ⟨_, List.mem_filterMap.mpr ⟨_, hlisted, hreport⟩, rfl⟩
  have hmin : (events.map Event.ptr).length = min active.length size := by
    have hle := hwithin.length_le
    rw [List.length_map] at hle ⊢
    have hroom : order.length ≤ size := hroom
    by_cases hlt : order.length < size
    · have hge := (hcovers hlt).length_le
      rw [List.length_map] at hge
      omega
    · omega
  refine ⟨active, events.map Event.ptr, ⟨⟨p', { epoll with
    channel := (EPollPoller.fillActiveChannels events epoll.channel).2 }, table⟩,
      if events.length = size then size * 2 else size⟩, ?_,
    ⟨hslotted', htagged.received fun c => fill_received ..⟩, hactive, hexact, hwithin, hmin,
    hreceived, fun c hc => ?_, ?_⟩
  · simp only [step, hpoll, hevents, poll_epoll hsize, ok_bind]
    rfl
  · obtain ⟨event, hevent, rfl⟩ := List.mem_map.mp hc
    exact (fill_own hnodup' hevent).trans (hmem event hevent).2
  · rw [List.length_map]

/-! ### Every poll of a run -/

variable {tr : List (Action ι × (List ι × List ι))}

omit [DecidableEq ι] in
theorem leftOut_snoc (tr : List (Action ι × (List ι × List ι))) (l : Action ι)
    (o : List ι × List ι) :
    leftOut (tr ++ [(l, o)]) = leftOut tr + if o.2.length < o.1.length then 1 else 0 := by
  simp [leftOut, List.countP_append, List.countP_singleton]

/-- Every poll that left a channel out has doubled `events_`. -/
structure Growing (fd : ι → Nat) (tr : List (Action ι × (List ι × List ι))) (s : State ι) : Prop where
  lockstep : Lockstep fd s.pollers
  room : 16 * 2 ^ leftOut tr ≤ s.size
  few : ∀ n, (∀ e ∈ tr, e.2.1.length ≤ n) → leftOut tr = 0 ∨ 8 * 2 ^ leftOut tr < n

omit [DecidableEq ι] in
theorem Growing.pos (h : Growing fd tr s) : 0 < s.size := by
  have hpow := Nat.two_pow_pos (leftOut tr)
  have hroom := h.room
  omega

omit [DecidableEq ι] in
/-- Nothing is reported. -/
theorem Growing.silent (h : Growing fd tr s) (l : Action ι) (hlock : Lockstep fd t.pollers)
    (hsize : t.size = s.size) : Growing fd (tr ++ [(l, ([], []))]) t := by
  have hleft : leftOut (tr ++ [(l, ([], []))]) = leftOut tr := by simp [leftOut_snoc]
  refine ⟨hlock, by rw [hleft, hsize]; exact h.room, fun n hn => ?_⟩
  rw [hleft]
  exact h.few n fun e he => hn e (List.mem_append_left _ he)

omit [DecidableEq ι] in
theorem Growing.polled (h : Growing fd tr s) {active active' : List ι}
    (hlock : Lockstep fd t.pollers) (ha : Alike fd s ready active active' t) :
    Growing fd (tr ++ [(.poll ready order, (active, active'))]) t := by
  have hlength := ha.length
  have hdoubled := ha.doubled
  have hroom := h.room
  by_cases hleft : active'.length < active.length
  · have hcount : leftOut (tr ++ [(.poll ready order, (active, active'))]) = leftOut tr + 1 := by
      rw [leftOut_snoc, if_pos hleft]
    have hfull : active'.length = s.size := by omega
    rw [if_pos hfull] at hdoubled
    have hpow : 2 ^ (leftOut tr + 1) = 2 ^ leftOut tr * 2 := Nat.pow_succ ..
    refine ⟨hlock, by rw [hcount]; omega, fun n hn => .inr ?_⟩
    have hactive : active.length ≤ n :=
      hn (.poll ready order, (active, active')) (List.mem_append_right _ List.mem_cons_self)
    rw [hcount]
    omega
  · have hcount : leftOut (tr ++ [(.poll ready order, (active, active'))]) = leftOut tr := by
      rw [leftOut_snoc, if_neg hleft]
      rfl
    have hsize : s.size ≤ t.size := by
      rw [hdoubled]
      split <;> omega
    refine ⟨hlock, by rw [hcount]; omega, fun n hn => ?_⟩
    rw [hcount]
    exact h.few n fun e he => hn e (List.mem_append_left _ he)

theorem run_growing {loop_ : Option Nat} {thread : Nat}
    (h : (machine fd).Run (initial fd loop_ thread) tr s) : Growing fd tr s := by
  refine h.snoc_induction ⟨lockstep_initial fd loop_ thread, Nat.le_refl 16, fun _ _ => .inl rfl⟩ ?_
  intro tr s l o t _ hg hm hs
  cases l with
  | call l =>
    obtain ⟨o', pollers, hstep, hlock⟩ := lockstep_inductive s.pollers l hg.lockstep hm
    have hstep' : Watch.step s.pollers l = .ok (o', pollers) := hstep
    simp only [machine, step, hstep', ok_bind, pure_eq_ok, Except.ok.injEq, Prod.mk.injEq] at hs
    obtain ⟨rfl, rfl⟩ := hs
    exact hg.silent _ hlock rfl
  | poll ready order =>
    obtain ⟨active, active', t', hstep, hlock, ha⟩ := poll_alike hg.lockstep hg.pos hm
    obtain ⟨rfl, rfl⟩ := Prod.mk.inj (Except.ok.inj (hstep.symm.trans hs))
    exact hg.polled hlock ha
  | interrupted =>
    obtain ⟨rfl, rfl⟩ := Prod.mk.inj (Except.ok.inj hs)
    exact hg.silent _ hg.lockstep rfl

/-- **The epoll poller reports what the poll poller reports**, the same channels with the same
events, or as many of them as `events_` holds. If no poll of a run finds more than `n` channels,
the number `k` of polls that left one out is 0 or `2 ^ (k + 3) < n`. -/
theorem pollers_report {loop_ : Option Nat} {thread : Nat}
    (h : (machine fd).Run (initial fd loop_ thread) tr s) :
    (∀ n, (∀ e ∈ tr, e.2.1.length ≤ n) → leftOut tr = 0 ∨ 2 ^ (leftOut tr + 3) < n) ∧
    ∀ ready order, Waits fd s ready order → ∃ active active' t,
      step s (.poll ready order) = .ok ((active, active'), t) ∧
      Alike fd s ready active active' t := by
  have hg := run_growing h
  refine ⟨fun n hn => ?_, fun ready order hw => ?_⟩
  · rw [Nat.pow_add, Nat.mul_comm]
    exact hg.few n hn
  · obtain ⟨active, active', t, hstep, -, ha⟩ := poll_alike hg.lockstep hg.pos hw
    exact ⟨active, active', t, hstep, ha⟩

instance [Fintype ι] (fd : ι → Nat) (s : State ι) :
    (l : Action ι) → Decidable ((machine fd).may s l)
  | .call l => inferInstanceAs (Decidable ((clients fd).may s.pollers l ∧ Fits s.pollers l))
  | .poll _ _ => inferInstanceAs (Decidable (_ ∧ _))
  | .interrupted => inferInstanceAs (Decidable True)

/-- Seventeen channels are ready, and the second poll reports them all. -/
theorem pollers_report_seventeen : ∃ tr s,
    (machine (Fin.val : Fin 17 → Nat)).Run (initial Fin.val (some 0) 0) tr s ∧ s.size = 32 ∧
    leftOut tr = 1 ∧ 2 ^ (leftOut tr + 3) < 17 := by
  obtain ⟨tr, s, h, -, hsize, hleft, hmost⟩ :=
    (machine (Fin.val : Fin 17 → Nat)).exists_run_of_replay (s := initial Fin.val (some 0) 0)
      (P := fun tr s => s.size = 32 ∧ leftOut tr = 1 ∧ ∀ e ∈ tr, e.2.1.length ≤ 17)
      ((List.finRange 17).map (fun c => .call (.update .enableReading c)) ++
        [.poll (fun _ => POLLIN) ((List.range 16).map Int.ofNat),
          .poll (fun _ => POLLIN) ((List.range 17).map Int.ofNat)])
      (by decide +kernel)
  exact ⟨tr, s, h, hsize, hleft, ((pollers_report h).1 17 hmost).resolve_left (by omega)⟩

end
end Report
end Watch
end Leanet

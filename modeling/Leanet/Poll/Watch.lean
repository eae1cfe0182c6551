import Leanet.Poll.Assertions
import Leanet.Poll.EPollPoller

/-! Both pollers watch what their clients ask for.

What the clients ask for is a table of the registered channels with their interests. The
poll(2) poller watches the slots whose descriptor is not negated, the epoll(7) poller the
interest set of the kernel. Both are given the same calls, each with channels of its own,
since they use `index` for different things.

They agree with the table as long as no call meets one of three faults. The epoll poller
adds a channel again that it has deleted, whether or not something was enabled, so a second
`disableAll` has it watched for nothing at all. The poll poller leaves the index of a
removed channel, which is then taken for a slot. And the epoll poller's calls go through a
pointer that is not set. -/
namespace Leanet
open EPollPoller (Event kNew kAdded kDeleted)

/-- What poll(2) watches. -/
def Poller.State.watched {ι : Type} (s : Poller.State ι) : Set (Int × BitVec 32) :=
  {w | ∃ pfd ∈ s.pollfds, 0 ≤ pfd.fd ∧ w = (pfd.fd, pfd.events.signExtend 32)}

/-- What epoll_wait(2) watches. -/
def EPollPoller.State.watched {ι : Type} (s : EPollPoller.State ι) : Set (Int × BitVec 32) :=
  {w | ∃ k event, s.kernel k = some event ∧ w = (k, event.events)}

namespace Watch

/-- A public call of a channel. -/
inductive Call (ι : Type) where
  | update (i : Channel.Interest) (c : ι)
  | remove (c : ι)
  deriving DecidableEq, Repr

/-- The interests of the registered channels. -/
abbrev Interests (ι : Type) := ι → Option (BitVec 32)

structure State (ι : Type) where
  poller : Poller.State ι
  epoll : EPollPoller.State ι
  table : Interests ι

variable {ι : Type} [DecidableEq ι]

def Interests.next (table : Interests ι) : Call ι → Interests ι
  | .update i c => Function.update table c (some (i.apply ((table c).getD 0)))
  | .remove c => Function.update table c none

/-- What there is to watch. -/
def Interests.watched (fd : ι → Nat) (table : Interests ι) : Set (Int × BitVec 32) :=
  {w | ∃ c events, table c = some events ∧ events ≠ 0 ∧ w = ((fd c : Int), events)}

/-- The call on the poll poller's channel. -/
def Call.poller : Call ι → Poller.Call ι
  | .update i c => .update i c
  | .remove c => .remove c

/-- The call on the epoll poller's channel. -/
def Call.epoll (build : Build) (s : EPollPoller.State ι) :
    Call ι → Except Fault (EPollPoller.State ι)
  | .update i c => EPollPoller.updateChannel build (s.setChannel c ((s.channel c).setInterest i)) c
  | .remove c => do
    build.assert ((s.channel c).isNoneEvent)
    EPollPoller.removeChannel build s c

/-- Registered channels have distinct descriptors, the first call on a channel enables
something, and a channel is removed without interest. -/
def may (fd : ι → Nat) (s : State ι) : Call ι → Prop
  | .update i c => (∀ d, s.table d ≠ none → fd d = fd c → d = c) ∧
    (s.table c = none → i = .enableReading ∨ i = .enableWriting)
  | .remove c => s.table c = some 0

def step (s : State ι) (l : Call ι) : Except Fault (Unit × State ι) := do
  let (_, poller) ← Poller.step .release s.poller l.poller
  let epoll ← l.epoll .release s.epoll
  pure ((), ⟨poller, epoll, s.table.next l⟩)

def clients (fd : ι → Nat) : Machine (State ι) (Call ι) Unit Fault where
  may := may fd
  step := step

/-- Both pollers made, in memory that leaves `loop_` to the second as it is. -/
def initial (fd : ι → Nat) (loop_ : Option Nat) (thread : Nat) : State ι where
  poller := Poller.initial fd
  epoll := EPollPoller.initial fd loop_ thread
  table _ := none

/-- The call meets none of the faults: `loop_` happens to be the loop, no removed channel is
enabled again, and no update leaves a channel without interest as it was. -/
def Fits (s : State ι) (l : Call ι) : Prop :=
  s.epoll.loop_ = some s.epoll.thread ∧
    ∀ i c, l = .update i c →
      s.poller.removed c = false ∧ ¬ (s.table c = some 0 ∧ i.apply 0 = 0)

/-- Both watch what there is to watch. -/
def Agree (fd : ι → Nat) (s : State ι) : Prop :=
  s.poller.watched = s.table.watched fd ∧ s.epoll.watched = s.table.watched fd

/-! ### The epoll poller against the table -/

/-- What the index of a channel says of its interest. -/
def tag : Option (BitVec 32) → Int
  | none => kNew
  | some events => if events = 0 then kDeleted else kAdded

/-- What the kernel has of a channel. -/
def entry (c : ι) (interest : Option (BitVec 32)) : Option (Event ι) :=
  (interest.filter (· ≠ 0)).map (⟨·, c⟩)

structure Tagged (fd : ι → Nat) (table : Interests ι) (s : EPollPoller.State ι) : Prop where
  descriptor : ∀ c, (s.channel c).fd = fd c
  interest : ∀ c, (s.channel c).interestedEvents = (table c).getD 0
  index : ∀ c, (s.channel c).index = tag (table c)
  kernel : ∀ k event, s.kernel k = some event ↔
    (fd event.ptr : Int) = k ∧ entry event.ptr (table event.ptr) = some event

variable {fd : ι → Nat} {table : Interests ι} {s s' : EPollPoller.State ι} {c : ι}

omit [DecidableEq ι] in
theorem entry_eq_some {interest : Option (BitVec 32)} {event : Event ι} :
    entry c interest = some event ↔
      event.ptr = c ∧ event.events ≠ 0 ∧ interest = some event.events := by
  obtain ⟨events, ptr⟩ := event
  simp only [entry, Option.map_eq_some_iff, Option.filter_eq_some_iff, Event.mk.injEq]
  constructor
  · rintro ⟨_, ⟨rfl, hne⟩, rfl, rfl⟩
    exact ⟨rfl, by simpa using hne, rfl⟩
  · rintro ⟨rfl, hne, rfl⟩
    exact ⟨events, ⟨rfl, by simpa using hne⟩, rfl, rfl⟩

omit [DecidableEq ι] in
/-- No other channel has the descriptor, so the kernel has what there is of this one. -/
theorem Tagged.kernel_eq (h : Tagged fd table s) (hd : ∀ d, table d ≠ none → fd d = fd c → d = c) :
    s.kernel (fd c) = entry c (table c) := by
  refine Option.ext fun event => ?_
  rw [h.kernel]
  constructor
  · rintro ⟨hfd, hentry⟩
    obtain ⟨-, -, hsome⟩ := entry_eq_some.mp hentry
    obtain hc := hd event.ptr (by simp [hsome]) (by omega)
    rwa [hc] at hentry
  · intro hentry
    obtain ⟨rfl, -, -⟩ := entry_eq_some.mp hentry
    exact ⟨rfl, hentry⟩

/-- One channel changes, and its entry with it. -/
theorem Tagged.set (h : Tagged fd table s) (hd : ∀ d, table d ≠ none → fd d = fd c → d = c)
    {interest : Option (BitVec 32)} {x : Channel} (hfd : x.fd = fd c)
    (hinterest : x.interestedEvents = interest.getD 0) (hindex : x.index = tag interest)
    (hchannel : s'.channel = Function.update s.channel c x)
    (hkernel : s'.kernel = Function.update s.kernel (fd c : Int) (entry c interest)) :
    Tagged fd (Function.update table c interest) s' := by
  have hother {d : ι} (hne : d ≠ c) : s'.channel d = s.channel d := by
    rw [hchannel, Function.update_of_ne hne]
  have hself : s'.channel c = x := by rw [hchannel, Function.update_self]
  refine ⟨fun d => ?_, fun d => ?_, fun d => ?_, fun k event => ?_⟩
  · by_cases hne : d = c
    · rw [hne, hself, hfd]
    · rw [hother hne, h.descriptor]
  · by_cases hne : d = c
    · rw [hne, hself, hinterest, Function.update_self]
    · rw [hother hne, h.interest, Function.update_of_ne hne]
  · by_cases hne : d = c
    · rw [hne, hself, hindex, Function.update_self]
    · rw [hother hne, h.index, Function.update_of_ne hne]
  · rw [hkernel]
    by_cases hk : k = (fd c : Int)
    · subst hk
      rw [Function.update_self]
      constructor
      · intro hentry
        obtain ⟨hptr, -, -⟩ := entry_eq_some.mp hentry
        rw [hptr, Function.update_self]
        exact ⟨rfl, hentry⟩
      · rintro ⟨hk, hentry⟩
        by_cases hptr : event.ptr = c
        · rwa [hptr, Function.update_self] at hentry
        · rw [Function.update_of_ne hptr] at hentry
          obtain ⟨-, -, hsome⟩ := entry_eq_some.mp hentry
          exact absurd (hd event.ptr (by simp [hsome]) (by omega)) hptr
    · rw [Function.update_of_ne hk, h.kernel]
      refine and_congr_right fun hfd' => ?_
      have hptr : event.ptr ≠ c := by
        rintro rfl
        exact hk hfd'.symm
      rw [Function.update_of_ne hptr]

theorem Tagged.update (h : Tagged fd table s) (hd : ∀ d, table d ≠ none → fd d = fd c → d = c)
    {i : Channel.Interest} {events : BitVec 32} (hevents : events = i.apply ((table c).getD 0))
    (hchannel : s'.channel = Function.update s.channel c
      (((s.channel c).setInterest i).setIndex (tag (some events))))
    (hkernel : s'.kernel = Function.update s.kernel (fd c : Int) (entry c (some events))) :
    Tagged fd (table.next (.update i c)) s' := by
  subst hevents
  have hinterest : ((s.channel c).setInterest i).interestedEvents = i.apply ((table c).getD 0) := by
    rw [← h.interest]
    rfl
  refine h.set hd ?_ ?_ ?_ hchannel hkernel
  · exact h.descriptor c
  · exact hinterest
  · rfl

omit [DecidableEq ι] in
theorem entry_idle {interest : Option (BitVec 32)} (h : interest.getD 0 = 0) :
    entry c interest = none := by
  rcases interest with _ | events
  · rfl
  · obtain rfl : events = 0 := h
    simp [entry]

omit [DecidableEq ι] in
theorem entry_watched {events : BitVec 32} (h : events ≠ 0) :
    entry c (some events) = some ⟨events, c⟩ := by
  rw [entry_eq_some]
  exact ⟨rfl, h, rfl⟩

theorem tag_idle {interest : Option (BitVec 32)} (h : interest.getD 0 = 0) :
    tag interest = kNew ∨ tag interest = kDeleted := by
  rcases interest with _ | events
  · exact .inl rfl
  · obtain rfl : events = 0 := h
    exact .inr rfl

theorem tag_watched {events : BitVec 32} (h : events ≠ 0) : tag (some events) = kAdded := if_neg h

section
variable (h : Tagged fd table s) (hloop : s.loop_ = some s.thread)
  (hd : ∀ d, table d ≠ none → fd d = fd c → d = c) {i : Channel.Interest}
include h hloop hd

/-- The channel whose interest has changed, before the poller hears of it. -/
abbrev interested (s : EPollPoller.State ι) (c : ι) (i : Channel.Interest) : EPollPoller.State ι :=
  s.setChannel c ((s.channel c).setInterest i)

/-- A channel the kernel does not have is added, whatever its interest has come to. -/
theorem update_idle (hidle : (table c).getD 0 = 0) :
    ∃ s', (Call.update i c).epoll .release s = .ok s' ∧
      s'.channel = Function.update s.channel c (((s.channel c).setInterest i).setIndex kAdded) ∧
      s'.kernel = Function.update s.kernel (fd c : Int) (some ⟨i.apply 0, c⟩) := by
  have hnone : s.kernel (fd c) = none := by rw [h.kernel_eq hd, entry_idle hidle]
  have htag : ((interested s c i).channel c).index = kNew ∨
      ((interested s c i).channel c).index = kDeleted := by
    have := tag_idle hidle
    rw [← h.index] at this
    simpa [EPollPoller.State.setChannel, Channel.setInterest] using this
  have hinterest : (s.channel c).interestedEvents = 0 := by rw [h.interest, hidle]
  obtain ⟨channels, hs⟩ := EPollPoller.updateChannel_adds (s := interested s c i) hloop htag
  refine ⟨_, hs, ?_, ?_⟩
  · simp [EPollPoller.update, EPollPoller.State.setChannel]
  · simp [EPollPoller.update, EPollPoller.State.setChannel, Channel.setIndex, Channel.setInterest,
      h.descriptor, hinterest, EPollPoller.epollCtl_add hnone]

theorem update_enables (hidle : (table c).getD 0 = 0) (hi : i.apply 0 ≠ 0) :
    ∃ s', (Call.update i c).epoll .release s = .ok s' ∧
      Tagged fd (table.next (.update i c)) s' := by
  obtain ⟨s', hs, hchannel, hkernel⟩ := update_idle h hloop hd hidle
  have hevents : i.apply 0 = i.apply ((table c).getD 0) := by rw [hidle]
  refine ⟨s', hs, h.update hd hevents ?_ ?_⟩
  · rw [tag_watched hi, hchannel]
  · rw [entry_watched hi, hkernel]

/-- An update that leaves a channel without interest as it was has the kernel watch it for
nothing. -/
theorem again_watches_nothing (hidle : table c = some 0) (hi : i.apply 0 = 0)
    (hs : (Call.update i c).epoll .release s = .ok s') : ((fd c : Int), 0) ∈ s'.watched := by
  obtain ⟨t, ht, -, hkernel⟩ := update_idle h hloop hd (i := i) (by rw [hidle]; rfl)
  cases hs.symm.trans ht
  exact ⟨fd c, ⟨0, c⟩, by rw [hkernel, Function.update_self, hi], rfl⟩

/-- A channel the kernel has is changed there, or deleted. -/
theorem update_watched {events : BitVec 32} (hsome : table c = some events) (hne : events ≠ 0) :
    ∃ s', (Call.update i c).epoll .release s = .ok s' ∧
      Tagged fd (table.next (.update i c)) s' := by
  have hkernel : s.kernel (fd c) = some ⟨events, c⟩ := by
    rw [h.kernel_eq hd, hsome, entry_watched hne]
  have hindex : (s.channel c).index = kAdded := by rw [h.index, hsome, tag_watched hne]
  have htag : ((interested s c i).channel c).index = kAdded := by
    simpa [EPollPoller.State.setChannel, Channel.setInterest] using hindex
  have hinterest : (s.channel c).interestedEvents = events := by rw [h.interest, hsome]; rfl
  have happly : ((interested s c i).channel c).interestedEvents = i.apply events := by
    simp [EPollPoller.State.setChannel, Channel.setInterest, hinterest]
  have hevents : i.apply events = i.apply ((table c).getD 0) := by rw [hsome]; rfl
  by_cases hi : i.apply events = 0
  · have hs := EPollPoller.updateChannel_deletes (s := interested s c i) hloop htag
      (happly.trans hi)
    refine ⟨_, hs, h.update hd hevents ?_ ?_⟩
    · rw [tag, if_pos hi]
      simp [EPollPoller.update, EPollPoller.State.setChannel]
    · rw [hi, entry_idle rfl]
      simp [EPollPoller.update, EPollPoller.State.setChannel, Channel.setInterest,
        h.descriptor, EPollPoller.epollCtl_del hkernel]
  · have hs := EPollPoller.updateChannel_modifies (s := interested s c i) hloop htag
      (by rwa [happly])
    refine ⟨_, hs, h.update hd hevents ?_ ?_⟩
    · rw [tag_watched hi, ← hindex]
      rfl
    · rw [entry_watched hi]
      simp [EPollPoller.update, EPollPoller.State.setChannel, Channel.setInterest,
        h.descriptor, hinterest, EPollPoller.epollCtl_mod hkernel]

/-- Nothing is left of a removed channel, not even its tag. -/
theorem remove_idle (hidle : table c = some 0) :
    ∃ s', (Call.remove c).epoll .release s = .ok s' ∧ Tagged fd (table.next (.remove c)) s' := by
  have htag : (s.channel c).index = kDeleted := by rw [h.index, hidle, tag, if_pos rfl]
  have hnone : s.kernel (fd c) = none := by
    rw [h.kernel_eq hd, hidle]
    exact entry_idle rfl
  obtain ⟨channels, hs⟩ := EPollPoller.removeChannel_forgets hloop htag
  refine ⟨_, hs, h.set hd ?_ ?_ ?_ rfl ?_⟩
  · exact h.descriptor c
  · show (s.channel c).interestedEvents = _
    rw [h.interest, hidle]
    rfl
  · rfl
  · show s.kernel = Function.update s.kernel (fd c : Int) none
    rw [← hnone, Function.update_eq_self]

end

/-! ### The poll poller against the table -/

structure Slotted (fd : ι → Nat) (table : Interests ι) (s : Poller.State ι) : Prop where
  kept : Poller.Kept s
  descriptor : ∀ c, (s.channel c).fd = fd c
  interest : ∀ c, (s.channel c).interestedEvents = (table c).getD 0
  registered : ∀ c, s.Registered c ↔ table c ≠ none

variable {p p' : Poller.State ι}

/-- One channel changes. -/
theorem Slotted.set (h : Slotted fd table p) {interest : Option (BitVec 32)}
    (hkept : Poller.Kept p') (hfd : ∀ d, (p'.channel d).fd = (p.channel d).fd)
    (hself : (p'.channel c).interestedEvents = interest.getD 0)
    (hother : ∀ d, d ≠ c → (p'.channel d).interestedEvents = (p.channel d).interestedEvents)
    (hreg : p'.Registered c ↔ interest ≠ none)
    (hreg' : ∀ d, d ≠ c → (p'.Registered d ↔ p.Registered d)) :
    Slotted fd (Function.update table c interest) p' := by
  refine ⟨hkept, fun d => (hfd d).trans (h.descriptor d), fun d => ?_, fun d => ?_⟩
  · by_cases hd : d = c
    · rw [hd, hself, Function.update_self]
    · rw [hother d hd, h.interest, Function.update_of_ne hd]
  · by_cases hd : d = c
    · rw [hd, hreg, Function.update_self]
    · rw [hreg' d hd, h.registered, Function.update_of_ne hd]

/-- The calls that the other poller's clients may make. -/
theorem Slotted.admits {q : State ι} (h : Slotted fd q.table q.poller) {l : Call ι}
    (hm : may fd q l) (hremoved : ∀ i c, l = .update i c → q.poller.removed c = false) :
    (Poller.clients ι .release).may q.poller l.poller := by
  cases l with
  | update i c =>
    obtain ⟨hd, henables⟩ := hm
    refine ⟨⟨hremoved i c rfl, fun d hreg hfd => ?_⟩, fun hindex => henables ?_⟩
    · rw [h.descriptor, h.descriptor] at hfd
      exact hd d ((h.registered d).mp hreg) hfd
    · by_contra hne
      exact absurd ((h.registered c).mpr hne).1 (by omega)
  | remove c =>
    have hsome : q.table c = some 0 := hm
    refine ⟨⟨(h.registered c).mpr (by simp [hsome]), ?_⟩, trivial⟩
    rw [Channel.isNoneEvent_iff, h.interest, hsome]
    rfl

theorem poller_update (h : Slotted fd table p) {i : Channel.Interest}
    (hm : (Poller.clients ι .release).may p (.update i c)) :
    ∃ o p', Poller.step .release p (.update i c) = .ok (o, p') ∧
      Slotted fd (table.next (.update i c)) p' := by
  obtain ⟨o, p', hstep, hkept⟩ := Poller.kept_inductive p _ h.kept hm
  refine ⟨o, p', hstep, ?_⟩
  obtain ⟨⟨hremoved, -⟩, -⟩ := hm
  have hinterest : i.apply (p.channel c).interestedEvents = i.apply ((table c).getD 0) := by
    rw [h.interest]
  have hupdate : (Poller.updateChannel .release (p.interested c i) c >>= fun s => pure ([], s)) =
      .ok (o, p') := hstep
  by_cases hindex : (p.channel c).index < 0
  · rw [Poller.update_adds p c i hindex] at hupdate
    obtain ⟨rfl, rfl⟩ := Prod.mk.inj (Except.ok.inj hupdate)
    have hreg (d : ι) := Poller.registered_added (d := d)
      (x := ((p.channel c).setInterest i).setIndex p.pollfds.length) hindex hremoved rfl
    refine h.set hkept (fun d => ?_) ?_ (fun d hd => ?_) ?_ fun d hd => ?_
    · by_cases hd : d = c
      · rw [hd, Poller.added_self]
        rfl
      · rw [Poller.added_other hd]
    · rw [Poller.added_self]
      exact hinterest
    · rw [Poller.added_other hd]
    · simp [hreg]
    · simp [hreg, hd]
  · have hc : p.Registered c := ⟨by omega, hremoved⟩
    obtain ⟨n, pfd, hn, hget, -⟩ := h.kept.table.dense.slot c hc
    rw [Poller.update_refreshes i hn hget] at hupdate
    obtain ⟨rfl, rfl⟩ := Prod.mk.inj (Except.ok.inj hupdate)
    have hreg (d : ι) : (p.refreshed c ((p.channel c).setInterest i) n
        (.update ((p.channel c).setInterest i))).Registered d ↔ p.Registered d :=
      Poller.registered_refreshed rfl
    refine h.set hkept (fun d => ?_) ?_ (fun d hd => ?_) ?_ fun d hd => ?_
    · by_cases hd : d = c
      · simp [hd, Poller.State.refreshed, Channel.setInterest]
      · simp [Poller.State.refreshed, Function.update_of_ne hd]
    · simpa [Poller.State.refreshed, Channel.setInterest] using hinterest
    · simp [Poller.State.refreshed, Function.update_of_ne hd]
    · simp [hreg, hc]
    · rw [hreg]

theorem poller_remove (h : Slotted fd table p)
    (hm : (Poller.clients ι .release).may p (.remove c)) :
    ∃ o p', Poller.step .release p (.remove c) = .ok (o, p') ∧
      Slotted fd (table.next (.remove c)) p' := by
  obtain ⟨o, p', hstep, hkept⟩ := Poller.kept_inductive p _ h.kept hm
  refine ⟨o, p', hstep, ?_⟩
  obtain ⟨⟨hc, hnone⟩, -⟩ := hm
  obtain ⟨n, pfd, hn, hget, -⟩ := h.kept.table.dense.slot c hc
  have hlt := (List.getElem?_eq_some_iff.mp hget).1
  obtain ⟨d, hd, hlast⟩ := h.kept.table.dense.owner (p.pollfds.length - 1) (by omega)
  obtain ⟨q, hs, hw⟩ := Poller.remove_withdraws h.kept.table hc hn hd hlast
  have hstep' : Poller.step .release p (.remove c) = .ok ([], p.withdrawn c d n) := by
    simp only [Poller.step, Build.assert_release, ok_bind, hs, pure_eq_ok, hw]
  cases hstep.symm.trans hstep'
  have hsame (e : ι) := Poller.withdrawn_fd (s := p) (c := c) (d := d) (n := n) e
  have hreg (e : ι) := Poller.registered_withdrawn (c := c) (n := n) (e := e) hd
  refine h.set hkept (fun e => (hsame e).1) ?_ (fun e _ => (hsame e).2) ?_ fun e he => ?_
  · rw [(hsame c).2]
    exact Channel.isNoneEvent_iff.mp hnone
  · simp [hreg]
  · simp [hreg, he]

/-! ### What is watched -/

omit [DecidableEq ι] in
/-- The events of a slot, widened again, are the interest. -/
theorem slot_interest {x : Channel} {pfd : Poller.PollFd} (h : Poller.Slot x pfd) :
    pfd.events.signExtend 32 = x.interestedEvents := by
  refine BitVec.eq_of_toInt_eq ?_
  rw [BitVec.toInt_signExtend_of_le (by decide), h.events]

omit [DecidableEq ι] in
theorem Slotted.watches (h : Slotted fd table p) : p.watched = table.watched fd := by
  have hslot := h.kept.table.dense.slot
  ext w
  constructor
  · rintro ⟨pfd, hmem, hpos, rfl⟩
    obtain ⟨n, hlt, rfl⟩ := List.mem_iff_getElem.mp hmem
    obtain ⟨c, hc, hn⟩ := h.kept.table.dense.owner n hlt
    obtain ⟨m, pfd, hm, hget, hs⟩ := hslot c hc
    obtain rfl : m = n := by omega
    rw [List.getElem?_eq_getElem hlt, Option.some.injEq] at hget
    obtain ⟨events, hevents⟩ := Option.ne_none_iff_exists'.mp ((h.registered c).mp hc)
    have hinterest : (p.channel c).interestedEvents = events := by rw [h.interest, hevents]; rfl
    rw [hget] at hpos ⊢
    have hne : (p.channel c).interestedEvents ≠ 0 := by
      intro hzero
      have := h.kept.ignored c m pfd hc hzero hn (by rw [List.getElem?_eq_getElem hlt, hget])
      omega
    exact ⟨c, events, hevents, by rwa [← hinterest],
      by rw [slot_interest hs, hinterest, hs.watched hne, h.descriptor]⟩
  · rintro ⟨c, events, hevents, hne, rfl⟩
    have hinterest : (p.channel c).interestedEvents = events := by rw [h.interest, hevents]; rfl
    obtain ⟨n, pfd, -, hget, hs⟩ := hslot c ((h.registered c).mpr (by simp [hevents]))
    have hfd := hs.watched (by rwa [hinterest])
    rw [h.descriptor] at hfd
    exact ⟨pfd, List.mem_of_getElem? hget, by omega,
      by rw [slot_interest hs, hinterest, hfd]⟩

omit [DecidableEq ι] in
theorem Tagged.watches (h : Tagged fd table s) : s.watched = table.watched fd := by
  ext w
  constructor
  · rintro ⟨k, event, hkernel, rfl⟩
    obtain ⟨hfd, hentry⟩ := (h.kernel k event).mp hkernel
    obtain ⟨-, hne, hsome⟩ := entry_eq_some.mp hentry
    exact ⟨event.ptr, event.events, hsome, hne, by rw [hfd]⟩
  · rintro ⟨c, events, hsome, hne, rfl⟩
    exact ⟨fd c, ⟨events, c⟩, (h.kernel _ _).mpr ⟨rfl, entry_eq_some.mpr ⟨rfl, hne, hsome⟩⟩, rfl⟩

/-! ### Every call -/

/-- Both pollers are in step with the table. -/
structure Lockstep (fd : ι → Nat) (s : State ι) : Prop where
  slotted : Slotted fd s.table s.poller
  tagged : Tagged fd s.table s.epoll

omit [DecidableEq ι] in
theorem Lockstep.agree {s : State ι} (h : Lockstep fd s) : Agree fd s :=
  ⟨h.slotted.watches, h.tagged.watches⟩

omit [DecidableEq ι] in
theorem lockstep_initial (fd : ι → Nat) (loop_ : Option Nat) (thread : Nat) :
    Lockstep fd (initial fd loop_ thread) := by
  refine ⟨⟨⟨Poller.table_initial fd, Poller.ignored_initial fd⟩, fun _ => rfl, fun _ => rfl, fun c => ?_⟩,
    ⟨fun _ => rfl, fun _ => rfl, fun _ => rfl, fun k event => ?_⟩⟩
  · simp [initial, Poller.initial, Poller.State.Registered, Channel.new]
  · simp [initial, EPollPoller.initial, entry]

omit [DecidableEq ι] in
theorem Slotted.distinct (h : Slotted fd table p) (hc : table c ≠ none) (d : ι)
    (hd : table d ≠ none) (hfd : fd d = fd c) : d = c := by
  refine h.kept.table.mapped.eq_of_fd ((h.registered d).mpr hd) ((h.registered c).mpr hc) ?_
  rw [h.descriptor, h.descriptor, hfd]

variable {q : State ι}

theorem lockstep_inductive : ((clients fd).only Fits).Inductive (Lockstep fd) := by
  rintro q l ⟨hslotted, htagged⟩ ⟨hm, hloop, hfits⟩
  have hadmits := hslotted.admits hm fun i c hl => (hfits i c hl).1
  suffices ∃ o p' e', Poller.step .release q.poller l.poller = .ok (o, p') ∧
      l.epoll .release q.epoll = .ok e' ∧ Lockstep fd ⟨p', e', q.table.next l⟩ by
    obtain ⟨o, p', e', hp, he, hlock⟩ := this
    refine ⟨(), _, ?_, hlock⟩
    show step q l = _
    simp only [step, hp, he, ok_bind, pure_eq_ok]
  cases l with
  | update i c =>
    obtain ⟨o, p', hp, hslotted'⟩ := poller_update hslotted hadmits
    have hepoll : ∃ e', (Call.update i c).epoll .release q.epoll = .ok e' ∧
        Tagged fd (q.table.next (.update i c)) e' := by
      obtain ⟨hd, henables⟩ := hm
      obtain ⟨-, hagain⟩ := hfits i c rfl
      rcases htable : q.table c with _ | events
      · have hi : i.apply 0 ≠ 0 := by rcases henables htable with rfl | rfl <;> decide
        exact update_enables htagged hloop hd (by rw [htable]; rfl) hi
      · by_cases hzero : events = 0
        · subst hzero
          exact update_enables htagged hloop hd (by rw [htable]; rfl) fun hi => hagain ⟨htable, hi⟩
        · exact update_watched htagged hloop hd htable hzero
    obtain ⟨e', he, htagged'⟩ := hepoll
    exact ⟨o, p', e', hp, he, hslotted', htagged'⟩
  | remove c =>
    have hidle : q.table c = some 0 := hm
    obtain ⟨o, p', hp, hslotted'⟩ := poller_remove hslotted hadmits
    obtain ⟨e', he, htagged'⟩ :=
      remove_idle htagged hloop (hslotted.distinct (by simp [hidle])) hidle
    exact ⟨o, p', e', hp, he, hslotted', htagged'⟩

theorem epoll_inLoop {l : Call ι} (h : l.epoll .release s = .ok s') :
    s.loop_ = some s.thread := by
  cases l with
  | update i c => exact EPollPoller.updateChannel_inLoop (s := interested s c i) h
  | remove c =>
    simp only [Call.epoll, Build.assert_release, ok_bind] at h
    exact EPollPoller.removeChannel_inLoop h

omit [DecidableEq ι] in
theorem watched_ne_zero {w : Int × BitVec 32} (h : w ∈ table.watched fd) : w.2 ≠ 0 := by
  obtain ⟨c, events, -, hne, rfl⟩ := h
  exact hne

/-- **In a run that meets none of the faults both pollers watch what there is to watch**, and
then a call on a channel that was not removed keeps it so if it meets none, and only then. -/
theorem pollers_agree {loop_ : Option Nat} {thread : Nat} {tr : List (Call ι × Unit)}
    (h : ((clients fd).only Fits).Run (initial fd loop_ thread) tr q) :
    Agree fd q ∧ ∀ l, may fd q l → (∀ i c, l = .update i c → q.poller.removed c = false) →
      ((∃ t, step q l = .ok ((), t) ∧ Agree fd t) ↔ Fits q l) := by
  have hlock := lockstep_inductive.run h (lockstep_initial fd loop_ thread)
  refine ⟨hlock.agree, fun l hm hremoved => ⟨?_, fun hf => ?_⟩⟩
  · rintro ⟨t, hstep, -, hepoll⟩
    obtain ⟨⟨o, p'⟩, -, hstep⟩ := bind_eq_ok.mp hstep
    obtain ⟨e', he, hstep⟩ := bind_eq_ok.mp hstep
    obtain rfl := (Prod.mk.inj (Except.ok.inj hstep)).2
    have hloop := epoll_inLoop he
    refine ⟨hloop, fun i c hl => ⟨hremoved i c hl, ?_⟩⟩
    rintro ⟨hidle, hi⟩
    subst hl
    have hnothing := again_watches_nothing hlock.tagged hloop hm.1 hidle hi he
    have hwatched : ((fd c : Int), 0) ∈ (q.table.next (.update i c)).watched fd := hepoll ▸ hnothing
    exact watched_ne_zero hwatched rfl
  · obtain ⟨o, t, hstep, ht⟩ := lockstep_inductive q l hlock ⟨hm, hf⟩
    exact ⟨t, hstep, ht.agree⟩

instance [Fintype ι] (fd : ι → Nat) (q : State ι) :
    (l : Call ι) → Decidable ((clients fd).may q l)
  | .update _ _ => inferInstanceAs (Decidable (_ ∧ _))
  | .remove _ => inferInstanceAs (Decidable (_ = _))

omit [DecidableEq ι] in
theorem fits_update {i : Channel.Interest} : Fits q (.update i c) ↔
    q.epoll.loop_ = some q.epoll.thread ∧
      q.poller.removed c = false ∧ ¬ (q.table c = some 0 ∧ i.apply 0 = 0) := by
  refine and_congr_right fun _ => ⟨fun h => h i c rfl, ?_⟩
  rintro h _ _ ⟨⟩
  exact h

omit [DecidableEq ι] in
theorem fits_remove : Fits q (.remove c) ↔ q.epoll.loop_ = some q.epoll.thread := by
  simp [Fits]

instance (q : State ι) : (l : Call ι) → Decidable (Fits q l)
  | .update _ _ => decidable_of_iff' _ fits_update
  | .remove _ => decidable_of_iff' _ fits_remove

/-- Two channels, one of them removed. -/
theorem pollers_agree_removed : ∃ tr q,
    ((clients ![4, 5]).only Fits).Run (initial ![4, 5] (some 0) 0) tr q ∧
      tr.map Prod.fst = [.update .enableReading 0, .update .enableWriting 1, .update .disableAll 0,
        .remove 0] ∧
      Agree ![4, 5] q := by
  obtain ⟨tr, q, h, hcalls, -⟩ := ((clients ![4, 5]).only Fits).exists_run_of_replay
    (s := initial ![4, 5] (some 0) 0) (P := fun _ _ => True)
    [.update .enableReading 0, .update .enableWriting 1, .update .disableAll 0, .remove 0]
    (by decide +kernel)
  exact ⟨tr, q, h, hcalls, (pollers_agree h).1⟩

/-- `disableAll` twice, with `loop_` as it should be: the epoll poller watches the channel. -/
theorem pollers_disagree : ∃ tr q, (clients ![4]).Run (initial ![4] (some 0) 0) tr q ∧
    tr.map Prod.fst = [.update .enableReading 0, .update .disableAll 0, .update .disableAll 0] ∧
    ¬ Agree ![4] q := by
  obtain ⟨tr, q, h, hcalls, hkernel⟩ := (clients ![4]).exists_run_of_replay
    (s := initial ![4] (some 0) 0)
    (P := fun _ (q : State (Fin 1)) => q.epoll.kernel 4 = some ⟨0, 0⟩)
    [.update .enableReading 0, .update .disableAll 0, .update .disableAll 0] (by decide +kernel)
  refine ⟨tr, q, h, hcalls, fun hagree => ?_⟩
  have hnothing : ((4 : Int), 0) ∈ q.epoll.watched := ⟨4, _, hkernel, rfl⟩
  rw [hagree.2] at hnothing
  exact watched_ne_zero hnothing rfl

end Watch
end Leanet

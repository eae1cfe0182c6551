import Leanet.Poll.Poller

/-! The poller's two tables agree.

`Dense` ties the vector to the index inside each channel, `Mapped` ties the map by
descriptor to both. What carries the swap of `removeChannel` is `Dense.owner`: the last
slot belongs to a registered channel, whose descriptor can be read off the slot whether
it is negated or not. Each operation is reduced to the change it makes to the tables
(`added`, `refreshed`, `withdrawn`), and each change keeps both. -/
namespace Leanet.Poller
open Slots (at? iterSwap)
open Channel (Plain)

variable {ι : Type} [DecidableEq ι]

/-- The slot of a channel. -/
structure Slot (c : Channel) (pfd : PollFd) : Prop where
  fd : pfd.fd = c.fd ∨ pfd.fd = -c.fd - 1
  watched : c.interestedEvents ≠ 0 → pfd.fd = c.fd
  events : pfd.events.toInt = c.interestedEvents.toInt

/-- Every registered channel has a slot, every slot one registered channel. -/
structure Dense (s : State ι) : Prop where
  slot : ∀ c, s.Registered c → ∃ (n : Nat) (pfd : PollFd), (s.channel c).index = n ∧
    s.pollfds[n]? = some pfd ∧ Slot (s.channel c) pfd
  owner : ∀ n : Nat, n < s.pollfds.length → ∃ c, s.Registered c ∧ (s.channel c).index = n
  injective : ∀ c d, s.Registered c → s.Registered d →
    (s.channel c).index = (s.channel d).index → c = d

/-- The map holds the registered channels under their descriptors. -/
structure Mapped (s : State ι) : Prop where
  lookup : ∀ k c, s.channels[k]? = some c ↔ s.Registered c ∧ ((s.channel c).fd : Int) = k
  size : s.channels.size = s.pollfds.length

/-- The table invariant. -/
structure Table (s : State ι) : Prop where
  plain : ∀ c, Plain (s.channel c).interestedEvents
  dense : Dense s
  mapped : Mapped s

omit [DecidableEq ι] in
theorem table_initial (fd : ι → Nat) : Table (initial fd) := by
  have hnone : ∀ c, ¬ (initial fd).Registered c := fun c h => by
    have := h.1
    simp [initial, Channel.new] at this
  refine ⟨fun _ => Channel.plain_none, ⟨?_, ?_, ?_⟩, ⟨?_, rfl⟩⟩
  · exact fun c hc => absurd hc (hnone c)
  · intro n hn
    simp [initial] at hn
  · exact fun c _ hc => absurd hc (hnone c)
  · intro k c
    constructor
    · intro h
      simp [initial] at h
    · exact fun h => absurd h.1 (hnone c)

variable {s : State ι} {c d : ι} {x : Channel} {pfd : PollFd} {n : Nat}

omit [DecidableEq ι] in
theorem Dense.index_lt (h : Dense s) (hc : s.Registered c) :
    (s.channel c).index < s.pollfds.length := by
  obtain ⟨n, pfd, hn, hget, -⟩ := h.slot c hc
  have := (List.getElem?_eq_some_iff.mp hget).1
  omega

omit [DecidableEq ι] in
/-- Registered channels have distinct descriptors. -/
theorem Mapped.eq_of_fd (h : Mapped s) (hc : s.Registered c) (hd : s.Registered d)
    (hfd : (s.channel c).fd = (s.channel d).fd) : c = d := by
  have hc' := (h.lookup _ c).mpr ⟨hc, rfl⟩
  rw [hfd, (h.lookup _ d).mpr ⟨hd, rfl⟩] at hc'
  exact (Option.some.inj hc').symm

omit [DecidableEq ι] in
theorem Mapped.lookup_none (h : Mapped s) {k : Int}
    (hfree : ∀ d, s.Registered d → ((s.channel d).fd : Int) ≠ k) : s.channels[k]? = none := by
  by_contra hsome
  obtain ⟨d, hd⟩ := Option.ne_none_iff_exists'.mp hsome
  obtain ⟨hd, hk⟩ := (h.lookup k d).mp hd
  exact hfree d hd hk

/-- The slot of an update, when an interest is left. -/
theorem slot_watch (h : Plain x.interestedEvents) : Slot x (.watch x.fd x) :=
  ⟨.inl rfl, fun _ => rfl, h.toInt_setWidth⟩

/-- The slot of an update, when none is left. -/
theorem slot_ignored (h : Plain x.interestedEvents) (hnone : x.interestedEvents = 0) :
    Slot x { PollFd.watch x.fd x with fd := -x.fd - 1 } :=
  ⟨.inr rfl, fun hne => absurd hnone hne, h.toInt_setWidth⟩

/-! ### A new slot -/

/-- `c`, now `x`, is appended. -/
def State.added (s : State ι) (c : ι) (x : Channel) : State ι :=
  { s with
    pollfds := s.pollfds ++ [.watch x.fd x]
    channels := s.channels.insert (x.fd : Int) c
    channel := Function.update s.channel c x }

theorem added_self (s : State ι) (c : ι) (x : Channel) : (s.added c x).channel c = x :=
  Function.update_self ..

theorem added_other (h : d ≠ c) : (s.added c x).channel d = s.channel d :=
  Function.update_of_ne h ..

theorem registered_added (hfresh : (s.channel c).index < 0) (hremoved : s.removed c = false)
    (hindex : x.index = s.pollfds.length) :
    (s.added c x).Registered d ↔ d = c ∨ d ≠ c ∧ s.Registered d := by
  by_cases hd : d = c
  · subst hd
    simp only [State.Registered, added_self, hindex, true_or, iff_true]
    exact ⟨Int.natCast_nonneg _, hremoved⟩
  · simp only [State.Registered, added_other hd, hd, false_or, ne_eq, not_false_eq_true, true_and]
    rfl

theorem added_dense (h : Dense s) (hfresh : (s.channel c).index < 0) (hremoved : s.removed c = false)
    (hindex : x.index = s.pollfds.length) (hplain : Plain x.interestedEvents) :
    Dense (s.added c x) := by
  have hreg {d : ι} := registered_added (d := d) hfresh hremoved hindex
  refine ⟨?_, ?_, ?_⟩
  · intro d hd
    rcases hreg.mp hd with rfl | ⟨hne, hd⟩
    · rw [added_self]
      exact ⟨_, _, hindex, by simp [State.added], slot_watch hplain⟩
    · obtain ⟨n, pfd, hn, hget, hslot⟩ := h.slot d hd
      rw [added_other hne]
      refine ⟨n, pfd, hn, ?_, hslot⟩
      show (s.pollfds ++ _)[n]? = _
      rw [List.getElem?_append_left (List.getElem?_eq_some_iff.mp hget).1, hget]
  · intro n hn
    by_cases hlast : n = s.pollfds.length
    · exact ⟨c, hreg.mpr (.inl rfl), by rw [added_self, hlast, hindex]⟩
    · obtain ⟨d, hd, hidx⟩ := h.owner n (by simp [State.added] at hn; omega)
      have hne : d ≠ c := by
        rintro rfl
        omega
      exact ⟨d, hreg.mpr (.inr ⟨hne, hd⟩), by rw [added_other hne, hidx]⟩
  · intro d e hd he hidx
    rcases hreg.mp hd with rfl | ⟨hdc, hd'⟩ <;> rcases hreg.mp he with rfl | ⟨hec, he'⟩
    · rfl
    · rw [added_self, added_other hec, hindex] at hidx
      exact absurd hidx.symm (h.index_lt he').ne
    · rw [added_self, added_other hdc, hindex] at hidx
      exact absurd hidx (h.index_lt hd').ne
    · rw [added_other hdc, added_other hec] at hidx
      exact h.injective d e hd' he' hidx

theorem added_mapped (h : Mapped s) (hfresh : (s.channel c).index < 0)
    (hremoved : s.removed c = false) (hindex : x.index = s.pollfds.length)
    (hfree : ∀ d, s.Registered d → (s.channel d).fd ≠ x.fd) : Mapped (s.added c x) := by
  have hreg {d : ι} := registered_added (d := d) hfresh hremoved hindex
  refine ⟨?_, ?_⟩
  · intro k d
    show (s.channels.insert (x.fd : Int) c)[k]? = some d ↔ _
    rw [Std.TreeMap.getElem?_insert, hreg]
    by_cases hk : (x.fd : Int) = k
    · rw [if_pos (by simpa using hk)]
      constructor
      · rintro ⟨⟩
        exact ⟨.inl rfl, by rw [added_self, hk]⟩
      · rintro ⟨rfl | ⟨hne, hd⟩, hdk⟩
        · rfl
        · rw [added_other hne] at hdk
          exact absurd (by omega) (hfree d hd)
    · rw [if_neg (by simpa using hk), h.lookup]
      constructor
      · rintro ⟨hd, hdk⟩
        have hne : d ≠ c := by
          rintro rfl
          exact absurd hd.1 (by omega)
        exact ⟨.inr ⟨hne, hd⟩, by rw [added_other hne, hdk]⟩
      · rintro ⟨rfl | ⟨hne, hd⟩, hdk⟩
        · rw [added_self] at hdk
          exact absurd hdk hk
        · rw [added_other hne] at hdk
          exact ⟨hd, hdk⟩
  · have hnone : s.channels[(x.fd : Int)]? = none :=
      h.lookup_none fun d hd hk => hfree d hd (by exact_mod_cast hk)
    show (s.channels.insert (x.fd : Int) c).size = (s.pollfds ++ [_]).length
    rw [Std.TreeMap.size_insert, Std.TreeMap.contains_eq_isSome_getElem?, hnone, h.size]
    simp

/-! ### A slot rewritten -/

/-- `c`, now `x`, with the slot `pfd` at `n`. -/
def State.refreshed (s : State ι) (c : ι) (x : Channel) (n : Nat) (pfd : PollFd) : State ι :=
  { s with
    pollfds := s.pollfds.set n pfd
    channel := Function.update s.channel c x }

theorem refreshed_index (hx : x.index = (s.channel c).index) :
    ((s.refreshed c x n pfd).channel d).index = (s.channel d).index := by
  by_cases hd : d = c
  · subst hd
    simp [State.refreshed, hx]
  · simp [State.refreshed, Function.update_of_ne hd]

theorem registered_refreshed (hx : x.index = (s.channel c).index) :
    (s.refreshed c x n pfd).Registered d ↔ s.Registered d := by
  simp only [State.Registered, refreshed_index hx]
  rfl

theorem refreshed_dense (h : Dense s) (hc : s.Registered c) (hx : x.index = (s.channel c).index)
    (hn : (s.channel c).index = n) (hslot : Slot x pfd) : Dense (s.refreshed c x n pfd) := by
  refine ⟨?_, ?_, ?_⟩
  · intro d hd
    rw [registered_refreshed hx] at hd
    obtain ⟨m, old, hm, hget, hold⟩ := h.slot d hd
    have hmlt := (List.getElem?_eq_some_iff.mp hget).1
    rw [refreshed_index hx]
    by_cases hdc : d = c
    · subst hdc
      obtain rfl : m = n := by omega
      refine ⟨m, pfd, hm, ?_, by simpa [State.refreshed] using hslot⟩
      simp [State.refreshed, hmlt]
    · have hmn : n ≠ m := by
        rintro rfl
        exact hdc (h.injective d c hd hc (by omega))
      refine ⟨m, old, hm, ?_, by simpa [State.refreshed, Function.update_of_ne hdc] using hold⟩
      show (s.pollfds.set n pfd)[m]? = _
      rw [List.getElem?_set_ne hmn, hget]
  · intro m hm
    obtain ⟨d, hd, hidx⟩ := h.owner m (by simpa [State.refreshed] using hm)
    exact ⟨d, (registered_refreshed hx).mpr hd, by rw [refreshed_index hx, hidx]⟩
  · intro d e hd he hidx
    rw [registered_refreshed hx] at hd he
    rw [refreshed_index hx, refreshed_index hx] at hidx
    exact h.injective d e hd he hidx

theorem refreshed_mapped (h : Mapped s) (hx : x.index = (s.channel c).index)
    (hfd : x.fd = (s.channel c).fd) : Mapped (s.refreshed c x n pfd) := by
  refine ⟨?_, by simpa [State.refreshed] using h.size⟩
  intro k d
  have hsame : ((s.refreshed c x n pfd).channel d).fd = (s.channel d).fd := by
    by_cases hd : d = c
    · subst hd
      simp [State.refreshed, hfd]
    · simp [State.refreshed, Function.update_of_ne hd]
  rw [registered_refreshed hx, hsame]
  exact h.lookup k d

/-! ### A slot withdrawn -/

/-- `c` leaves the slot `n`, the owner `d` of the last slot moves there. When `c` is
itself the last one, nothing moves. -/
def State.withdrawn (s : State ι) (c d : ι) (n : Nat) : State ι where
  pollfds := (iterSwap s.pollfds n (s.pollfds.length - 1)).dropLast
  channels := s.channels.erase ((s.channel c).fd : Int)
  channel := Function.update s.channel d ((s.channel d).setIndex n)
  removed := Function.update s.removed c true

theorem withdrawn_fd (e : ι) :
    ((s.withdrawn c d n).channel e).fd = (s.channel e).fd ∧
    ((s.withdrawn c d n).channel e).interestedEvents = (s.channel e).interestedEvents := by
  by_cases he : e = d
  · subst he
    simp [State.withdrawn, Channel.setIndex]
  · simp [State.withdrawn, Function.update_of_ne he]

theorem withdrawn_moved : ((s.withdrawn c d n).channel d).index = n := by
  simp [State.withdrawn, Channel.setIndex]

theorem withdrawn_other {e : ι} (he : e ≠ d) : (s.withdrawn c d n).channel e = s.channel e :=
  Function.update_of_ne he ..

theorem registered_withdrawn {e : ι} (hd : s.Registered d) :
    (s.withdrawn c d n).Registered e ↔ e ≠ c ∧ s.Registered e := by
  have hremoved : (s.withdrawn c d n).removed e = false ↔ e ≠ c ∧ s.removed e = false := by
    by_cases he : e = c
    · subst he
      simp [State.withdrawn]
    · simp [State.withdrawn, he]
  unfold State.Registered
  rw [hremoved]
  by_cases he : e = d
  · subst he
    rw [withdrawn_moved]
    have := hd.1
    tauto
  · rw [withdrawn_other he]
    tauto

theorem withdrawn_slot {e : ι} (h : Dense s) (hc : s.Registered c) (hn : (s.channel c).index = n)
    (hd : s.Registered d) (hlast : (s.channel d).index = (s.pollfds.length - 1 : Nat))
    (hec : e ≠ c) (he : s.Registered e) :
    ∃ (m : Nat) (pfd : PollFd), ((s.withdrawn c d n).channel e).index = m ∧
      (s.withdrawn c d n).pollfds[m]? = some pfd ∧ Slot ((s.withdrawn c d n).channel e) pfd := by
  have hnlt : n < s.pollfds.length := by
    have := h.index_lt hc
    omega
  have hget (k : Nat) := Slots.swapPop_getElem? hnlt k
  obtain ⟨m, pfd, hm, hpfd, hslot⟩ := h.slot e he
  have hmlt := (List.getElem?_eq_some_iff.mp hpfd).1
  have hmn : m ≠ n := by
    rintro rfl
    exact hec (h.injective e c he hc (by omega))
  have hslot' : Slot ((s.withdrawn c d n).channel e) pfd := by
    obtain ⟨hfd, hinterest⟩ := withdrawn_fd (s := s) (c := c) (d := d) (n := n) e
    exact ⟨by rw [hfd]; exact hslot.fd, by rw [hfd, hinterest]; exact hslot.watched,
      by rw [hinterest]; exact hslot.events⟩
  by_cases hed : e = d
  · -- The owner of the last slot, which is not the one withdrawn.
    subst hed
    obtain rfl : m = s.pollfds.length - 1 := by omega
    refine ⟨n, pfd, withdrawn_moved, ?_, hslot'⟩
    show (iterSwap _ _ _).dropLast[n]? = _
    rw [hget, if_pos (by omega), if_pos rfl, hpfd]
  · have hml : m ≠ s.pollfds.length - 1 := by
      rintro rfl
      exact hed (h.injective e d he hd (by omega))
    refine ⟨m, pfd, by rw [withdrawn_other hed, hm], ?_, hslot'⟩
    show (iterSwap _ _ _).dropLast[m]? = _
    rw [hget, if_pos (by omega), if_neg hmn, hpfd]

theorem withdrawn_owner {m : Nat} (h : Dense s) (hn : (s.channel c).index = n)
    (hd : s.Registered d) (hlast : (s.channel d).index = (s.pollfds.length - 1 : Nat))
    (hm : m < s.pollfds.length - 1) :
    ∃ e, (s.withdrawn c d n).Registered e ∧ ((s.withdrawn c d n).channel e).index = m := by
  by_cases hmn : m = n
  · have hdc : d ≠ c := by
      rintro rfl
      omega
    exact ⟨d, (registered_withdrawn hd).mpr ⟨hdc, hd⟩, by rw [withdrawn_moved, hmn]⟩
  · obtain ⟨e, he, hidx⟩ := h.owner m (by omega)
    have hec : e ≠ c := by
      rintro rfl
      omega
    have hed : e ≠ d := by
      rintro rfl
      omega
    exact ⟨e, (registered_withdrawn hd).mpr ⟨hec, he⟩, by rw [withdrawn_other hed, hidx]⟩

/-- The slot `n` is free for `d`: its only owner was `c`. -/
theorem withdrawn_solo {e : ι} (h : Dense s) (hc : s.Registered c) (hn : (s.channel c).index = n)
    (hec : e ≠ c) (he : s.Registered e) (hidx : ((s.withdrawn c d n).channel e).index = n) :
    e = d := by
  by_contra hed
  rw [withdrawn_other hed] at hidx
  exact hec (h.injective e c he hc (by omega))

theorem withdrawn_dense (h : Dense s) (hc : s.Registered c) (hn : (s.channel c).index = n)
    (hd : s.Registered d) (hlast : (s.channel d).index = (s.pollfds.length - 1 : Nat)) :
    Dense (s.withdrawn c d n) := by
  have hreg {e : ι} := registered_withdrawn (c := c) (n := n) (e := e) hd
  refine ⟨fun e he => ?_, fun m hm => ?_, fun e f he hf hidx => ?_⟩
  · obtain ⟨hec, he⟩ := hreg.mp he
    exact withdrawn_slot h hc hn hd hlast hec he
  · exact withdrawn_owner h hn hd hlast (by simpa [State.withdrawn] using hm)
  · obtain ⟨hec, he'⟩ := hreg.mp he
    obtain ⟨hfc, hf'⟩ := hreg.mp hf
    by_cases hed : e = d
    · subst hed
      exact (withdrawn_solo h hc hn hfc hf' (by rw [← hidx, withdrawn_moved])).symm
    · by_cases hfd : f = d
      · subst hfd
        exact withdrawn_solo h hc hn hec he' (by rw [hidx, withdrawn_moved])
      · rw [withdrawn_other hed, withdrawn_other hfd] at hidx
        exact h.injective e f he' hf' hidx

theorem withdrawn_mapped (h : Mapped s) (hc : s.Registered c) (hd : s.Registered d) :
    Mapped (s.withdrawn c d n) := by
  refine ⟨?_, ?_⟩
  · intro k e
    show (s.channels.erase ((s.channel c).fd : Int))[k]? = some e ↔ _
    rw [Std.TreeMap.getElem?_erase, registered_withdrawn hd, (withdrawn_fd e).1]
    by_cases hk : ((s.channel c).fd : Int) = k
    · rw [if_pos (by simpa using hk)]
      constructor
      · exact nofun
      · rintro ⟨⟨hec, he⟩, hek⟩
        exact absurd (h.eq_of_fd he hc (by omega)) hec
    · rw [if_neg (by simpa using hk), h.lookup]
      constructor
      · rintro ⟨he, hek⟩
        refine ⟨⟨?_, he⟩, hek⟩
        rintro rfl
        exact hk hek
      · exact fun ⟨⟨_, he⟩, hek⟩ => ⟨he, hek⟩
  · show (s.channels.erase ((s.channel c).fd : Int)).size = _
    rw [Std.TreeMap.size_erase, Std.TreeMap.contains_eq_isSome_getElem?,
      (h.lookup _ c).mpr ⟨hc, rfl⟩, h.size]
    simp [State.withdrawn]

/-! ### The operations -/

/-- The interest of one channel changes before the poller hears of it. -/
def State.interested (s : State ι) (c : ι) (i : Channel.Interest) : State ι :=
  s.setChannel c ((s.channel c).setInterest i)

theorem update_adds (s : State ι) (c : ι) (i : Channel.Interest) (hindex : (s.channel c).index < 0) :
    updateChannel .release (s.interested c i) c =
      .ok (s.added c (((s.channel c).setInterest i).setIndex s.pollfds.length)) := by
  have hneg : ((s.interested c i).channel c).index < 0 := by
    simpa [State.interested, State.setChannel, Channel.setInterest] using hindex
  rw [updateChannel, if_pos hneg, Build.assert_release]
  simp [State.interested, State.setChannel, State.added, Channel.setInterest, Channel.setIndex,
    PollFd.watch]

/-- The slot `updateChannel` leaves to a channel that has one. -/
def PollFd.update (x : Channel) : PollFd :=
  if x.isNoneEvent then { PollFd.watch x.fd x with fd := -x.fd - 1 } else .watch x.fd x

theorem update_refreshes (i : Channel.Interest) (hn : (s.channel c).index = n)
    (hget : s.pollfds[n]? = some pfd) :
    updateChannel .release (s.interested c i) c =
      .ok (s.refreshed c ((s.channel c).setInterest i) n
        (.update ((s.channel c).setInterest i))) := by
  have hidx : ((s.interested c i).channel c).index = n := by
    simpa [State.interested, State.setChannel, Channel.setInterest] using hn
  have hat : at? (s.interested c i).pollfds (n : Int) = some pfd :=
    (Slots.at?_natCast ..).trans hget
  rw [updateChannel, if_neg (by omega), Build.assert_release, hidx, hat]
  simp only [ok_bind, deref_some, Build.assert_release, Int.toNat_natCast, pure_eq_ok]
  simp [State.interested, State.setChannel, State.refreshed, PollFd.update, PollFd.watch]

theorem slot_update (h : Plain x.interestedEvents) : Slot x (.update x) := by
  unfold PollFd.update
  split
  · next hnone => exact slot_ignored h (Channel.isNoneEvent_iff.mp hnone)
  · exact slot_watch h

theorem remove_withdraws (ht : Table s) (hc : s.Registered c) (hn : (s.channel c).index = n)
    (hd : s.Registered d) (hlast : (s.channel d).index = (s.pollfds.length - 1 : Nat)) :
    ∃ s', removeChannel .release s c = .ok s' ∧
      { s' with removed := Function.update s'.removed c true } = s.withdrawn c d n := by
  obtain ⟨m, pfd, hm, hget, hslot⟩ := ht.dense.slot c hc
  obtain rfl : m = n := by omega
  obtain ⟨l, last, hl, hgetLast, hslotLast⟩ := ht.dense.slot d hd
  obtain rfl : l = s.pollfds.length - 1 := by omega
  have hat : at? s.pollfds (m : Int) = some pfd := (Slots.at?_natCast ..).trans hget
  simp only [removeChannel, hn, hat, ok_bind, deref_some, Build.assert_release,
    Int.toNat_natCast, pure_eq_ok]
  by_cases hpop : m = s.pollfds.length - 1
  · obtain rfl : d = c := ht.dense.injective d c hd hc (by omega)
    rw [if_pos hpop]
    refine ⟨_, rfl, ?_⟩
    have hstay : (s.channel d).setIndex m = s.channel d := by simp [Channel.setIndex, ← hn]
    simp [State.withdrawn, hstay, ← hpop, Slots.iterSwap_self]
  · have hdc : d ≠ c := by
      rintro rfl
      omega
    have hfd : (if last.fd < 0 then -last.fd - 1 else last.fd) = ((s.channel d).fd : Int) := by
      rcases hslotLast.fd with h | h
      · rw [if_neg (by omega), h]
      · rw [if_pos (by omega), h]
        omega
    have hfound : (s.channels.erase ((s.channel c).fd : Int))[((s.channel d).fd : Int)]? = some d := by
      have hne : ((s.channel c).fd : Int) ≠ (s.channel d).fd := by
        intro h
        exact hdc (ht.mapped.eq_of_fd hd hc (by omega))
      rw [Std.TreeMap.getElem?_erase, if_neg (by simpa using hne), ht.mapped.lookup]
      exact ⟨hd, rfl⟩
    rw [if_neg hpop, List.getLast?_eq_getElem?, hgetLast]
    simp only [ok_bind, deref_some, hfd, hfound]
    exact ⟨_, rfl, rfl⟩

end Leanet.Poller

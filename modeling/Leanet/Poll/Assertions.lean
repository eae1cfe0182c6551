import Leanet.Poll.Active

/-! What the assertions of the poller ask of its clients.

A client registers a channel by enabling something. `updateChannel` asserts of a channel it
knows already that its slot is negated, which is how a channel without interest is kept
(`Ignored`): the assertion holds when the channel had nothing enabled, and never when it had
(`update_asserts`). `removeChannel` asserts the same after `disableAll`, and rightly. -/
namespace Leanet.Poller
open Slots (at?)
open Channel (Plain)

variable {ι : Type} [DecidableEq ι]

/-- The first call on a channel enables something. -/
def Enables (s : State ι) : Call ι → Prop
  | .update i c => (s.channel c).index < 0 → i = .enableReading ∨ i = .enableWriting
  | _ => True

/-- Clients that also register their channels with an interest. -/
def clients (ι : Type) [DecidableEq ι] (build : Build) : Machine (State ι) (Call ι) (List ι) Fault :=
  (machine ι build).only Enables

/-- A call that finds a channel new, or with nothing enabled. -/
def Passes (s : State ι) : Call ι → Prop
  | .update _ c => (s.channel c).index < 0 ∨ (s.channel c).isNoneEvent = true
  | _ => True

/-- The slot of a channel without interest is negated. -/
def Ignored (s : State ι) : Prop :=
  ∀ (c : ι) (n : Nat) (pfd : PollFd), s.Registered c → (s.channel c).interestedEvents = 0 →
    (s.channel c).index = n → s.pollfds[n]? = some pfd → pfd.fd = -(s.channel c).fd - 1

variable {s : State ι} {c d : ι} {x : Channel} {pfd : PollFd} {n : Nat}

omit [DecidableEq ι] in
theorem ignored_initial (fd : ι → Nat) : Ignored (initial fd) := by
  intro c n pfd _ _ _ hget
  simp [initial] at hget

theorem ignored_added (h : Ignored s) (hd : Dense s) (hfresh : (s.channel c).index < 0)
    (hremoved : s.removed c = false) (hindex : x.index = s.pollfds.length)
    (hinterest : x.interestedEvents ≠ 0) : Ignored (s.added c x) := by
  intro d n pfd hreg hnone hn hget
  obtain rfl | ⟨hne, hreg⟩ := (registered_added hfresh hremoved hindex).mp hreg
  · rw [added_self] at hnone
    exact absurd hnone hinterest
  · rw [added_other hne] at hnone hn ⊢
    have hlt := hd.index_lt hreg
    refine h d n pfd hreg hnone hn ?_
    rwa [State.added, List.getElem?_append_left (by omega)] at hget

theorem ignored_refreshed (h : Ignored s) (hd : Dense s) (hc : s.Registered c)
    (hx : x.index = (s.channel c).index) (hn : (s.channel c).index = n)
    (hslot : x.interestedEvents = 0 → pfd.fd = -x.fd - 1) : Ignored (s.refreshed c x n pfd) := by
  intro d m asked hreg hnone hm hget
  rw [registered_refreshed hx] at hreg
  rw [refreshed_index hx] at hm
  have hlt := hd.index_lt hreg
  by_cases hdc : d = c
  · subst hdc
    obtain rfl : m = n := by omega
    simp only [State.refreshed, Function.update_self] at hnone hget ⊢
    rw [List.getElem?_set_self (by omega)] at hget
    obtain rfl := Option.some.inj hget
    exact hslot hnone
  · have hmn : n ≠ m := by
      rintro rfl
      exact hdc (hd.injective d c hreg hc (by omega))
    simp only [State.refreshed, Function.update_of_ne hdc] at hnone hget ⊢
    rw [List.getElem?_set_ne hmn] at hget
    exact h d m asked hreg hnone hm hget

theorem ignored_withdrawn (h : Ignored s) (hdense : Dense s) (hc : s.Registered c)
    (hn : (s.channel c).index = n) (hd : s.Registered d)
    (hlast : (s.channel d).index = (s.pollfds.length - 1 : Nat)) : Ignored (s.withdrawn c d n) := by
  intro e m pfd he hnone hm hget
  obtain ⟨hec, hreg⟩ := (registered_withdrawn hd).mp he
  obtain ⟨hfd, hinterest⟩ := withdrawn_fd (s := s) (c := c) (d := d) (n := n) e
  rw [hinterest] at hnone
  rw [hfd]
  have hnlt := hdense.index_lt hc
  have helt := hdense.index_lt hreg
  have hmlt : m < s.pollfds.length - 1 := by
    have := (List.getElem?_eq_some_iff.mp hget).1
    simpa [State.withdrawn] using this
  change (Slots.iterSwap _ _ _).dropLast[m]? = _ at hget
  rw [Slots.swapPop_getElem? (by omega), if_pos (by omega)] at hget
  by_cases hed : e = d
  · subst hed
    rw [withdrawn_moved] at hm
    obtain rfl : m = n := by omega
    rw [if_pos rfl] at hget
    exact h e _ pfd hreg hnone hlast hget
  · rw [withdrawn_other hed] at hm
    have hmn : m ≠ n := by
      rintro rfl
      exact hec (hdense.injective e c hreg hc (by omega))
    rw [if_neg hmn] at hget
    exact h e m pfd hreg hnone hm hget

omit [DecidableEq ι] in
theorem ignored_answered (h : Ignored s) {pollfds : List PollFd}
    (ha : s.pollfds.Forall₂ Answers pollfds) {channel : ι → Channel}
    (hc : ∀ c, ∃ r, channel c = (s.channel c).setReceivedEvents r) :
    Ignored { s with pollfds, channel } := by
  intro c n answered hreg hnone hn hget
  obtain ⟨r, hr⟩ := hc c
  simp only [State.Registered, hr, Channel.setReceivedEvents] at hreg hnone hn hget ⊢
  obtain ⟨asked, hasked⟩ : ∃ asked, s.pollfds[n]? = some asked := by
    refine ⟨_, List.getElem?_eq_getElem ?_⟩
    rw [ha.length_eq]
    exact (List.getElem?_eq_some_iff.mp hget).1
  obtain ⟨answered', hget', hfd, -⟩ := answered_slot ha hasked
  obtain rfl := Option.some.inj (hget.symm.trans hget')
  rw [hfd]
  exact h c n asked hreg hnone hn hasked

/-! ### Every call -/

/-- The invariant of a poller whose clients register with an interest. -/
structure Kept (s : State ι) : Prop where
  table : Table s
  ignored : Ignored s

theorem Plain.enables {i : Channel.Interest} (h : Plain x.interestedEvents)
    (hi : i = .enableReading ∨ i = .enableWriting) : (x.setInterest i).interestedEvents ≠ 0 := by
  show i.apply x.interestedEvents ≠ 0
  rcases h with h | h | h | h <;> rw [h] <;> rcases hi with rfl | rfl <;> decide

theorem ignored_update (h : Kept s) {i : Channel.Interest} (hm : may s (.update i c))
    (he : Enables s (.update i c)) {s' : State ι}
    (hs : updateChannel .release (s.interested c i) c = .ok s') : Ignored s' := by
  obtain ⟨hremoved, -⟩ := hm
  by_cases hindex : (s.channel c).index < 0
  · rw [update_adds s c i hindex] at hs
    obtain rfl := Except.ok.inj hs
    exact ignored_added h.ignored h.table.dense hindex hremoved rfl
      (Plain.enables (h.table.plain c) (he hindex))
  · have hc : s.Registered c := ⟨by omega, hremoved⟩
    obtain ⟨n, pfd, hn, hget, -⟩ := h.table.dense.slot c hc
    rw [update_refreshes i hn hget] at hs
    obtain rfl := Except.ok.inj hs
    refine ignored_refreshed h.ignored h.table.dense hc rfl hn fun hnone => ?_
    rw [PollFd.update, if_pos (Channel.isNoneEvent_iff.mpr hnone)]

theorem kept_inductive : (clients ι .release).Inductive Kept := by
  rintro s l h ⟨hm, he⟩
  obtain ⟨o, t, hstep, ht⟩ := table_inductive s l h.table hm
  refine ⟨o, t, hstep, ht, ?_⟩
  cases l with
  | update i c =>
    obtain ⟨s', hs, -⟩ := table_update h.table hm
    have hstep' : step .release s (.update i c) = .ok ([], s') := by
      show (updateChannel .release (s.interested c i) c >>= _) = _
      rw [hs]
      rfl
    cases hstep.symm.trans hstep'
    exact ignored_update h hm he hs
  | remove c =>
    obtain ⟨hc, -⟩ := hm
    obtain ⟨n, pfd, hn, hget, -⟩ := h.table.dense.slot c hc
    have hlt := (List.getElem?_eq_some_iff.mp hget).1
    obtain ⟨d, hd, hlast⟩ := h.table.dense.owner (s.pollfds.length - 1) (by omega)
    obtain ⟨s', hs, hw⟩ := remove_withdraws h.table hc hn hd hlast
    have hstep' : step .release s (.remove c) = .ok ([], s.withdrawn c d n) := by
      simp only [step, Build.assert_release, ok_bind, hs, pure_eq_ok, hw]
    cases hstep.symm.trans hstep'
    exact ignored_withdrawn h.ignored h.table.dense hc hn hd hlast
  | poll answer =>
    cases answer with
    | none =>
      cases hstep
      exact h.ignored
    | some pollfds =>
      obtain rfl : t = (poll s (some pollfds)).2 := (congrArg Prod.snd (Except.ok.inj hstep)).symm
      unfold poll
      dsimp only
      split
      · exact ignored_answered h.ignored hm fun c => fill_received ..
      · exact ignored_answered h.ignored hm fun c => ⟨(s.channel c).receivedEvents, rfl⟩

/-! ### The assertions -/

theorem debug_assert {p : Prop} [Decidable p] (h : p) : Build.debug.assert p = .ok () :=
  assert_holds h

/-- Of a new channel nothing is asserted that does not hold. -/
theorem debug_adds (h : Kept s) {i : Channel.Interest} (hm : may s (.update i c))
    (hindex : (s.channel c).index < 0) :
    updateChannel .debug (s.interested c i) c = updateChannel .release (s.interested c i) c := by
  have hneg : ((s.interested c i).channel c).index < 0 := by
    simpa [State.interested, State.setChannel, Channel.setInterest] using hindex
  have hfree : s.channels[((s.channel c).fd : Int)]? = none :=
    h.table.mapped.lookup_none fun d hd hfd => by
      obtain rfl := hm.2 d hd (by omega)
      exact absurd hd.1 (by omega)
  have hnew : (s.interested c i).channels[(((s.interested c i).channel c).fd : Int)]?.isNone := by
    simpa [State.interested, State.setChannel, Channel.setInterest] using hfree
  rw [updateChannel, updateChannel, if_pos hneg, if_pos hneg, debug_assert hnew,
    Build.assert_release]

/-- Of a known channel it is asserted that its slot is negated. -/
theorem debug_refreshes (h : Kept s) (hc : s.Registered c) (i : Channel.Interest)
    (hn : (s.channel c).index = n) (hget : s.pollfds[n]? = some pfd) :
    updateChannel .debug (s.interested c i) c =
      if pfd.fd = -(s.channel c).fd - 1 then updateChannel .release (s.interested c i) c
      else .error .assertion := by
  have hidx : ((s.interested c i).channel c).index = n := by
    simpa [State.interested, State.setChannel, Channel.setInterest] using hn
  have hfd : ((s.interested c i).channel c).fd = (s.channel c).fd := by
    simp [State.interested, State.setChannel, Channel.setInterest]
  have hknown : (s.interested c i).channels[((s.channel c).fd : Int)]?.isSome := by
    have : s.channels[((s.channel c).fd : Int)]? = some c := (h.table.mapped.lookup _ c).mpr ⟨hc, rfl⟩
    simp [State.interested, State.setChannel, this]
  have hat : at? (s.interested c i).pollfds (n : Int) = some pfd :=
    (Slots.at?_natCast ..).trans hget
  have hknown' : ¬ ((s.interested c i).channel c).index < 0 := by omega
  by_cases hslot : pfd.fd = -(s.channel c).fd - 1
  · rw [if_pos hslot, updateChannel, updateChannel, if_neg hknown', if_neg hknown', hidx, hat, hfd]
    simp only [debug_assert hknown, debug_assert hslot, Build.assert_release, ok_bind, deref_some]
  · rw [if_neg hslot, updateChannel, if_neg hknown', hidx, hat, hfd, debug_assert hknown]
    simp only [ok_bind, deref_some]
    rw [show Build.debug.assert (pfd.fd = -(s.channel c).fd - 1) = _ from assert_fails hslot,
      error_bind]

/-- The assertion on the slot decides. -/
theorem update_asserts (h : Kept s) {i : Channel.Interest} (hm : may s (.update i c)) :
    Passes s (.update i c) ∧ updateChannel .debug (s.interested c i) c =
        updateChannel .release (s.interested c i) c ∨
      ¬ Passes s (.update i c) ∧
        updateChannel .debug (s.interested c i) c = .error .assertion := by
  by_cases hindex : (s.channel c).index < 0
  · exact .inl ⟨.inl hindex, debug_adds h hm hindex⟩
  have hc : s.Registered c := ⟨by omega, hm.1⟩
  obtain ⟨n, pfd, hn, hget, hslot⟩ := h.table.dense.slot c hc
  rw [debug_refreshes h hc i hn hget]
  by_cases hnone : (s.channel c).interestedEvents = 0
  · refine .inl ⟨.inr (Channel.isNoneEvent_iff.mpr hnone), ?_⟩
    rw [if_pos (h.ignored c n pfd hc hnone hn hget)]
  · have hwatched := hslot.watched hnone
    refine .inr ⟨?_, by rw [if_neg (by omega)]⟩
    rintro (hneg | hevents)
    · exact hindex hneg
    · exact hnone (Channel.isNoneEvent_iff.mp hevents)

theorem debug_removes (h : Kept s) (hm : may s (.remove c)) :
    removeChannel .debug s c = removeChannel .release s c := by
  obtain ⟨hc, hnone⟩ := hm
  obtain ⟨n, pfd, hn, hget, hslot⟩ := h.table.dense.slot c hc
  have hlt := (List.getElem?_eq_some_iff.mp hget).1
  have hfound : s.channels[((s.channel c).fd : Int)]? = some c :=
    (h.table.mapped.lookup _ c).mpr ⟨hc, rfl⟩
  have hat : at? s.pollfds (n : Int) = some pfd := (Slots.at?_natCast ..).trans hget
  have hinterest := Channel.isNoneEvent_iff.mp hnone
  have hevents : pfd.events.signExtend 32 = (s.channel c).interestedEvents := by
    have hzero : pfd.events = 0 := by
      rw [← BitVec.toInt_inj, hslot.events, hinterest]
      rfl
    rw [hzero, hinterest]
    decide
  have hslot' := And.intro (h.ignored c n pfd hc hinterest hn hget) hevents
  have hmem : ((s.channel c).fd : Int) ∈ s.channels := by
    rw [Std.TreeMap.mem_iff_isSome_getElem?, hfound]
    rfl
  have hindex : 0 ≤ (n : Int) ∧ (n : Int) < s.pollfds.length := by omega
  rw [removeChannel, removeChannel]
  simp only [hn, hat, hfound, Option.isSome_some, debug_assert trivial,
    debug_assert hnone, debug_assert hindex, debug_assert hslot', debug_assert hmem,
    Build.assert_release, ok_bind, deref_some]

/-- A debug build does what a release build does, or stops at the assertion on the slot. -/
theorem step_asserts (h : Kept s) {l : Call ι} (hm : may s l) :
    Passes s l ∧ step .debug s l = step .release s l ∨
      ¬ Passes s l ∧ step .debug s l = .error .assertion := by
  cases l with
  | update i c =>
    have hupdate (build : Build) : step build s (.update i c) =
        (updateChannel build (s.interested c i) c >>= fun s => pure ([], s)) := rfl
    rw [hupdate, hupdate]
    rcases update_asserts h hm with ⟨hp, heq⟩ | ⟨hp, herr⟩
    · exact .inl ⟨hp, by rw [heq]⟩
    · exact .inr ⟨hp, by rw [herr, error_bind]⟩
  | remove c =>
    refine .inl ⟨trivial, ?_⟩
    simp only [step, debug_assert hm.2, Build.assert_release, debug_removes h hm]
  | poll answer => exact .inl ⟨trivial, rfl⟩

theorem kept_step {build : Build} (h : Kept s) {l : Call ι} {o : List ι} {t : State ι}
    (hm : (clients ι build).may s l) (hstep : step build s l = .ok (o, t)) : Kept t := by
  obtain ⟨o', t', hstep', ht⟩ := kept_inductive s l h hm
  change step .release s l = _ at hstep'
  cases build with
  | release =>
    cases hstep.symm.trans hstep'
    exact ht
  | debug =>
    rcases step_asserts h hm.1 with ⟨-, heq⟩ | ⟨-, herr⟩
    · rw [heq] at hstep
      cases hstep.symm.trans hstep'
      exact ht
    · cases hstep.symm.trans herr

/-- **In any run of disciplined clients the assertions hold in the next call if it finds
its channel new or with nothing enabled**, or removes it, and only then. -/
theorem poller_assertions {build : Build} {fd : ι → Nat} {tr : List (Call ι × List ι)}
    (h : (clients ι build).Run (initial fd) tr s) {l : Call ι} (hm : (clients ι build).may s l) :
    (∃ o t, step .debug s l = .ok (o, t)) ↔ Passes s l := by
  have hk : Kept s := h.preserves (fun _ _ _ _ hk hm hstep => kept_step hk hm hstep)
    ⟨table_initial fd, ignored_initial fd⟩
  obtain ⟨o, t, hstep, -⟩ := kept_inductive s l hk hm
  rcases step_asserts hk hm.1 with ⟨hp, heq⟩ | ⟨hp, herr⟩
  · exact iff_of_true ⟨o, t, heq.trans hstep⟩ hp
  · exact iff_of_false (by simp [herr]) hp

instance (s : State ι) : (l : Call ι) → Decidable (Enables s l)
  | .update _ _ => inferInstanceAs (Decidable (_ → _))
  | .remove _ | .poll _ => inferInstanceAs (Decidable True)

instance [Fintype ι] (build : Build) (s : State ι) (l : Call ι) :
    Decidable ((clients ι build).may s l) :=
  inferInstanceAs (Decidable ((machine ι build).may s l ∧ Enables s l))

/-- Writing is enabled on a channel that a release build has disabled. -/
theorem poller_assertions_reenabled : ∃ tr s,
    (clients (Fin 1) .release).Run (initial ![4]) tr s ∧
    ((∃ o t, step .debug s (.update .enableWriting 0) = .ok (o, t)) ↔
      Passes s (.update .enableWriting 0)) := by
  obtain ⟨tr, s, h, -, hm⟩ := (clients (Fin 1) .release).exists_run_of_replay (s := initial ![4])
    (P := fun _ s => (clients (Fin 1) .release).may s (.update .enableWriting 0))
    [.update .enableReading 0, .update .disableAll 0] (by decide +kernel)
  exact ⟨tr, s, h, poller_assertions h hm⟩

/-- Writing is enabled on a channel that is reading. -/
theorem poller_assertions_enableWriting : ∃ tr s,
    (clients (Fin 1) .debug).Run (initial ![4]) tr s ∧
    (clients (Fin 1) .debug).may s (.update .enableWriting 0) ∧
    ¬ ∃ o t, step .debug s (.update .enableWriting 0) = .ok (o, t) := by
  obtain ⟨tr, s, h, -, hm, hfails⟩ :=
    (clients (Fin 1) .debug).exists_run_of_replay (s := initial ![4])
      (P := fun _ s => (clients (Fin 1) .debug).may s (.update .enableWriting 0) ∧
        (step .debug s (.update .enableWriting 0)).toBool = false)
      [.update .enableReading 0] (by decide +kernel)
  refine ⟨tr, s, h, hm, ?_⟩
  rintro ⟨o, t, hstep⟩
  rw [hstep] at hfails
  cases hfails

end Leanet.Poller

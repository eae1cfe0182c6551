import Leanet.Poll.Table
import Mathlib.Data.Fin.VecNotation

/-! The scan finds the ready channels.

With the table in place a slot that poll(2) answered belongs to exactly one registered
channel and carries that channel's descriptor, since ignored slots are not answered. The
scan stops when it has seen as many answers as poll(2) announced, which is all of them
(`fill_active`). `table_inductive` carries the table over every call, so the last result
holds at any time in any run. -/
namespace Leanet.Poller
open Slots (at?)

variable {ι : Type} [DecidableEq ι] {channels : Std.TreeMap Int ι} {heap : ι → Channel} {c : ι}

/-! ### The loop -/

/-- No flag is the sign bit, so an answer is not zero exactly if it is positive. -/
theorem revents_pos {r : BitVec 16} (h : 0 ≤ r.toInt) : 0 < r.toInt ↔ r ≠ 0 := by
  have hzero : r.toInt = 0 ↔ r = 0 := BitVec.toInt_inj (x := r) (y := 0)
  rw [Ne, ← hzero]
  omega

theorem fill_done (channels : Std.TreeMap Int ι) (l : List PollFd) (heap : ι → Channel) :
    fillActiveChannels channels l 0 heap = ([], heap) := by
  cases l <;> rfl

/-- The early exit loses nothing. -/
theorem fill_active (channels : Std.TreeMap Int ι) (l : List PollFd) (heap : ι → Channel)
    (hflags : ∀ pfd ∈ l, 0 ≤ pfd.revents.toInt) :
    (fillActiveChannels channels l (l.countP (·.revents ≠ 0)) heap).1 =
      (l.filter (·.revents ≠ 0)).filterMap fun pfd => channels[pfd.fd]? := by
  induction l generalizing heap with
  | nil => rfl
  | cons pfd rest ih =>
    have ih heap := ih heap fun p hp => hflags p (List.mem_cons_of_mem _ hp)
    have hpos := revents_pos (hflags pfd List.mem_cons_self)
    by_cases hready : pfd.revents = 0
    · rw [List.countP_cons_of_neg (by simpa using hready), List.filter_cons_of_neg (by simpa using hready)]
      by_cases hcount : rest.countP (·.revents ≠ 0) = 0
      · rw [← ih heap, hcount]
        simp [fill_done]
      · rw [fillActiveChannels, if_pos (by omega), if_neg (by rw [hpos]; simpa using hready)]
        exact ih heap
    · rw [List.countP_cons_of_pos (by simpa using hready), List.filter_cons_of_pos (by simpa using hready),
        fillActiveChannels, if_pos (by omega), if_pos (hpos.mpr hready)]
      have hcount : ((rest.countP (·.revents ≠ 0) + 1 : Nat) : Int) - 1 =
          rest.countP (·.revents ≠ 0) := by omega
      rw [hcount, List.filterMap_cons]
      cases channels[pfd.fd]? with
      | none => exact ih heap
      | some c => exact congrArg (c :: ·) (ih _)

/-- A channel that is not reported keeps what it had. -/
theorem fill_frame {l : List PollFd} {numEvents : Int}
    (h : c ∉ (fillActiveChannels channels l numEvents heap).1) :
    (fillActiveChannels channels l numEvents heap).2 c = heap c := by
  fun_induction fillActiveChannels channels l numEvents heap with
  | case1 | case5 => rfl
  | case2 pfd rest numEvents heap _ _ d _ active heap' hrest ih =>
    rw [hrest] at ih
    have hne : c ≠ d := by
      rintro rfl
      exact h List.mem_cons_self
    rw [ih fun hc => h (List.mem_cons_of_mem _ hc), Function.update_of_ne hne]
  | case3 _ _ _ _ _ _ _ ih | case4 _ _ _ _ _ _ ih => exact ih h

/-- The scan writes received events only. -/
theorem fill_received (channels : Std.TreeMap Int ι) (l : List PollFd) (numEvents : Int)
    (heap : ι → Channel) (c : ι) : ∃ r,
    (fillActiveChannels channels l numEvents heap).2 c = (heap c).setReceivedEvents r := by
  fun_induction fillActiveChannels channels l numEvents heap with
  | case1 _ heap | case5 _ _ _ heap => exact ⟨(heap c).receivedEvents, rfl⟩
  | case2 pfd rest numEvents heap _ _ d _ active heap' hrest ih =>
    rw [hrest] at ih
    obtain ⟨r, hr⟩ := ih
    by_cases hc : c = d
    · subst hc
      exact ⟨r, by rw [hr, Function.update_self]; rfl⟩
    · exact ⟨r, by rw [hr, Function.update_of_ne hc]⟩
  | case3 _ _ _ _ _ _ _ ih | case4 _ _ _ _ _ _ ih => exact ih

/-- A reported channel receives the events of its slot. -/
theorem fill_own {l : List PollFd} {numEvents : Int} {r : BitVec 16}
    (hown : ∀ pfd ∈ l, channels[pfd.fd]? = some c → 0 < pfd.revents.toInt → pfd.revents = r)
    (h : c ∈ (fillActiveChannels channels l numEvents heap).1) :
    (fillActiveChannels channels l numEvents heap).2 c =
      (heap c).setReceivedEvents (r.signExtend 32) := by
  fun_induction fillActiveChannels channels l numEvents heap with
  | case1 | case5 => simp at h
  | case2 pfd rest numEvents heap _ hpos d hd active heap' hrest ih =>
    have ih := ih fun p hp => hown p (List.mem_cons_of_mem _ hp)
    have hframe (hnot : c ∉ active) : (active, heap').2 c =
        Function.update heap d ((heap d).setReceivedEvents (pfd.revents.signExtend 32)) c := by
      rw [← hrest]
      exact fill_frame (by rw [hrest]; exact hnot)
    rw [hrest] at ih
    by_cases hlater : c ∈ active
    · rw [ih hlater]
      by_cases hc : c = d
      · subst hc
        rw [Function.update_self]
        rfl
      · rw [Function.update_of_ne hc]
    · obtain rfl : c = d := (List.mem_cons.mp h).resolve_right hlater
      rw [hframe hlater, Function.update_self, hown pfd List.mem_cons_self hd hpos]
  | case3 _ _ _ _ _ _ _ ih | case4 _ _ _ _ _ _ ih =>
    exact ih (fun p hp => hown p (List.mem_cons_of_mem _ hp)) h

/-! ### The table over every call -/

variable {s : State ι} {pollfds : List PollFd}

omit [DecidableEq ι] in
/-- An answered slot keeps its descriptor and its events. -/
theorem answered_slot (h : s.pollfds.Forall₂ Answers pollfds) {n : Nat} {asked : PollFd}
    (hn : s.pollfds[n]? = some asked) :
    ∃ answered, pollfds[n]? = some answered ∧ Answers asked answered := by
  obtain ⟨hlt, rfl⟩ := List.getElem?_eq_some_iff.mp hn
  have hlt' : n < pollfds.length := by rwa [← h.length_eq]
  exact ⟨pollfds[n], List.getElem?_eq_getElem hlt', h.get hlt hlt'⟩

omit [DecidableEq ι] in
theorem Slot.answered {x : Channel} {asked answered : PollFd} (h : Slot x asked)
    (ha : Answers asked answered) : Slot x answered := by
  obtain ⟨hfd, hevents, -, -⟩ := ha
  exact ⟨by rw [hfd]; exact h.fd, by rw [hfd]; exact h.watched, by rw [hevents]; exact h.events⟩

omit [DecidableEq ι] in
/-- The table does not depend on what was received. -/
theorem Table.answered (h : Table s) (ha : s.pollfds.Forall₂ Answers pollfds)
    {channel : ι → Channel} (hc : ∀ c, ∃ r, channel c = (s.channel c).setReceivedEvents r) :
    Table { s with pollfds, channel } := by
  have hsame (c : ι) : (channel c).fd = (s.channel c).fd ∧
      (channel c).interestedEvents = (s.channel c).interestedEvents ∧
      (channel c).index = (s.channel c).index := by
    obtain ⟨r, hr⟩ := hc c
    rw [hr]
    exact ⟨rfl, rfl, rfl⟩
  have hreg (c : ι) : ({ s with pollfds, channel } : State ι).Registered c ↔ s.Registered c := by
    simp only [State.Registered, (hsame c).2.2]
  refine ⟨fun c => ?_, ⟨fun c hc => ?_, fun n hn => ?_, fun c d hc hd hidx => ?_⟩, fun k c => ?_, ?_⟩
  · rw [(hsame c).2.1]
    exact h.plain c
  · obtain ⟨n, asked, hn, hget, hslot⟩ := h.dense.slot c ((hreg c).mp hc)
    obtain ⟨answered, hget', ha'⟩ := answered_slot ha hget
    refine ⟨n, answered, by rw [(hsame c).2.2, hn], hget', ?_⟩
    obtain ⟨hfd, hwatched, hevents⟩ := hslot.answered ha'
    exact ⟨by rw [(hsame c).1]; exact hfd, by rw [(hsame c).1, (hsame c).2.1]; exact hwatched,
      by rw [(hsame c).2.1]; exact hevents⟩
  · obtain ⟨c, hc, hidx⟩ := h.dense.owner n (by rwa [ha.length_eq])
    exact ⟨c, (hreg c).mpr hc, by rw [(hsame c).2.2, hidx]⟩
  · rw [(hsame c).2.2, (hsame d).2.2] at hidx
    exact h.dense.injective c d ((hreg c).mp hc) ((hreg d).mp hd) hidx
  · rw [hreg, (hsame c).1]
    exact h.mapped.lookup k c
  · rw [h.mapped.size, ha.length_eq]

/-- A poll writes received events only, too. -/
theorem poll_received (s : State ι) (answer : Option (List PollFd)) (c : ι) : ∃ r,
    (poll s answer).2.channel c = (s.channel c).setReceivedEvents r ∧
      (poll s answer).2.removed = s.removed := by
  unfold poll
  cases answer with
  | none => exact ⟨(s.channel c).receivedEvents, rfl, rfl⟩
  | some pollfds =>
    dsimp only
    split
    · obtain ⟨r, hr⟩ := fill_received s.channels pollfds _ s.channel c
      exact ⟨r, hr, rfl⟩
    · exact ⟨(s.channel c).receivedEvents, rfl, rfl⟩

theorem table_poll (h : Table s) (ha : s.pollfds.Forall₂ Answers pollfds) :
    Table (poll s (some pollfds)).2 := by
  unfold poll
  dsimp only
  split
  · exact h.answered ha fun c => fill_received ..
  · exact h.answered ha fun c => ⟨(s.channel c).receivedEvents, rfl⟩

theorem table_update (h : Table s) {i : Channel.Interest} (hm : may s (.update i c)) :
    ∃ s', updateChannel .release (s.interested c i) c = .ok s' ∧ Table s' := by
  obtain ⟨hremoved, hfd⟩ := hm
  have hplain := (h.plain c).apply i
  by_cases hindex : (s.channel c).index < 0
  · have hfree : ∀ d, s.Registered d → (s.channel d).fd ≠ (s.channel c).fd := by
      intro d hd heq
      obtain rfl := hfd d hd heq
      exact absurd hd.1 (by omega)
    refine ⟨_, update_adds s c i hindex, fun d => ?_, added_dense h.dense hindex hremoved rfl hplain,
      added_mapped h.mapped hindex hremoved rfl hfree⟩
    by_cases hd : d = c
    · subst hd
      rw [added_self]
      exact hplain
    · rw [added_other hd]
      exact h.plain d
  · have hc : s.Registered c := ⟨by omega, hremoved⟩
    obtain ⟨n, pfd, hn, hget, hslot⟩ := h.dense.slot c hc
    refine ⟨_, update_refreshes i hn hget, fun d => ?_,
      refreshed_dense h.dense hc rfl hn (slot_update hplain), refreshed_mapped h.mapped rfl rfl⟩
    by_cases hd : d = c
    · subst hd
      simpa [State.refreshed, Channel.setInterest] using hplain
    · simpa [State.refreshed, Function.update_of_ne hd] using h.plain d

/-- **Every call of a disciplined client is answered, and keeps the table.** -/
theorem table_inductive : (machine ι .release).Inductive Table := by
  intro s l h hm
  cases l with
  | update i c =>
    obtain ⟨s', hs, ht⟩ := table_update h hm
    refine ⟨[], s', ?_, ht⟩
    show (updateChannel .release (s.interested c i) c >>= _) = _
    rw [hs]
    rfl
  | remove c =>
    obtain ⟨hc, -⟩ := hm
    obtain ⟨n, pfd, hn, hget, -⟩ := h.dense.slot c hc
    have hlt := (List.getElem?_eq_some_iff.mp hget).1
    obtain ⟨d, hd, hlast⟩ := h.dense.owner (s.pollfds.length - 1) (by omega)
    obtain ⟨s', hs, hw⟩ := remove_withdraws h hc hn hd hlast
    refine ⟨[], s.withdrawn c d n, ?_, fun e => ?_, withdrawn_dense h.dense hc hn hd hlast,
      withdrawn_mapped h.mapped hc hd⟩
    · simp only [machine, step, Build.assert_release, ok_bind, hs, pure_eq_ok, hw]
    · rw [(withdrawn_fd e).2]
      exact h.plain e
  | poll answer =>
    cases answer with
    | none => exact ⟨[], s, rfl, h⟩
    | some pollfds =>
      exact ⟨_, _, rfl, table_poll h hm⟩

/-! ### Who is registered -/

variable {t : State ι} {l : Call ι} {o : List ι}

/-- Who is registered after a call, and who has been removed. -/
structure Registers (s : State ι) (l : Call ι) (t : State ι) (d : ι) : Prop where
  registered : t.Registered d ↔ (∃ i, l = .update i d) ∨ l ≠ .remove d ∧ s.Registered d
  removed : t.removed d = true ↔ l = .remove d ∨ s.removed d = true

theorem registers_update (h : Table s) {i : Channel.Interest} (hm : may s (.update i c))
    (hs : updateChannel .release (s.interested c i) c = .ok t) (d : ι) :
    Registers s (.update i c) t d := by
  by_cases hindex : (s.channel c).index < 0
  · cases (update_adds s c i hindex).symm.trans hs
    refine ⟨?_, by simp [State.added]⟩
    rw [registered_added hindex hm.1 rfl]
    by_cases hd : d = c
    · simp [hd]
    · simp [hd, Ne.symm hd]
  · have hc : s.Registered c := ⟨by omega, hm.1⟩
    obtain ⟨n, pfd, hn, hget, -⟩ := h.dense.slot c hc
    cases (update_refreshes i hn hget).symm.trans hs
    have hx : ((s.channel c).setInterest i).index = (s.channel c).index := rfl
    refine ⟨(registered_refreshed hx).trans ?_, by simp [State.refreshed]⟩
    by_cases hd : d = c
    · simp [hd, hc]
    · simp [Ne.symm hd]

theorem registers_step (h : Table s) (hm : may s l) (hs : step .release s l = .ok (o, t)) (d : ι) :
    Registers s l t d := by
  cases l with
  | update i c =>
    obtain ⟨s', hs', hs⟩ := bind_eq_ok.mp hs
    cases hs
    exact registers_update h hm hs' d
  | remove c =>
    obtain ⟨hc, -⟩ := hm
    obtain ⟨n, pfd, hn, hget, -⟩ := h.dense.slot c hc
    have hlt := (List.getElem?_eq_some_iff.mp hget).1
    obtain ⟨e, he, hlast⟩ := h.dense.owner (s.pollfds.length - 1) (by omega)
    obtain ⟨s', hs', hw⟩ := remove_withdraws h hc hn he hlast
    simp only [step, Build.assert_release, ok_bind, hs', pure_eq_ok, hw] at hs
    cases hs
    refine ⟨(registered_withdrawn he).trans ?_, ?_⟩
    · by_cases hd : d = c
      · simp [hd]
      · simp [hd, Ne.symm hd]
    · by_cases hd : d = c
      · simp [State.withdrawn, hd]
      · simp [State.withdrawn, hd, Ne.symm hd]
  | poll answer =>
    have ht : (poll s answer).2 = t := congrArg Prod.snd (Except.ok.inj hs)
    obtain ⟨r, hr, hremoved⟩ := poll_received s answer d
    rw [ht] at hr hremoved
    refine ⟨?_, by simp [hremoved]⟩
    simp only [State.Registered, hr, hremoved]
    simp [Channel.setReceivedEvents]

/-- Registered are the channels that have been updated and not removed since. -/
theorem registered_iff {fd : ι → Nat} {tr : List (Call ι × List ι)}
    (h : (machine ι .release).Run (initial fd) tr s) (c : ι) :
    s.Registered c ↔ (∃ i, .update i c ∈ tr.map Prod.fst) ∧ .remove c ∉ tr.map Prod.fst := by
  refine (h.snoc_induction (P := fun tr s => (s.removed c = true ↔ .remove c ∈ tr.map Prod.fst) ∧
    (s.Registered c ↔ (∃ i, .update i c ∈ tr.map Prod.fst) ∧ .remove c ∉ tr.map Prod.fst))
    ⟨by simp [initial], by simp [State.Registered, initial, Channel.new]⟩ ?_).2
  rintro tr s l o t hrun ⟨hremoved, hregistered⟩ hm hs
  have ht : Table s := table_inductive.run hrun (table_initial fd)
  obtain ⟨hreg, hrem⟩ := registers_step ht hm hs c
  simp only [List.map_append, List.map_cons, List.map_nil, List.mem_append, List.mem_singleton]
  refine ⟨by rw [hrem, hremoved, eq_comm (a := l), or_comm], hreg.trans ?_⟩
  rw [hregistered]
  constructor
  · rintro (⟨i, rfl⟩ | ⟨hne, ⟨i, hi⟩, hnot⟩)
    · -- an update is not admitted once the channel is removed
      refine ⟨⟨i, .inr rfl⟩, ?_⟩
      rintro (hmem | heq)
      · cases hm.1.symm.trans (hremoved.mpr hmem)
      · cases heq
    · exact ⟨⟨i, .inl hi⟩, fun hmem => hmem.elim hnot fun heq => hne heq.symm⟩
  · rintro ⟨⟨i, hi | hi⟩, hnot⟩
    · exact .inr ⟨fun heq => hnot (.inr heq.symm), ⟨i, hi⟩, fun hmem => hnot (.inl hmem)⟩
    · exact .inl ⟨i, hi.symm⟩

/-! ### The answer -/

/-- What poll(2) leaves behind: no answer for an ignored slot, no sign bit. -/
def Answered (pollfds : List PollFd) : Prop :=
  ∀ pfd ∈ pollfds, (pfd.fd < 0 → pfd.revents = 0) ∧ 0 ≤ pfd.revents.toInt

omit [DecidableEq ι] in
theorem answered_of_answers {asked : List PollFd} (h : asked.Forall₂ Answers pollfds) :
    Answered pollfds := by
  intro pfd hp
  obtain ⟨n, hn, rfl⟩ := List.getElem_of_mem hp
  have hn' : n < asked.length := by rwa [h.length_eq]
  obtain ⟨hfd, -, hignored, hflags⟩ := h.get hn' hn
  have hzero : (asked.get ⟨n, hn'⟩).fd < 0 → pollfds[n].revents = 0 := hignored
  rw [← hfd] at hzero
  exact ⟨hzero, hflags⟩

omit [DecidableEq ι] in
/-- The slot of an answer belongs to the channel that the map finds. -/
theorem Table.found (h : Table s) (ha : Answered s.pollfds) {n : Nat} {pfd : PollFd}
    (hn : s.pollfds[n]? = some pfd) (hready : pfd.revents ≠ 0) :
    s.channels[pfd.fd]? = some c ↔ s.Registered c ∧ (s.channel c).index = n := by
  obtain ⟨hlt, hget⟩ := List.getElem?_eq_some_iff.mp hn
  obtain ⟨d, hd, hidx⟩ := h.dense.owner n hlt
  obtain ⟨m, pfd', hm, hget', hslot⟩ := h.dense.slot d hd
  obtain rfl : m = n := by omega
  obtain rfl : pfd' = pfd := Option.some.inj (hget'.symm.trans hn)
  have hnonneg : ¬ pfd'.fd < 0 := fun hneg =>
    hready ((ha _ (List.mem_of_getElem? hn)).1 hneg)
  have hfd : pfd'.fd = (s.channel d).fd := hslot.fd.resolve_right (by omega)
  have hfound : s.channels[pfd'.fd]? = some d := (h.mapped.lookup _ d).mpr ⟨hd, hfd.symm⟩
  constructor
  · intro hc
    obtain rfl : d = c := Option.some.inj (hfound.symm.trans hc)
    exact ⟨hd, hidx⟩
  · rintro ⟨hc, hidx'⟩
    rwa [← h.dense.injective d c hd hc (hidx.trans hidx'.symm)]

/-- `active` are the registered channels with an answer, each once, and each has
received its own. -/
structure Exact (s : State ι) (active : List ι) (channel : ι → Channel) : Prop where
  nodup : active.Nodup
  ready : ∀ c, c ∈ active ↔ s.Registered c ∧
    ∃ pfd, at? s.pollfds (s.channel c).index = some pfd ∧ pfd.revents ≠ 0
  own : ∀ c ∈ active, ∀ pfd, at? s.pollfds (s.channel c).index = some pfd →
    channel c = (s.channel c).setReceivedEvents (pfd.revents.signExtend 32)
  frame : ∀ c, c ∉ active → channel c = s.channel c

/-- **The scan is exact.** -/
theorem fillActiveChannels_exact (h : Table s) (ha : Answered s.pollfds) :
    Exact s (fillActiveChannels s.channels s.pollfds (s.pollfds.countP (·.revents ≠ 0)) s.channel).1
      (fillActiveChannels s.channels s.pollfds (s.pollfds.countP (·.revents ≠ 0)) s.channel).2 := by
  have hactive := fill_active s.channels s.pollfds s.channel fun pfd hp => (ha pfd hp).2
  refine ⟨?_, fun c => ?_, fun c hc pfd hpfd => ?_, fun c hc => fill_frame hc⟩
  · rw [hactive, List.Nodup, List.pairwise_filterMap, List.pairwise_filter, List.pairwise_iff_getElem]
    intro i j hi hj hij hri hrj c hc d hd hcd
    have hgeti := List.getElem?_eq_getElem hi
    have hgetj := List.getElem?_eq_getElem hj
    have hidx := ((h.found ha hgeti (by simpa using hri)).mp hc).2
    have hidx' := ((h.found ha hgetj (by simpa using hrj)).mp hd).2
    rw [hcd] at hidx
    omega
  · rw [hactive, List.mem_filterMap]
    constructor
    · rintro ⟨pfd, hp, hc⟩
      obtain ⟨hp, hready⟩ := List.mem_filter.mp hp
      have hready : pfd.revents ≠ 0 := by simpa using hready
      obtain ⟨n, hn, hget⟩ := List.getElem_of_mem hp
      have hget' : s.pollfds[n]? = some pfd := by rw [List.getElem?_eq_getElem hn, hget]
      obtain ⟨hreg, hidx⟩ := (h.found ha hget' hready).mp hc
      exact ⟨hreg, pfd, Slots.at?_eq_some.mpr ⟨n, hidx, hget'⟩, hready⟩
    · rintro ⟨hreg, pfd, hat, hready⟩
      obtain ⟨n, hidx, hget⟩ := Slots.at?_eq_some.mp hat
      exact ⟨pfd, List.mem_filter.mpr ⟨List.mem_of_getElem? hget, by simpa using hready⟩,
        (h.found ha hget hready).mpr ⟨hreg, hidx⟩⟩
  · refine fill_own (fun p hp hfound hpos => ?_) hc
    obtain ⟨n, hidx, hget⟩ := Slots.at?_eq_some.mp hpfd
    obtain ⟨m, hm, hget'⟩ := List.getElem_of_mem hp
    have hget'' : s.pollfds[m]? = some p := by rw [List.getElem?_eq_getElem hm, hget']
    have hready : p.revents ≠ 0 := (revents_pos (ha p hp).2).mp hpos
    have hidx' := ((h.found ha hget'' hready).mp hfound).2
    obtain rfl : n = m := by omega
    rw [Option.some.inj (hget''.symm.trans hget)]

/-- **At any time in any run of disciplined clients the tables agree**, and whatever
poll(2) answers next, `fillActiveChannels` returns exactly the registered channels with
an answer. Registered are those that were updated and not removed, and every call is
answered. -/
theorem poller_tables {fd : ι → Nat} {tr : List (Call ι × List ι)}
    (h : (machine ι .release).Run (initial fd) tr s) :
    s.channels.size = s.pollfds.length ∧
    (∀ c, s.Registered c → 0 ≤ (s.channel c).index ∧ (s.channel c).index < s.pollfds.length ∧
      ∃ pfd, at? s.pollfds (s.channel c).index = some pfd ∧
        (pfd.fd = (s.channel c).fd ∨ pfd.fd = -(s.channel c).fd - 1) ∧
        ((s.channel c).interestedEvents ≠ 0 → pfd.fd = (s.channel c).fd) ∧
        pfd.events.toInt = (s.channel c).interestedEvents.toInt) ∧
    (∀ c d, s.Registered c → s.Registered d → c ≠ d → (s.channel c).index ≠ (s.channel d).index) ∧
    (∀ pollfds, s.pollfds.Forall₂ Answers pollfds →
      ∃ active channel, fillActiveChannels s.channels pollfds (pollfds.countP (·.revents ≠ 0))
          s.channel = (active, channel) ∧ Exact { s with pollfds } active channel) ∧
    (∀ c, s.Registered c ↔
      (∃ i, .update i c ∈ tr.map Prod.fst) ∧ .remove c ∉ tr.map Prod.fst) ∧
    ∀ l, (machine ι .release).may s l → ∃ o t, (machine ι .release).step s l = .ok (o, t) := by
  have ht : Table s := table_inductive.run h (table_initial fd)
  refine ⟨ht.mapped.size, fun c hc => ?_, fun c d hc hd hcd hidx =>
    hcd (ht.dense.injective c d hc hd hidx), fun pollfds ha => ?_, registered_iff h,
    fun l hm => ?_⟩
  · obtain ⟨n, pfd, hidx, hget, hslot⟩ := ht.dense.slot c hc
    exact ⟨hc.1, ht.dense.index_lt hc, pfd, Slots.at?_eq_some.mpr ⟨n, hidx, hget⟩, hslot.fd,
      hslot.watched, hslot.events⟩
  · have ht' : Table { s with pollfds } :=
      ht.answered ha fun c => ⟨(s.channel c).receivedEvents, rfl⟩
    exact ⟨_, _, rfl, fillActiveChannels_exact ht' (answered_of_answers ha)⟩
  · obtain ⟨o, t, hs, -⟩ := table_inductive s l ht hm
    exact ⟨o, t, hs⟩

/-- Descriptor 0 leaves the first slot to an ignored last channel. -/
theorem poller_tables_swapped : ∃ tr s,
    (machine (Fin 3) .release).Run (initial ![0, 5, 6]) tr s ∧
    s.pollfds = [⟨-7, 0, 0⟩, ⟨5, 7, 0⟩] ∧ s.channels.size = s.pollfds.length := by
  obtain ⟨tr, s, h, -, hpollfds⟩ :=
    (machine (Fin 3) .release).exists_run_of_replay (s := initial ![0, 5, 6])
      (P := fun _ s => s.pollfds = [⟨-7, 0, 0⟩, ⟨5, 7, 0⟩])
      [.update .enableReading 0, .update .enableReading 1, .update .enableWriting 1,
        .update .enableWriting 2, .update .disableAll 2, .update .disableAll 0, .remove 0]
      (by decide +kernel)
  exact ⟨tr, s, h, hpollfds, (poller_tables h).1⟩

end Leanet.Poller

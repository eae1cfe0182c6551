import Leanet.Poll.Assertions
import Mathlib.Data.Fintype.Sum

/-! The end of a loop.

A loop registers two channels of its own, the timer queue's and the wakeup channel, before any
client can. They stay in the first two slots whatever the clients do (`Seated`), since only the
last slot ever moves.

`~EventLoop` disables the wakeup channel and does not remove it. The members are then destroyed
from the last to the first: the wakeup channel is deleted, and after it the timer queue removes
its channel, which moves the owner of the last slot. That owner is the wakeup channel unless a
client is still registered (`destruct_dangles`). -/
namespace Leanet.Poller
open Slots (at? iterSwap)

/-- The channels of the loop itself. -/
inductive Own where
  /-- `timerfdChannel_` -/
  | timer
  /-- `wakeupChannel_` -/
  | wakeup
  deriving DecidableEq, Repr

instance : Fintype Own := ⟨{.timer, .wakeup}, fun own => by cases own <;> decide⟩

/-- The order in which the constructor of `EventLoop` registers them. -/
def Own.slot : Own → Nat
  | .timer => 0
  | .wakeup => 1

variable {ι : Type} [DecidableEq ι]

/-- `removeChannel` when the object `deleted` is gone. -/
def removeChannelAfter (deleted : ι) (build : Build) (s : State ι) (c : ι) :
    Except Fault (State ι) := do
  let channel := s.channel c
  build.assert (s.channels[(channel.fd : Int)]?.isSome)
  build.assert (s.channels[(channel.fd : Int)]? = some c)
  build.assert (channel.isNoneEvent)
  let idx := channel.index
  build.assert (0 ≤ idx ∧ idx < s.pollfds.length)
  let pfd ← deref (at? s.pollfds idx)
  build.assert (pfd.fd = -channel.fd - 1 ∧ pfd.events.signExtend 32 = channel.interestedEvents)
  build.assert ((channel.fd : Int) ∈ s.channels)
  let s := { s with channels := s.channels.erase (channel.fd : Int) }
  if idx.toNat = s.pollfds.length - 1 then
    pure { s with pollfds := s.pollfds.dropLast }
  else
    let last ← deref s.pollfds.getLast?
    let lastChannelFd := if last.fd < 0 then -last.fd - 1 else last.fd
    let s := { s with pollfds := iterSwap s.pollfds idx.toNat (s.pollfds.length - 1) }
    let d ← deref s.channels[lastChannelFd]?
    -- The pointer is still in the map, the object is not there any more.
    let d ← deref (if d = deleted then none else some d)
    let s := s.setChannel d ((s.channel d).setIndex idx)
    pure { s with pollfds := s.pollfds.dropLast }

/-- `~EventLoop`, then the destructors of its members. -/
def destruct (build : Build) (s : State (Own ⊕ ι)) : Except Fault (State (Own ⊕ ι)) := do
  let s ← updateChannel build (s.interested (.inl .wakeup) .disableAll) (.inl .wakeup)
  -- `wakeupChannel_` is deleted, then `~TimerQueue` runs
  let s ← updateChannel build (s.interested (.inl .timer) .disableAll) (.inl .timer)
  build.assert ((s.channel (.inl .timer)).isNoneEvent)
  removeChannelAfter (.inl .wakeup) build s (.inl .timer)

/-! ### The loop's own slots -/

/-- The constructor's calls. -/
def construct : List (Call (Own ⊕ ι)) :=
  [.update .enableReading (.inl .timer), .update .enableReading (.inl .wakeup)]

/-- A call that is not about a channel of the loop itself. -/
def Call.Foreign : Call (Own ⊕ ι) → Prop
  | .update _ c | .remove c => ∃ d, c = .inr d
  | .poll _ => True

/-- The loop's channels are where the constructor put them, and reading. -/
structure Seated (s : State (Own ⊕ ι)) : Prop where
  live : ∀ o, s.removed (.inl o) = false
  index : ∀ o, (s.channel (.inl o)).index = o.slot
  reading : ∀ o, (s.channel (.inl o)).interestedEvents ≠ 0

variable {build : Build} {s t : State (Own ⊕ ι)} {l : Call (Own ⊕ ι)} {o : List (Own ⊕ ι)}
  {tr : List (Call (Own ⊕ ι) × List (Own ⊕ ι))} {own : Own}

omit [DecidableEq ι] in
theorem Seated.registered (h : Seated s) (own : Own) : s.Registered (.inl own) :=
  ⟨by rw [h.index]; exact Int.natCast_nonneg _, h.live own⟩

omit [DecidableEq ι] in
/-- Both slots are there. -/
theorem Seated.two_le (h : Seated s) (hd : Dense s) : 2 ≤ s.pollfds.length := by
  have hlt := hd.index_lt (h.registered .wakeup)
  rw [h.index] at hlt
  simp only [Own.slot] at hlt
  omega

omit [DecidableEq ι] in
/-- A client's slot comes after them. -/
theorem Seated.two_le_index (h : Seated s) (hd : Dense s) {c : ι} (hc : s.Registered (.inr c)) :
    2 ≤ (s.channel (.inr c)).index := by
  have hne (own : Own) : (s.channel (.inr c)).index ≠ own.slot := fun heq => by
    have := hd.injective _ _ hc (h.registered own) (heq.trans (h.index own).symm)
    cases this
  have htimer := hne .timer
  have hwakeup := hne .wakeup
  have hnonneg := hc.1
  simp only [Own.slot] at htimer hwakeup
  omega

omit [DecidableEq ι] in
theorem Seated.congr (h : Seated s)
    (hchannel : ∀ own, (t.channel (.inl own)).index = (s.channel (.inl own)).index ∧
      (t.channel (.inl own)).interestedEvents = (s.channel (.inl own)).interestedEvents)
    (hremoved : ∀ own, t.removed (.inl own) = s.removed (.inl own)) : Seated t :=
  ⟨fun own => (hremoved own).trans (h.live own), fun own => (hchannel own).1.trans (h.index own),
    fun own => by rw [(hchannel own).2]; exact h.reading own⟩

/-- A debug build that goes on does what a release build does. -/
theorem step_release (h : Kept s) (hm : (clients (Own ⊕ ι) build).may s l) (hstep : step build s l = .ok (o, t)) :
    step .release s l = .ok (o, t) := by
  cases build with
  | release => exact hstep
  | debug =>
    obtain ⟨-, heq⟩ | ⟨-, herr⟩ := step_asserts h hm.1
    · rw [← heq, hstep]
    · cases herr.symm.trans hstep

theorem seated_step (hk : Kept s) (h : Seated s) (hm : (clients (Own ⊕ ι) build).may s l)
    (hf : l.Foreign) (hstep : step build s l = .ok (o, t)) : Seated t := by
  replace hstep := step_release hk hm hstep
  replace hm := hm.1
  cases l with
  | update i c =>
    obtain ⟨c, rfl⟩ := hf
    obtain ⟨s', hs, hstep⟩ := bind_eq_ok.mp hstep
    obtain rfl : s' = t := congrArg Prod.snd (Except.ok.inj hstep)
    change updateChannel .release (s.interested (.inr c) i) (.inr c) = _ at hs
    by_cases hindex : (s.channel (.inr c)).index < 0
    · cases (update_adds s _ i hindex).symm.trans hs
      exact h.congr (fun own => by simp [State.added]) fun _ => rfl
    · obtain ⟨n, pfd, hn, hget, -⟩ := hk.table.dense.slot _ ⟨not_lt.mp hindex, hm.1⟩
      cases (update_refreshes i hn hget).symm.trans hs
      exact h.congr (fun own => by simp [State.refreshed]) fun _ => rfl
  | remove c =>
    obtain ⟨c, rfl⟩ := hf
    obtain ⟨hc, -⟩ := hm
    have htwo := h.two_le_index hk.table.dense hc
    obtain ⟨n, pfd, hn, hget, -⟩ := hk.table.dense.slot _ hc
    have hlt := (List.getElem?_eq_some_iff.mp hget).1
    obtain ⟨d, hd, hlast⟩ := hk.table.dense.owner (s.pollfds.length - 1) (by omega)
    obtain ⟨s', hs, hw⟩ := remove_withdraws hk.table hc hn hd hlast
    obtain rfl : t = s.withdrawn (.inr c) d n := by
      simp only [step, Build.assert_release, ok_bind, hs, pure_eq_ok, hw] at hstep
      exact (congrArg Prod.snd (Except.ok.inj hstep)).symm
    -- The channel that moves comes after them too.
    have hne (own : Own) : Sum.inl own ≠ d := by
      rintro rfl
      have := h.index own
      cases own <;> simp only [Own.slot] at this <;> omega
    refine h.congr (fun own => ?_) fun own => by simp [State.withdrawn]
    rw [withdrawn_other (hne own)]
    exact ⟨rfl, rfl⟩
  | poll answer =>
    obtain rfl : (poll s answer).2 = t := congrArg Prod.snd (Except.ok.inj hstep)
    cases answer with
    | none => exact h
    | some pollfds =>
      unfold poll
      dsimp only
      split
      · refine h.congr (fun own => ?_) fun _ => rfl
        obtain ⟨r, hr⟩ := fill_received s.channels pollfds
          (pollfds.countP (·.revents ≠ 0) : Nat) s.channel (.inl own)
        simp only [hr]
        exact ⟨rfl, rfl⟩
      · exact h.congr (fun _ => ⟨rfl, rfl⟩) fun _ => rfl

theorem seated_run (h : (clients (Own ⊕ ι) build).Run s tr t) (hf : ∀ e ∈ tr, e.1.Foreign)
    (hk : Kept s) (hs : Seated s) : Kept t ∧ Seated t := by
  induction h with
  | nil => exact ⟨hk, hs⟩
  | cons hm hstep _ ih =>
    obtain ⟨hf, hrest⟩ := List.forall_mem_cons.mp hf
    exact ih hrest (kept_step hk hm hstep) (seated_step hk hs hm hf hstep)

/-- The two channels of a loop just built. -/
theorem seated_construct {fd : Own ⊕ ι → Nat}
    (h : (clients (Own ⊕ ι) build).Run (initial fd) tr s) (hcalls : tr.map Prod.fst = construct) :
    Kept s ∧ Seated s := by
  have hinitial : Kept (initial fd) := ⟨table_initial fd, ignored_initial fd⟩
  have hk : Kept s := h.preserves (fun _ _ _ _ hk hm hstep => kept_step hk hm hstep) hinitial
  refine ⟨hk, ?_⟩
  obtain ⟨⟨l, o⟩, rest, rfl, rfl, hrest⟩ := List.map_eq_cons_iff.mp hcalls
  obtain ⟨⟨l', o'⟩, none, rfl, rfl, hnone⟩ := List.map_eq_cons_iff.mp hrest
  obtain rfl := List.map_eq_nil_iff.mp hnone
  cases h with
  | cons hm hstep h =>
    next t =>
    have hkt := kept_step hinitial hm hstep
    replace hstep := step_release hinitial hm hstep
    cases h with
    | cons hm' hstep' h =>
      replace hstep' := step_release hkt hm' hstep'
      cases h
      obtain ⟨t', ht, hstep⟩ := bind_eq_ok.mp hstep
      obtain rfl : t' = t := congrArg Prod.snd (Except.ok.inj hstep)
      cases (update_adds (initial fd) _ .enableReading (by simp [initial, Channel.new])).symm.trans ht
      obtain ⟨s', hs, hstep'⟩ := bind_eq_ok.mp hstep'
      obtain rfl : s' = s := congrArg Prod.snd (Except.ok.inj hstep')
      rw [← State.interested, update_adds _ _ .enableReading
        (by simp [State.added, initial, Channel.new])] at hs
      cases hs
      refine ⟨fun _ => rfl, fun own => ?_, fun own => ?_⟩
      · cases own <;> simp [State.added, initial, Channel.setIndex, Own.slot]
      · cases own <;> simp [State.added, initial, Channel.setIndex, Channel.setInterest,
          Channel.Interest.apply, Channel.new] <;> decide

/-! ### The destructor -/

/-- Of a channel removed from a slot before the last, the owner of the last slot is written. -/
theorem removeAfter (ht : Table s) {c d deleted : Own ⊕ ι} {n : Nat} (hc : s.Registered c)
    (hn : (s.channel c).index = n) (hd : s.Registered d)
    (hlast : (s.channel d).index = (s.pollfds.length - 1 : Nat)) (hne : c ≠ d) :
    removeChannelAfter deleted .release s c =
      if d = deleted then .error .dangling else removeChannel .release s c := by
  obtain ⟨m, pfd, hm, hget, -⟩ := ht.dense.slot c hc
  obtain rfl : m = n := by omega
  obtain ⟨l, last, hl, hgetLast, hslotLast⟩ := ht.dense.slot d hd
  obtain rfl : l = s.pollfds.length - 1 := by omega
  have hat : at? s.pollfds (m : Int) = some pfd := (Slots.at?_natCast ..).trans hget
  have hpop : m ≠ s.pollfds.length - 1 := fun heq =>
    hne (ht.dense.injective c d hc hd (by omega))
  have hfd : (if last.fd < 0 then -last.fd - 1 else last.fd) = ((s.channel d).fd : Int) := by
    rcases hslotLast.fd with h | h
    · rw [if_neg (by omega), h]
    · rw [if_pos (by omega), h]
      omega
  have hfound : (s.channels.erase ((s.channel c).fd : Int))[((s.channel d).fd : Int)]? = some d := by
    have hfds : ((s.channel c).fd : Int) ≠ (s.channel d).fd := fun h =>
      hne (ht.mapped.eq_of_fd hc hd (by omega))
    rw [Std.TreeMap.getElem?_erase, if_neg (by simpa using hfds), ht.mapped.lookup]
    exact ⟨hd, rfl⟩
  simp only [removeChannelAfter, removeChannel, hn, hat, ok_bind, deref_some, Build.assert_release,
    Int.toNat_natCast, if_neg hpop, List.getLast?_eq_getElem?, hgetLast, hfd, hfound]
  split
  · rfl
  · rfl

omit [DecidableEq ι] in
/-- A registered channel can be updated. -/
theorem may_update (ht : Table s) {c : Own ⊕ ι} (hc : s.Registered c) (i : Channel.Interest) :
    may s (.update i c) :=
  ⟨hc.2, fun _ hd hfd => ht.mapped.eq_of_fd hd hc hfd⟩

/-- Disabling a channel leaves it and the others registered, where they are. -/
theorem disable_stays (ht : Table s) {c : Own ⊕ ι} (hc : s.Registered c) : ∃ t,
    updateChannel .release (s.interested c .disableAll) c = .ok t ∧ Table t ∧
      (∀ d, t.Registered d ↔ s.Registered d) ∧ (∀ d, (t.channel d).index = (s.channel d).index) ∧
      t.pollfds.length = s.pollfds.length := by
  obtain ⟨t, hrun, hu⟩ := table_update ht (may_update ht hc .disableAll)
  obtain ⟨n, pfd, hn, hget, -⟩ := ht.dense.slot _ hc
  cases (update_refreshes .disableAll hn hget).symm.trans hrun
  refine ⟨_, hrun, hu, fun d => registered_refreshed rfl, fun d => refreshed_index rfl, ?_⟩
  simp [State.refreshed]

/-- The wakeup channel is last if it is the only one left, or nobody else is. -/
theorem Seated.last_iff (h : Seated s) (hd : Dense s) {d : Own ⊕ ι} (hreg : s.Registered d)
    (hlast : (s.channel d).index = (s.pollfds.length - 1 : Nat)) :
    d = .inl .wakeup ↔ ∀ c, ¬ s.Registered (.inr c) := by
  have htwo := h.two_le hd
  constructor
  · rintro rfl c hc
    have hc' := h.two_le_index hd hc
    have hlt := hd.index_lt hc
    have hidx := h.index .wakeup
    simp only [Own.slot] at hidx
    omega
  · intro hnone
    cases d with
    | inl own =>
      cases own with
      | wakeup => rfl
      | timer =>
        have hidx := h.index .timer
        simp only [Own.slot] at hidx
        omega
    | inr c => exact absurd hreg (hnone c)

/-- Of two channels disabled and the first of them removed, the owner of the last slot decides. -/
theorem destruct_release (ht : Table s) (hs : Seated s) : ∃ d, s.Registered d ∧
    (s.channel d).index = (s.pollfds.length - 1 : Nat) ∧
    if d = .inl .wakeup then destruct .release s = .error .dangling
    else ∃ t, destruct .release s = .ok t := by
  have htwo := hs.two_le ht.dense
  obtain ⟨t, hrun, ht₁, hreg, hindex, hlen⟩ := disable_stays ht (hs.registered .wakeup)
  obtain ⟨u, hrun', ht₂, hreg', hindex', hlen'⟩ :=
    disable_stays ht₁ ((hreg _).mpr (hs.registered .timer))
  obtain ⟨d, hd, hlast⟩ := ht₂.dense.owner (u.pollfds.length - 1) (by omega)
  have hc : u.Registered (.inl .timer) := (hreg' _).mpr ((hreg _).mpr (hs.registered .timer))
  have hn : (u.channel (.inl .timer)).index = (0 : Nat) := by
    rw [hindex', hindex, hs.index]
    rfl
  have hne : .inl .timer ≠ d := by
    rintro rfl
    omega
  refine ⟨d, (hreg d).mp ((hreg' d).mp hd), by rw [← hindex, ← hindex', hlast, hlen', hlen], ?_⟩
  have hdestruct : destruct .release s = removeChannelAfter (.inl .wakeup) .release u (.inl .timer) := by
    simp only [destruct, hrun, hrun', ok_bind, Build.assert_release]
  rw [hdestruct, removeAfter ht₂ hc hn hd hlast hne]
  obtain ⟨s', hremove, -⟩ := remove_withdraws ht₂ hc hn hd hlast
  by_cases hwakeup : d = .inl .wakeup
  · rw [if_pos hwakeup, if_pos hwakeup]
  · rw [if_neg hwakeup, if_neg hwakeup]
    exact ⟨s', hremove⟩

/-- **The destructor of a loop writes to the wakeup channel it has just deleted, unless a client
has left its channel registered.** A debug build stops before that, at the assertion of
`updateChannel`. -/
theorem destruct_dangles {fd : Own ⊕ ι → Nat}
    (h : (clients (Own ⊕ ι) build).Run (initial fd) tr s) {calls : List (Call (Own ⊕ ι))}
    (hcalls : tr.map Prod.fst = construct ++ calls) (hforeign : ∀ l ∈ calls, l.Foreign) :
    destruct .debug s = .error .assertion ∧
    ((∀ c, ¬ s.Registered (.inr c)) → destruct .release s = .error .dangling) ∧
    ((∃ c, s.Registered (.inr c)) → ∃ t, destruct .release s = .ok t) := by
  obtain ⟨tr₀, tr₁, rfl, hconstruct, rfl⟩ := List.map_eq_append_iff.mp hcalls
  obtain ⟨s₀, h₀, h₁⟩ := h.split
  obtain ⟨hk₀, hs₀⟩ := seated_construct h₀ hconstruct
  obtain ⟨hk, hs⟩ := seated_run h₁ (List.forall_mem_map.mp hforeign) hk₀ hs₀
  have hregistered := hs.registered
  constructor
  · obtain ⟨hpasses, -⟩ | ⟨-, herr⟩ := update_asserts hk (may_update hk.table (hregistered .wakeup) .disableAll)
    · obtain hneg | hnone := hpasses
      · exact absurd hneg (not_lt.mpr (hregistered .wakeup).1)
      · exact absurd (Channel.isNoneEvent_iff.mp hnone) (hs.reading .wakeup)
    · rw [destruct, herr, error_bind]
  · obtain ⟨d, hd, hlast, hdestruct⟩ := destruct_release hk.table hs
    have hiff := hs.last_iff hk.table.dense hd hlast
    constructor
    · intro hnone
      rwa [if_pos (hiff.mpr hnone)] at hdestruct
    · rintro ⟨c, hc⟩
      rwa [if_neg fun heq => hiff.mp heq c hc] at hdestruct

/-- A loop whose only client has removed its channel. -/
theorem destruct_dangles_removed : ∃ tr s,
    (clients (Own ⊕ Fin 1) .release).Run (initial (Sum.elim Own.slot fun _ => 7)) tr s ∧
    destruct .release s = .error .dangling := by
  obtain ⟨tr, s, h, hcalls, hnone⟩ := (clients (Own ⊕ Fin 1) .release).exists_run_of_replay
    (s := initial (Sum.elim Own.slot fun _ => 7)) (P := fun _ s => ∀ c, ¬ s.Registered (.inr c))
    (construct ++ [.update .enableReading (.inr 0), .update .disableAll (.inr 0), .remove (.inr 0)])
    (by decide +kernel)
  obtain ⟨-, hdangles, -⟩ := destruct_dangles h hcalls (by simp [Call.Foreign])
  exact ⟨tr, s, h, hdangles hnone⟩

end Leanet.Poller

import Leanet.Loop.EventLoop

/-! Requests to quit.

`quit()` sets `quit_` and, from another thread, writes the eventfd. Nothing but `loop()`
clears the flag, so a request made while `loop()` runs ends it: the owner finishes its
iteration, and the poll of that iteration, if it is still ahead, finds the eventfd readable
(`polling_of_run`). But `loop()` clears the flag on entry, and takes with it every request
made before: those are lost, each of them (`lost_outside`). -/
namespace Leanet.EventLoop

variable {F T : Type} [DecidableEq T] {threadId : T}

def Action.isLoop : Action F T → Bool
  | .loop => true
  | _ => false

/-- The entries into `loop()` of a history. -/
def entries (tr : List (Action F T × Option F)) : Nat := tr.countP (·.1.isLoop)

omit [DecidableEq T] in
@[simp] theorem entries_cons (e : Action F T × Option F) (tr : List (Action F T × Option F)) :
    entries (e :: tr) = entries tr + if e.1.isLoop then 1 else 0 :=
  List.countP_cons ..

omit [DecidableEq T] in
@[simp] theorem entries_append (tr tr' : List (Action F T × Option F)) :
    entries (tr ++ tr') = entries tr + entries tr' :=
  List.countP_append ..

/-- A request that `t` makes in `s` is honoured: after `quit()` has returned, the call of
`loop()` in progress when it was made (or else the first one after it) starts no further
iteration, and does not block in the poll of the one in progress. -/
def Honoured (threadId t : T) (s : State F T) : Prop :=
  ∀ mid rest s₁ s₂, (machine F threadId).Run s ((.quit t, none) :: mid) s₁ →
    (∀ o, (Action.quitNotify t, o) ∉ mid) →
    (machine F threadId).Run s₁ ((.quitNotify t, none) :: rest) s₂ →
    entries (mid ++ rest) ≤ 1 → (s.point ≠ .outside → entries (mid ++ rest) = 0) →
    s₂.point = .polling → (∀ o, (Action.test, o) ∉ rest) ∧ 0 < s₂.wakeupFd

/-! ### A request during `loop()` -/

variable {s s' : State F T} {l : Action F T} {o : Option F} {t : T}

/-- Only `loop()` clears the flag. -/
theorem quit_step (hs : step threadId s l = .ok (o, s')) (hq : s.quit = true)
    (hl : l.isLoop = false) : s'.quit = true := by
  cases l with
  | loop => cases hl
  | notify t | quitNotify t =>
    simp only [step] at hs
    split at hs <;> cases hs <;> exact hq
  | test =>
    simp only [step, hq, if_true] at hs
    cases hs
    rfl
  | run | «return» =>
    simp only [step] at hs
    split at hs <;> cases hs
    exact hq
  | quit t =>
    cases hs
    rfl
  | queueInLoop | poll | handleRead | doPendingFunctors | swap | finish | leave =>
    cases hs
    exact hq

/-- With the flag set the owner is about to poll only if it was before, and what was
written for it is still there. -/
theorem polling_step (hs : step threadId s l = .ok (o, s')) (hq : s.quit = true)
    (hp : s'.point = .polling) :
    s.point = .polling ∧ (∀ o', (Action.test, o') ≠ (l, o)) ∧
      (0 < s.wakeupFd → 0 < s'.wakeupFd) := by
  cases l with
  | notify t | quitNotify t =>
    simp only [step] at hs
    split at hs <;> cases hs
    · exact ⟨hp, by simp, fun _ => wakeup_readable _⟩
    · exact ⟨hp, by simp, id⟩
  | test =>
    simp only [step, hq, if_true] at hs
    cases hs
    cases hp
  | loop =>
    obtain ⟨_, _, hs⟩ := bind_eq_ok.mp hs
    cases hs
    cases hp
  | run | «return» =>
    simp only [step] at hs
    split at hs <;> cases hs
    cases hp
  | queueInLoop | quit =>
    cases hs
    exact ⟨hp, by simp, id⟩
  | poll | handleRead | doPendingFunctors | swap | finish | leave =>
    cases hs
    cases hp

theorem polling_of_run {tr : List (Action F T × Option F)} (h : (machine F threadId).Run s tr s')
    (hq : s.quit = true) (hl : entries tr = 0) (hp : s'.point = .polling) :
    s.point = .polling ∧ (∀ o, (Action.test, o) ∉ tr) ∧ (0 < s.wakeupFd → 0 < s'.wakeupFd) := by
  induction h with
  | nil => exact ⟨hp, by simp, id⟩
  | @cons s m s' l o tr hm hs hrest ih =>
    rw [entries_cons] at hl
    obtain ⟨hl, hl'⟩ : entries tr = 0 ∧ l.isLoop = false := by simpa using hl
    obtain ⟨hpm, htest, hfd⟩ := ih (quit_step hs hq hl') hl hp
    obtain ⟨hps, htest', hfd'⟩ := polling_step hs hq hpm
    refine ⟨hps, fun o' hmem => ?_, fun hpos => hfd (hfd' hpos)⟩
    rcases List.mem_cons.mp hmem with heq | hmem
    · exact htest' o' heq
    · exact htest o' hmem

theorem quit_of_run {tr : List (Action F T × Option F)} (h : (machine F threadId).Run s tr s')
    (hq : s.quit = true) (hl : entries tr = 0) : s'.quit = true := by
  induction h with
  | nil => exact hq
  | @cons s m s' l o tr hm hs hrest ih =>
    rw [entries_cons] at hl
    obtain ⟨hl, hl'⟩ : entries tr = 0 ∧ l.isLoop = false := by simpa using hl
    exact ih (quit_step hs hq hl') hl

theorem honoured_inside (hp : s.point ≠ .outside) : Honoured threadId t s := by
  intro mid rest s₁ s₂ hstore _ hnotify _ hzero hpolling
  have hzero := hzero hp
  rw [entries_append] at hzero
  cases hstore with
  | @cons _ stored _ _ _ _ hm hs hmid =>
  cases hnotify with
  | @cons _ returned _ _ _ _ hm' hs' hrest =>
  cases hs
  change step threadId s₁ (.quitNotify t) = .ok (none, returned) at hs'
  have hquit : s₁.quit = true := quit_of_run hmid rfl (by omega)
  obtain ⟨hpr, htest, hfd⟩ := polling_of_run hrest (quit_step hs' hquit rfl) (by omega) hpolling
  obtain ⟨hps, -, -⟩ := polling_step hs' hquit hpr
  obtain ⟨hstored, -, -⟩ := polling_of_run hmid rfl (by omega) hps
  refine ⟨htest, hfd ?_⟩
  -- the owner is about to poll, so the request came from another thread
  have hother : t ≠ threadId := by
    intro ht
    have hclient := hm.2 ht
    rw [show s.point = .polling from hstored] at hclient
    cases hclient
  simp only [step, ne_eq, hother, not_false_eq_true, if_true] at hs'
  cases hs'
  exact wakeup_readable _

/-! ### A request outside -/

/-- The owner, wherever it is called from, comes to the end of its call. -/
theorem owner_returns (threadId : T) (s : State F T) : ∃ tr s', (machine F threadId).Run s tr s' ∧
    s'.call threadId = .none ∧ s'.point = s.point ∧ s'.looping = s.looping ∧ entries tr = 0 := by
  cases hcall : s.call threadId with
  | none => exact ⟨[], s, .nil s, hcall, rfl, rfl, rfl⟩
  | pushed =>
    have hstep : ∃ o s', (machine F threadId).step s (.notify threadId) = .ok (o, s') ∧
        s'.call threadId = .none ∧ s'.point = s.point ∧ s'.looping = s.looping := by
      simp only [machine, step]
      split
      · exact ⟨_, _, rfl, Function.update_self .., rfl, rfl⟩
      · exact ⟨_, _, rfl, Function.update_self .., rfl, rfl⟩
    obtain ⟨o, s', hs, hnone, hpoint, hlooping⟩ := hstep
    have hm : (machine F threadId).may s (.notify threadId) := hcall
    exact ⟨_, s', .single hm hs, hnone, hpoint, hlooping, rfl⟩
  | quitting =>
    have hstep : (machine F threadId).step s (.quitNotify threadId) =
        .ok (none, { s with call := Function.update s.call threadId .none }) :=
      if_neg (not_not.mpr rfl)
    have hm : (machine F threadId).may s (.quitNotify threadId) := hcall
    exact ⟨_, _, .single hm hstep, Function.update_self .., rfl, rfl, rfl⟩

/-- Entered with nothing to do for anyone else, `loop()` is about to poll. -/
theorem loop_polls (hnone : s.call threadId = .none) (hp : s.point = .outside)
    (hlooping : s.looping = false) : ∃ s', (machine F threadId).Run s [(.loop, none), (.test, none)] s' ∧
      s'.point = .polling ∧ s'.quit = false ∧ s'.call = s.call := by
  have hloop : (machine F threadId).step s .loop =
      .ok (none, { s with looping := true, quit := false, point := .testing }) := by
    simp only [machine, step, assert_holds hlooping]
    rfl
  exact ⟨_, .cons ⟨hnone, hp⟩ hloop (.single ⟨hnone, rfl⟩ rfl), rfl, rfl, rfl⟩

theorem lost_outside (hf : Flags s) (hm : (machine F threadId).may s (.quit t))
    (hp : s.point = .outside) : ¬ Honoured threadId t s := by
  intro h
  have hlooping : s.looping = false := by
    rw [← Bool.not_eq_true, hf.looping]
    exact not_not.mpr hp
  have hstore : (machine F threadId).Run s [(.quit t, none)]
      { s with quit := true, call := Function.update s.call t .quitting } := .single hm rfl
  obtain ⟨returned, hs, hpr, hlr⟩ : ∃ s', (machine F threadId).step
      { s with quit := true, call := Function.update s.call t .quitting } (.quitNotify t) =
        .ok (none, s') ∧ s'.point = .outside ∧ s'.looping = false := by
    simp only [machine, step]
    split
    · exact ⟨_, rfl, hp, hlooping⟩
    · exact ⟨_, rfl, hp, hlooping⟩
  obtain ⟨tr, free, hfree, hnone, hpf, hlf, hentries⟩ := owner_returns threadId returned
  obtain ⟨s₂, hloop, hpolling, -⟩ := loop_polls hnone (hpf.trans hpr) (hlf.trans hlr)
  have hnotify := Machine.Run.cons (Function.update_self ..) hs (hfree.append hloop)
  have hone : entries ([] ++ (tr ++ [(.loop, none), (.test, none)])) = 1 := by
    rw [List.nil_append, entries_append, hentries]
    rfl
  obtain ⟨htest, -⟩ := h [] _ _ s₂ hstore (by simp) hnotify (Nat.le_of_eq hone)
    (fun hne => absurd hp hne) hpolling
  exact htest none (by simp)

/-- **A request is honoured if it is made during `loop()`, and lost if it is made outside.** -/
theorem honoured_iff {tr : List (Action F T × Option F)}
    (h : (machine F threadId).Run initial tr s) (hm : (machine F threadId).may s (.quit t)) :
    Honoured threadId t s ↔ s.point ≠ .outside :=
  ⟨fun hh hp => lost_outside (flags_inductive.run h flags_initial) hm hp hh, honoured_inside⟩

end Leanet.EventLoop

import Leanet.Foundation.Machine
import Mathlib.Logic.Function.Basic

/-! Monitors: one mutex, condition variables, calls that wait in a loop.

A call has a loop in front of its body: as long as `waits` names a condition, the thread
releases the mutex and waits for it. The body wakes all waiters of some conditions. Woken, a
thread tries for the mutex again and starts over at the loop; it may also wake for no
reason. A critical section, from the mutex to a wait or to the end, is one step, so between
steps the mutex is free.

No wakeup is lost (`Monitor.Waits`) where each body wakes the waiters that it lets go on
(`Monitor.Attentive`): who is still waiting has still to wait. -/
namespace Leanet

structure Monitor (σ ρ κ ω ε : Type*) where
  /-- What a call has to wait for. -/
  waits : ρ → σ → Option κ
  /-- The body: what it returns, the next state, whom it wakes. -/
  body : ρ → σ → Except ε (ω × σ × List κ)

namespace Monitor

/-- Where a thread is: outside, before the mutex, or waiting without having been woken. -/
inductive Phase (ρ κ : Type*) where
  | outside
  | entering (r : ρ)
  | waiting (r : ρ) (c : κ)
  deriving DecidableEq, Repr

structure State (T σ ρ κ : Type*) where
  shared : σ
  phase : T → Phase ρ κ

variable {T σ ρ κ ω ε : Type*} [DecidableEq T] [DecidableEq κ]

/-- A thread that waits for one of the conditions goes for the mutex again. -/
def Phase.wakeAll (cs : List κ) : Phase ρ κ → Phase ρ κ
  | .waiting r c => if c ∈ cs then .entering r else .waiting r c
  | p => p

def Phase.wake : Phase ρ κ → Phase ρ κ
  | .waiting r _ => .entering r
  | p => p

def State.setPhase (s : State T σ ρ κ) (t : T) (p : Phase ρ κ) : State T σ ρ κ :=
  { s with phase := Function.update s.phase t p }

def State.call (s : State T σ ρ κ) (t : T) (r : ρ) : State T σ ρ κ := s.setPhase t (.entering r)

/-- A spurious wakeup. -/
def State.wake (s : State T σ ρ κ) (t : T) : State T σ ρ κ := s.setPhase t (s.phase t).wake

/-- The thread has the mutex, and goes as far as it can. -/
def enter (m : Monitor σ ρ κ ω ε) (s : State T σ ρ κ) (t : T) (r : ρ) :
    Except ε (Option ω × State T σ ρ κ) :=
  match m.waits r s.shared with
  | some c => .ok (none, s.setPhase t (.waiting r c))
  | none =>
    match m.body r s.shared with
    | .ok (o, shared, cs) =>
      .ok (some o, ⟨shared, fun u => (Function.update s.phase t .outside u).wakeAll cs⟩)
    | .error e => .error e

omit [DecidableEq κ] in
/-- A loop that tests for one condition. -/
theorem waits_ite {p : Prop} [Decidable p] {c k : κ} :
    (if p then some c else none) = some k ↔ p ∧ k = c := by
  rw [Option.ite_none_right_eq_some, Option.some.injEq, eq_comm]

/-! ### Wakeups -/

/-- Every body wakes the waiters whose condition it changes. -/
def Attentive (m : Monitor σ ρ κ ω ε) : Prop :=
  ∀ r s o s' cs, m.body r s = .ok (o, s', cs) →
    ∀ r' c, m.waits r' s = some c → c ∉ cs → m.waits r' s' = some c

/-- Who has not been woken has still to wait. -/
def Waits (m : Monitor σ ρ κ ω ε) (s : State T σ ρ κ) : Prop :=
  ∀ t r c, s.phase t = .waiting r c → m.waits r s.shared = some c

variable {m : Monitor σ ρ κ ω ε} {s s' : State T σ ρ κ} {t : T} {r : ρ} {o : Option ω}

omit [DecidableEq κ] in
@[simp] theorem setPhase_self {p : Phase ρ κ} : (s.setPhase t p).phase t = p :=
  Function.update_self ..

omit [DecidableEq κ] in
theorem setPhase_other {p : Phase ρ κ} {u : T} (h : u ≠ t) : (s.setPhase t p).phase u = s.phase u :=
  Function.update_of_ne h ..

omit [DecidableEq T] [DecidableEq κ] in
theorem waits_outside {shared : σ} : m.Waits (⟨shared, fun _ : T => .outside⟩ : State T σ ρ κ) := by
  intro t r c h
  cases h

omit [DecidableEq κ] in
theorem Waits.setPhase (h : m.Waits s) {p : Phase ρ κ}
    (hp : ∀ r c, p = .waiting r c → m.waits r s.shared = some c) : m.Waits (s.setPhase t p) := by
  intro u r c hu
  by_cases hut : u = t
  · rw [hut, setPhase_self] at hu
    exact hp r c hu
  · rw [setPhase_other hut] at hu
    exact h u r c hu

omit [DecidableEq κ] in
theorem Waits.call (h : m.Waits s) : m.Waits (s.call t r) :=
  h.setPhase fun _ _ hp => by cases hp

omit [DecidableEq κ] in
theorem Phase.wake_ne_waiting {p : Phase ρ κ} {c : κ} : p.wake ≠ .waiting r c := by
  cases p <;> simp [Phase.wake]

omit [DecidableEq κ] in
theorem Waits.wake (h : m.Waits s) : m.Waits (s.wake t) :=
  h.setPhase fun _ _ hp => absurd hp Phase.wake_ne_waiting

/-- Of the waiters, those of no woken condition are left. -/
theorem wakeAll_eq_waiting {cs : List κ} {p : Phase ρ κ} {c : κ} :
    p.wakeAll cs = .waiting r c ↔ p = .waiting r c ∧ c ∉ cs := by
  cases p with
  | waiting r' c' =>
    rw [Phase.wakeAll]
    split
    · next hmem =>
      constructor
      · intro h
        cases h
      · rintro ⟨⟨⟩, hnot⟩
        exact absurd hmem hnot
    · next hnot =>
      constructor
      · rintro ⟨⟩
        exact ⟨rfl, hnot⟩
      · exact And.left
  | outside => simp [Phase.wakeAll]
  | entering r' => simp [Phase.wakeAll]

/-- The state after a body: its thread has returned, the waiters it wakes are before the mutex. -/
def State.returned (s : State T σ ρ κ) (t : T) (shared : σ) (cs : List κ) : State T σ ρ κ :=
  ⟨shared, fun u => (Function.update s.phase t .outside u).wakeAll cs⟩

/-- A critical section ends in a wait or in the body. -/
theorem enter_cases (hs : m.enter s t r = .ok (o, s')) :
    (∃ c, m.waits r s.shared = some c ∧ o = none ∧ s' = s.setPhase t (.waiting r c)) ∨
    (m.waits r s.shared = none ∧ ∃ a shared cs, m.body r s.shared = .ok (a, shared, cs) ∧
      o = some a ∧ s' = s.returned t shared cs) := by
  unfold enter at hs
  split at hs
  · next c hc =>
    cases hs
    exact .inl ⟨c, hc, rfl, rfl⟩
  · next hwaits =>
    split at hs
    · next a shared cs hbody =>
      cases hs
      exact .inr ⟨hwaits, a, shared, cs, hbody, rfl, rfl⟩
    · cases hs

/-- Who waits after a body was waiting, and not for what it wakes. -/
theorem returned_waiting {u : T} {shared : σ} {cs : List κ} {c : κ}
    (hu : (s.returned t shared cs).phase u = .waiting r c) : s.phase u = .waiting r c ∧ c ∉ cs := by
  obtain ⟨hu, hnot⟩ := wakeAll_eq_waiting.mp hu
  by_cases hut : u = t
  · rw [hut, Function.update_self] at hu
    cases hu
  · rw [Function.update_of_ne hut] at hu
    exact ⟨hu, hnot⟩

/-- **No wakeup is lost** in a critical section. -/
theorem Waits.enter (h : m.Waits s) (hm : m.Attentive) (hs : m.enter s t r = .ok (o, s')) :
    m.Waits s' := by
  rcases enter_cases hs with ⟨c, hc, -, rfl⟩ | ⟨-, a, shared, cs, hbody, -, rfl⟩
  · refine h.setPhase fun r' c' hp => ?_
    cases hp
    exact hc
  · intro u r' c hu
    obtain ⟨hu, hnot⟩ := returned_waiting hu
    exact hm r s.shared a shared cs hbody r' c (h u r' c hu) hnot

/-! ### Calls in progress -/

/-- The call a thread is in. -/
def Phase.call : Phase ρ κ → Option ρ
  | .outside => none
  | .entering r | .waiting r _ => some r

omit [DecidableEq κ] in
@[simp] theorem Phase.call_wake {p : Phase ρ κ} : p.wake.call = p.call := by
  cases p <;> rfl

@[simp] theorem Phase.call_wakeAll {cs : List κ} {p : Phase ρ κ} : (p.wakeAll cs).call = p.call := by
  cases p with
  | waiting r c =>
    rw [wakeAll]
    split <;> rfl
  | outside => rfl
  | entering r => rfl

omit [DecidableEq κ] in
@[simp] theorem call_wake {u : T} : ((s.wake t).phase u).call = (s.phase u).call := by
  by_cases h : u = t
  · rw [h, State.wake, setPhase_self, Phase.call_wake]
  · rw [State.wake, setPhase_other h]

/-- A thread that has the mutex stays in its call, or returns; the others stay in theirs. -/
theorem enter_call (hr : s.phase t = .entering r) (hs : m.enter s t r = .ok (o, s')) (u : T) :
    (s'.phase u).call = if u = t ∧ o ≠ none then none else (s.phase u).call := by
  rcases enter_cases hs with ⟨c, -, rfl, rfl⟩ | ⟨-, a, shared, cs, -, rfl, rfl⟩
  · by_cases h : u = t
    · simp [h, hr, Phase.call]
    · simp [h, setPhase_other h]
  · show ((Function.update s.phase t .outside u).wakeAll cs).call = _
    rw [Phase.call_wakeAll]
    by_cases h : u = t
    · rw [h, Function.update_self, if_pos ⟨rfl, by simp⟩]
      rfl
    · rw [Function.update_of_ne h, if_neg fun hu => h hu.1]

/-! ### The monitor by itself -/

/-- A step of a thread: it calls, it has the mutex, or it wakes for no reason. -/
inductive Act (T ρ : Type*) where
  | call (t : T) (r : ρ)
  | enter (t : T)
  | wake (t : T)
  deriving DecidableEq, Repr

def may (s : State T σ ρ κ) : Act T ρ → Prop
  | .call t _ => s.phase t = .outside
  | .enter t => ∃ r, s.phase t = .entering r
  | .wake t => ∃ r c, s.phase t = .waiting r c

instance : (p : Phase ρ κ) → Decidable (∃ r, p = .entering r)
  | .entering r => isTrue ⟨r, rfl⟩
  | .outside | .waiting _ _ => isFalse (by simp)

instance : (p : Phase ρ κ) → Decidable (∃ r c, p = .waiting r c)
  | .waiting r c => isTrue ⟨r, c, rfl⟩
  | .outside | .entering _ => isFalse (by simp)

def step (m : Monitor σ ρ κ ω ε) (s : State T σ ρ κ) :
    Act T ρ → Except ε (Option ω × State T σ ρ κ)
  | .call t r => .ok (none, s.call t r)
  | .enter t =>
    match s.phase t with
    | .entering r => m.enter s t r
    | _ => .ok (none, s)
  | .wake t => .ok (none, s.wake t)

/-- Any number of threads that make any calls; a step lets out what a call returns. -/
def machine (m : Monitor σ ρ κ ω ε) (T : Type*) [DecidableEq T] :
    Machine (State T σ ρ κ) (Act T ρ) (Option ω) ε where
  may := may
  step := m.step

theorem Waits.step (h : m.Waits s) (hm : m.Attentive) {l : Act T ρ}
    (hs : m.step s l = .ok (o, s')) : m.Waits s' := by
  cases l with
  | call t r =>
    cases hs
    exact h.call
  | enter t =>
    simp only [Monitor.step] at hs
    split at hs
    · exact h.enter hm hs
    · cases hs
      exact h
  | wake t =>
    cases hs
    exact h.wake

/-- **No wakeup is lost** in any run. -/
theorem Waits.run (h : m.Waits s) (hm : m.Attentive) {tr : List (Act T ρ × Option ω)}
    (hr : (m.machine T).Run s tr s') : m.Waits s' :=
  hr.preserves (fun _ _ _ _ hw _ hstep => hw.step hm hstep) h

/-- What a step does to what is shared: nothing, unless a call returns. -/
theorem enter_shared (hs : m.enter s t r = .ok (o, s')) :
    o = none ∧ s'.shared = s.shared ∨ m.waits r s.shared = none ∧
      ∃ a cs, o = some a ∧ m.body r s.shared = .ok (a, s'.shared, cs) := by
  rcases enter_cases hs with ⟨c, -, rfl, rfl⟩ | ⟨hwaits, a, shared, cs, hbody, rfl, rfl⟩
  · exact .inl ⟨rfl, rfl⟩
  · exact .inr ⟨hwaits, a, cs, rfl, hbody⟩

theorem step_shared {l : Act T ρ} (hs : m.step s l = .ok (o, s')) :
    o = none ∧ s'.shared = s.shared ∨
      ∃ t r, l = .enter t ∧ s.phase t = .entering r ∧ m.waits r s.shared = none ∧
        ∃ a cs, o = some a ∧ m.body r s.shared = .ok (a, s'.shared, cs) := by
  cases l with
  | call t r =>
    cases hs
    exact .inl ⟨rfl, rfl⟩
  | enter t =>
    simp only [step] at hs
    split at hs
    · next r hr =>
      rcases enter_shared hs with h | h
      · exact .inl h
      · exact .inr ⟨t, r, rfl, hr, h⟩
    · cases hs
      exact .inl ⟨rfl, rfl⟩
  | wake t =>
    cases hs
    exact .inl ⟨rfl, rfl⟩

/-- Every step is answered where no body goes wrong that its loop lets go on. -/
theorem step_ok (hb : ∀ r x, m.waits r x = none → ∃ y, m.body r x = .ok y) (s : State T σ ρ κ)
    (l : Act T ρ) : ∃ o s', m.step s l = .ok (o, s') := by
  cases l with
  | call t r => exact ⟨_, _, rfl⟩
  | enter t =>
    simp only [step]
    split
    · next r _ =>
      unfold enter
      split
      · exact ⟨_, _, rfl⟩
      · next hw =>
        obtain ⟨⟨a, shared, cs⟩, h⟩ := hb r s.shared hw
        simp only [h]
        exact ⟨_, _, rfl⟩
    · exact ⟨_, _, rfl⟩
  | wake t => exact ⟨_, _, rfl⟩

end Monitor
end Leanet

import Mathlib.Data.List.Basic

/-! Machines: what an environment may ask, what the code does then.

Every component is read the same way. The environment — the other threads, the
kernel, the callbacks of the application — asks for one step at a time and is
only bound by `may`. The code answers with what the step lets out and the next
state, or with a fault: a failed assertion, a use of freed memory. A `Run` is any
finite sequence of answered steps, so a fact about the last state of every run is
a fact about every intermediate state of every run.

`Run.snoc_induction` and `Inductive` are the two rules the components use: the
first carries a property of the history so far along with the state, the second says
that an invariant is kept and that no request faults where it holds. -/
namespace Leanet

/-- `may s l`: in state `s` the environment is free to ask for `l`. -/
structure Machine (σ ℓ ω ε : Type*) where
  may : σ → ℓ → Prop
  step : σ → ℓ → Except ε (ω × σ)

namespace Machine
variable {σ ℓ ω ε : Type*}

/-- A history: each request with what it let out. -/
inductive Run (m : Machine σ ℓ ω ε) : σ → List (ℓ × ω) → σ → Prop where
  | nil (s : σ) : Run m s [] s
  | cons {s t u : σ} {l : ℓ} {o : ω} {tr : List (ℓ × ω)} : m.may s l →
      m.step s l = .ok (o, t) → Run m t tr u → Run m s ((l, o) :: tr) u

variable {m : Machine σ ℓ ω ε} {s t u : σ} {l : ℓ} {o : ω} {tr tr' : List (ℓ × ω)}

theorem Run.single (hm : m.may s l) (hs : m.step s l = .ok (o, t)) : m.Run s [(l, o)] t :=
  .cons hm hs (.nil t)

theorem Run.append (h : m.Run s tr t) (h' : m.Run t tr' u) : m.Run s (tr ++ tr') u := by
  induction h with
  | nil => exact h'
  | cons hm hs _ ih => exact .cons hm hs (ih h')

theorem Run.snoc (h : m.Run s tr t) (hm : m.may t l) (hs : m.step t l = .ok (o, u)) :
    m.Run s (tr ++ [(l, o)]) u :=
  h.append (.single hm hs)

/-- A run can be cut wherever its history can. -/
theorem Run.split (h : m.Run s (tr ++ tr') u) : ∃ t, m.Run s tr t ∧ m.Run t tr' u := by
  induction tr generalizing s with
  | nil => exact ⟨s, .nil s, h⟩
  | cons e rest ih =>
    cases h with
    | cons hm hs hrest =>
      obtain ⟨t, h₁, h₂⟩ := ih hrest
      exact ⟨t, .cons hm hs h₁, h₂⟩

/-- A run that begins with an answered request goes on from the answer. -/
theorem run_cons_iff (hs : m.step s l = .ok (o, t)) :
    m.Run s ((l, o) :: tr) u ↔ m.may s l ∧ m.Run t tr u := by
  refine ⟨fun h => ?_, fun h => .cons h.1 hs h.2⟩
  cases h with
  | cons hm hs' hrest =>
    obtain ⟨-, rfl⟩ := Prod.mk.inj (Except.ok.inj (hs.symm.trans hs'))
    exact ⟨hm, hrest⟩

/-- What holds of the empty history and survives every step holds of every run.
The step may use that the history so far is a run. -/
theorem Run.snoc_induction {P : List (ℓ × ω) → σ → Prop} (h : m.Run s tr t) (nil : P [] s)
    (snoc : ∀ tr t l o u, m.Run s tr t → P tr t → m.may t l → m.step t l = .ok (o, u) →
      P (tr ++ [(l, o)]) u) : P tr t := by
  suffices ∀ mid tr t, m.Run mid tr t → ∀ done, m.Run s done mid → P done mid → P (done ++ tr) t from
    this s tr t h [] (.nil s) nil
  intro mid tr t hrest
  induction hrest with
  | nil => intro done _ hP; simpa using hP
  | @cons v w _ l o _ hm hs _ ih =>
    intro done hdone hP
    simpa using ih (done ++ [(l, o)]) (hdone.snoc hm hs) (snoc done v l o w hdone hP hm hs)

/-- What every step preserves, every run preserves. -/
theorem Run.preserves {I : σ → Prop} (h : m.Run s tr t)
    (step : ∀ s l o t, I s → m.may s l → m.step s l = .ok (o, t) → I t) (hs : I s) : I t := by
  induction h with
  | nil => exact hs
  | cons hm hstep _ ih => exact ih (step _ _ _ _ hs hm hstep)

/-- Putting a list of requests to the code: the run, if all are admitted and answered. -/
def replay (m : Machine σ ℓ ω ε) [∀ s l, Decidable (m.may s l)] (s : σ) :
    List ℓ → Option (List (ℓ × ω) × σ)
  | [] => some ([], s)
  | l :: ls =>
    if m.may s l then
      match m.step s l with
      | .ok (o, t) => (m.replay t ls).map fun r => ((l, o) :: r.1, r.2)
      | .error _ => none
    else none

theorem Run.of_replay [∀ s l, Decidable (m.may s l)] {ls : List ℓ}
    (h : m.replay s ls = some (tr, t)) : m.Run s tr t := by
  induction ls generalizing s tr with
  | nil =>
    cases h
    exact .nil _
  | cons l ls ih =>
    unfold replay at h
    split at h
    · next hm =>
      split at h
      · next o u hs =>
        obtain ⟨⟨tr', t'⟩, hr, he⟩ := Option.map_eq_some_iff.mp h
        cases he
        exact .cons hm hs (ih hr)
      · cases h
    · cases h

theorem replay_labels [∀ s l, Decidable (m.may s l)] {ls : List ℓ}
    (h : m.replay s ls = some (tr, t)) : tr.map Prod.fst = ls := by
  induction ls generalizing s tr with
  | nil =>
    cases h
    rfl
  | cons l ls ih =>
    unfold replay at h
    split at h
    · split at h
      · obtain ⟨⟨tr', t'⟩, hr, he⟩ := Option.map_eq_some_iff.mp h
        cases he
        exact congrArg (l :: ·) (ih hr)
      · cases h
    · cases h

/-- A run for the given requests that ends as wanted, by evaluation. -/
theorem exists_run_of_replay [∀ s l, Decidable (m.may s l)] {P : List (ℓ × ω) → σ → Prop}
    [∀ tr t, Decidable (P tr t)] (ls : List ℓ)
    (h : (m.replay s ls).any (fun r => decide (P r.1 r.2)) = true) :
    ∃ tr t, m.Run s tr t ∧ tr.map Prod.fst = ls ∧ P tr t := by
  obtain ⟨⟨tr, t⟩, hr, hP⟩ := (Option.any_eq_true _ _).mp h
  exact ⟨tr, t, .of_replay hr, replay_labels hr, of_decide_eq_true hP⟩

/-! ### Invariants and faults -/

/-- `I` survives every request, and no request faults where `I` holds. -/
def Inductive (m : Machine σ ℓ ω ε) (I : σ → Prop) : Prop :=
  ∀ s l, I s → m.may s l → ∃ o t, m.step s l = .ok (o, t) ∧ I t

theorem Inductive.run {I : σ → Prop} (hI : m.Inductive I) (h : m.Run s tr t) (hs : I s) : I t :=
  h.preserves (fun s l o t hs hm hstep => by
    obtain ⟨o', t', hstep', ht⟩ := hI s l hs hm
    rw [hstep] at hstep'
    cases hstep'
    exact ht) hs

/-! ### A narrower environment -/

/-- The same code, asked only for what also satisfies `C`. -/
def only (m : Machine σ ℓ ω ε) (C : σ → ℓ → Prop) : Machine σ ℓ ω ε where
  may s l := m.may s l ∧ C s l
  step := m.step

instance (m : Machine σ ℓ ω ε) (C : σ → ℓ → Prop) [∀ s l, Decidable (m.may s l)]
    [∀ s l, Decidable (C s l)] (s : σ) (l : ℓ) : Decidable ((m.only C).may s l) :=
  inferInstanceAs (Decidable (_ ∧ _))

/-- The same code under an environment that may ask for more. -/
theorem Run.mono {n : Machine σ ℓ ω ε} (h : m.Run s tr t) (hmay : ∀ s l, m.may s l → n.may s l)
    (hstep : n.step = m.step) : n.Run s tr t := by
  induction h with
  | nil s => exact .nil s
  | cons hm hs _ ih => exact .cons (hmay _ _ hm) (by rw [hstep]; exact hs) ih

theorem Run.of_only {C : σ → ℓ → Prop} (h : (m.only C).Run s tr t) : m.Run s tr t :=
  h.mono (fun _ _ hm => hm.1) rfl

/-- What each step keeps exactly if the environment keeps to `C` holds all along a run exactly
if the environment does. -/
theorem Run.throughout_iff {I P : σ → Prop} {C : σ → ℓ → Prop} (h : m.Run s tr t) (hI : I s) (hP : P s)
    (step : ∀ s l o t, I s → P s → m.may s l → m.step s l = .ok (o, t) → I t ∧ (P t ↔ C s l)) :
    (∀ tr₁ tr₂ u, tr = tr₁ ++ tr₂ → m.Run s tr₁ u → P u) ↔ (m.only C).Run s tr t := by
  induction h with
  | nil s =>
    refine iff_of_true (fun tr₁ tr₂ u htr hu => ?_) (.nil s)
    obtain ⟨rfl, -⟩ := List.append_eq_nil_iff.mp htr.symm
    cases hu
    exact hP
  | @cons s t v l o tr hm hs hrest ih =>
    obtain ⟨hI', hkeeps⟩ := step s l o t hI hP hm hs
    rw [run_cons_iff (m := m.only C) hs]
    constructor
    · intro hall
      have hP' : P t := hall [(l, o)] tr t rfl (.single hm hs)
      refine ⟨⟨hm, hkeeps.mp hP'⟩, (ih hI' hP').mp fun tr₁ tr₂ u htr hu => ?_⟩
      exact hall ((l, o) :: tr₁) tr₂ u (by rw [htr, List.cons_append]) (.cons hm hs hu)
    · rintro ⟨⟨-, hC⟩, hrun⟩ tr₁ tr₂ u htr hu
      cases tr₁ with
      | nil =>
        cases hu
        exact hP
      | cons e tr₁ =>
        obtain ⟨rfl, rfl⟩ := List.cons.inj htr
        exact (ih hI' (hkeeps.mpr hC)).mpr hrun tr₁ tr₂ u rfl ((run_cons_iff hs).mp hu).2

/-- The same of a law about steps: it holds at every step of a run exactly if the environment
keeps to `C`. -/
theorem Run.each_step_iff {I : σ → Prop} {L : σ → ℓ → ω → σ → Prop} {C : σ → ℓ → Prop}
    (h : m.Run s tr t) (hI : I s)
    (step : ∀ s l o t, I s → m.may s l → m.step s l = .ok (o, t) → I t ∧ (L s l o t ↔ C s l)) :
    (∀ tr₁ l o tr₂ u v, tr = tr₁ ++ (l, o) :: tr₂ → m.Run s tr₁ u → m.step u l = .ok (o, v) →
      L u l o v) ↔ (m.only C).Run s tr t := by
  induction h with
  | nil s => exact iff_of_true (fun tr₁ l o tr₂ u v htr => by simp at htr) (.nil s)
  | @cons s t v l o tr hm hs hrest ih =>
    obtain ⟨hI', hlaw⟩ := step s l o t hI hm hs
    rw [run_cons_iff (m := m.only C) hs]
    constructor
    · intro hall
      refine ⟨⟨hm, hlaw.mp (hall [] l o tr s t rfl (.nil s) hs)⟩, (ih hI').mp ?_⟩
      intro tr₁ l' o' tr₂ u w htr hu hw
      exact hall ((l, o) :: tr₁) l' o' tr₂ u w (by rw [htr, List.cons_append]) (.cons hm hs hu) hw
    · rintro ⟨⟨-, hC⟩, hrun⟩ tr₁ l' o' tr₂ u w htr hu hw
      cases tr₁ with
      | nil =>
        obtain ⟨he, -⟩ := List.cons.inj htr
        cases he
        cases hu
        obtain ⟨-, rfl⟩ := Prod.mk.inj (Except.ok.inj (hs.symm.trans hw))
        exact hlaw.mpr hC
      | cons e tr₁ =>
        obtain ⟨rfl, rfl⟩ := List.cons.inj htr
        exact (ih hI').mpr hrun tr₁ l' o' tr₂ u w rfl ((run_cons_iff hs).mp hu).2 hw

/-- What never comes back once it is lost is there at the end of a run exactly if it was there at
its start and the environment has kept to `C`. -/
theorem Run.end_iff {I P : σ → Prop} {C : σ → ℓ → Prop} (h : m.Run s tr t) (hI : I s)
    (step : ∀ s l o t, I s → m.may s l → m.step s l = .ok (o, t) → I t ∧ (P t ↔ P s ∧ C s l)) :
    P t ↔ P s ∧ (m.only C).Run s tr t := by
  induction h with
  | nil s => exact (and_iff_left (.nil s)).symm
  | @cons s t u l o tr hm hs _ ih =>
    obtain ⟨hI', hkeeps⟩ := step s l o t hI hm hs
    rw [ih hI', hkeeps, run_cons_iff (m := m.only C) hs, and_assoc]
    exact and_congr_right fun _ => and_congr_left fun _ => (and_iff_right hm).symm

/-! ### Simulation -/

/-- Every step of `m` is a step of `n` that lets out the same, up to `rel`. -/
structure Simulation {τ κ ε' : Type*} (m : Machine σ ℓ ω ε) (n : Machine τ κ ω ε') where
  rel : σ → τ → Prop
  label : ℓ → κ
  step : ∀ s t l, rel s t → m.may s l → ∃ o s' t', m.step s l = .ok (o, s') ∧
    n.may t (label l) ∧ n.step t (label l) = .ok (o, t') ∧ rel s' t'

variable {τ κ ε' : Type*} {n : Machine τ κ ω ε'}

/-- The history as the abstract machine reads it. -/
def Simulation.trace (r : Simulation m n) (tr : List (ℓ × ω)) : List (κ × ω) :=
  tr.map fun e => (r.label e.1, e.2)

/-- **A run of the code is a run of the specification**, letting out the same. -/
theorem Simulation.run (r : Simulation m n) {a : τ} (h : m.Run s tr t) (hr : r.rel s a) :
    ∃ b, n.Run a (r.trace tr) b ∧ r.rel t b := by
  induction h generalizing a with
  | nil => exact ⟨a, .nil a, hr⟩
  | cons hm hs _ ih =>
    obtain ⟨o', s', a', hstep, hma, hsa, hr'⟩ := r.step _ _ _ hr hm
    rw [hs] at hstep
    cases hstep
    obtain ⟨b, hb, hrb⟩ := ih hr'
    exact ⟨b, .cons hma hsa hb, hrb⟩

end Machine
end Leanet

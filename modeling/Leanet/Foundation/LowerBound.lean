import Mathlib.Data.List.Basic

/-! `std::lower_bound`.

The search halves a range and looks at its middle. Whatever the vector holds, it ends
between an element that is below, or the beginning, and one that is not, or the end
(`lowerBound_spec`); where the elements below come first that is the only such place
(`lt_lowerBound_iff`). -/
namespace Leanet.LowerBound
variable {α : Type*} {v : List α} {below : α → Bool}

/-- `len` elements from `first` on are left; `fuel` bounds the halvings. -/
def search (v : List α) (below : α → Bool) : Nat → Nat → Nat → Nat
  | 0, first, _ => first
  | fuel + 1, first, len =>
    if len = 0 then first
    else
      let half := len / 2
      match v[first + half]? with
      | some a =>
        if below a then search v below fuel (first + half + 1) (len - half - 1)
        else search v below fuel first half
      | none => first

/-- The position `std::lower_bound(v.begin(), v.end(), …)` stops at. -/
def lowerBound (v : List α) (below : α → Bool) : Nat := search v below v.length 0 v.length

/-- Between an element that is below and one that is not. -/
def Between (v : List α) (below : α → Bool) (lo hi : Nat) : Prop :=
  (lo = 0 ∨ ∃ a, v[lo - 1]? = some a ∧ below a = true) ∧
  (hi = v.length ∨ ∃ a, v[hi]? = some a ∧ below a = false)

theorem search_spec (fuel first len : Nat) (hfuel : len ≤ fuel)
    (hend : first + len ≤ v.length) (h : Between v below first (first + len)) :
    first ≤ search v below fuel first len ∧ search v below fuel first len ≤ first + len ∧
      Between v below (search v below fuel first len) (search v below fuel first len) := by
  induction fuel generalizing first len with
  | zero =>
    obtain rfl : len = 0 := by omega
    exact ⟨Nat.le_refl _, Nat.le_refl _, h⟩
  | succ fuel ih =>
    unfold search
    by_cases hlen : len = 0
    · subst hlen
      rw [if_pos rfl]
      exact ⟨Nat.le_refl _, Nat.le_refl _, h⟩
    · have hmid : first + len / 2 < v.length := by omega
      have hget := List.getElem?_eq_getElem hmid
      rw [if_neg hlen]
      simp only [hget]
      by_cases hb : below v[first + len / 2] = true
      · rw [if_pos hb]
        have hright : first + len / 2 + 1 + (len - len / 2 - 1) = first + len := by omega
        obtain ⟨hlow, hhigh, hbetween⟩ := ih (first + len / 2 + 1) (len - len / 2 - 1) (by omega)
          (by omega)
          ⟨.inr ⟨_, hget, hb⟩, by rw [hright]; exact h.2⟩
        exact ⟨by omega, by omega, hbetween⟩
      · rw [if_neg hb]
        obtain ⟨hlow, hhigh, hbetween⟩ := ih first (len / 2) (by omega) (by omega)
          ⟨h.1, .inr ⟨_, hget, by simpa using hb⟩⟩
        exact ⟨hlow, by omega, hbetween⟩

theorem lowerBound_spec (v : List α) (below : α → Bool) :
    lowerBound v below ≤ v.length ∧ Between v below (lowerBound v below) (lowerBound v below) := by
  have hall : Between v below 0 (0 + v.length) := ⟨.inl rfl, .inl (Nat.zero_add _)⟩
  obtain ⟨-, hhigh, hbetween⟩ := search_spec v.length 0 v.length (Nat.le_refl _)
    (Nat.le_of_eq (Nat.zero_add _)) hall
  exact ⟨by rwa [Nat.zero_add] at hhigh, hbetween⟩

/-- Where the elements below come first, the position tells them apart. -/
theorem lt_lowerBound_iff
    (h : ∀ (i j : Nat) (a b : α), i ≤ j → v[i]? = some a → v[j]? = some b → below b = true → below a = true)
    {i : Nat} {a : α} (ha : v[i]? = some a) : i < lowerBound v below ↔ below a = true := by
  obtain ⟨hle, hlow, hhigh⟩ := lowerBound_spec v below
  have hi := (List.getElem?_eq_some_iff.mp ha).1
  constructor
  · intro hlt
    rcases hlow with hzero | ⟨b, hb, hbelow⟩
    · omega
    · exact h i _ a b (by omega) ha hb hbelow
  · intro hbelow
    by_contra hge
    rcases hhigh with hend | ⟨b, hb, hnot⟩
    · omega
    · rw [h _ i b a (by omega) hb ha hbelow] at hnot
      cases hnot

end Leanet.LowerBound

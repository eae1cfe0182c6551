import Mathlib.Data.List.Basic

/-! A dense vector whose elements know their own index.

The index is kept elsewhere and is a signed integer. An element is taken out of the
middle by exchanging it with the last one and popping the back, so exactly one other
element moves. -/
namespace Leanet.Slots
variable {α : Type*}

/-- `v[i]` for a signed index. -/
def at? (v : List α) (i : Int) : Option α := if 0 ≤ i then v[i.toNat]? else none

/-- `std::iter_swap(v.begin() + i, v.begin() + j)`. -/
def iterSwap (v : List α) (i j : Nat) : List α :=
  match v[i]?, v[j]? with
  | some a, some b => (v.set i b).set j a
  | _, _ => v

@[simp] theorem at?_natCast (v : List α) (n : Nat) : at? v n = v[n]? := by simp [at?]

theorem at?_eq_some {v : List α} {i : Int} {a : α} :
    at? v i = some a ↔ ∃ n : Nat, i = n ∧ v[n]? = some a := by
  constructor
  · intro h
    by_cases hi : 0 ≤ i
    · obtain ⟨n, rfl⟩ := Int.eq_ofNat_of_zero_le hi
      exact ⟨n, rfl, by simpa using h⟩
    · simp [at?, hi] at h
  · rintro ⟨n, rfl, h⟩
    simpa using h

/-- The element taken out makes room for the last one, everything else stays. -/
theorem swapPop_getElem? {v : List α} {i : Nat} (hi : i < v.length) (k : Nat) :
    (iterSwap v i (v.length - 1)).dropLast[k]? =
      if k + 1 < v.length then (if k = i then v[v.length - 1]? else v[k]?) else none := by
  have hlast : v.length - 1 < v.length := by omega
  simp only [iterSwap, List.getElem?_eq_getElem hi, List.getElem?_eq_getElem hlast,
    List.getElem?_dropLast, List.length_set]
  by_cases hk : k + 1 < v.length
  · have hne : v.length - 1 ≠ k := by omega
    rw [if_pos (by omega), if_pos hk, List.getElem?_set_ne hne]
    by_cases hki : k = i
    · subst hki
      simp [hi]
    · rw [if_neg hki, List.getElem?_set_ne (Ne.symm hki)]
  · rw [if_neg (by omega), if_neg hk]

/-- Exchanging an element with itself. -/
theorem iterSwap_self (v : List α) (i : Nat) : iterSwap v i i = v := by
  unfold iterSwap
  split
  · next a b ha hb =>
    obtain ⟨hi, rfl⟩ := List.getElem?_eq_some_iff.mp ha
    obtain ⟨_, rfl⟩ := List.getElem?_eq_some_iff.mp hb
    simp
  · rfl

@[simp] theorem length_iterSwap (v : List α) (i j : Nat) : (iterSwap v i j).length = v.length := by
  unfold iterSwap
  split <;> simp

end Leanet.Slots

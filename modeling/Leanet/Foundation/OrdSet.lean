import Mathlib.Data.List.Sort
import Mathlib.Data.Prod.Lex

/-! `std::set`: a strictly sorted list.

Iteration order is the list's order, `begin` its head, and `lower_bound(x)` cuts the
list into `below x` and `notBelow x`. Erasing by key returns how many elements went,
which a set answers with zero or one. -/
namespace Leanet

/-- A set in iteration order. -/
structure OrdSet (α : Type*) [LinearOrder α] where
  elems : List α
  sorted : elems.Pairwise (· < ·)

namespace OrdSet
variable {α : Type*} [LinearOrder α]

instance : Membership α (OrdSet α) := ⟨fun s x => x ∈ s.elems⟩

instance (x : α) (s : OrdSet α) : Decidable (x ∈ s) := inferInstanceAs (Decidable (x ∈ s.elems))

theorem mem_def {x : α} {s : OrdSet α} : x ∈ s ↔ x ∈ s.elems := Iff.rfl

def empty : OrdSet α := ⟨[], .nil⟩

theorem sorted_orderedInsert {l : List α} (h : l.Pairwise (· < ·)) {x : α} (hx : x ∉ l) :
    (l.orderedInsert (· ≤ ·) x).Pairwise (· < ·) := by
  have hle : (l.orderedInsert (· ≤ ·) x).Pairwise (· ≤ ·) := (h.imp le_of_lt).orderedInsert x l
  have hne : (l.orderedInsert (· ≤ ·) x).Pairwise (· ≠ ·) :=
    (List.perm_orderedInsert _ x l).nodup_iff.mpr (List.nodup_cons.mpr ⟨hx, h.nodup⟩)
  exact hle.imp₂ (fun _ _ => lt_of_le_of_ne) hne

/-- `insert(x)`; an element that is there stays as it is. -/
def insert (x : α) (s : OrdSet α) : OrdSet α :=
  if h : x ∈ s then s else ⟨s.elems.orderedInsert (· ≤ ·) x, sorted_orderedInsert s.sorted h⟩

/-- What `erase(x)` leaves. -/
def erase (x : α) (s : OrdSet α) : OrdSet α :=
  ⟨s.elems.erase x, s.sorted.sublist List.erase_sublist⟩

/-- What `erase(x)` returns. -/
def count (x : α) (s : OrdSet α) : Nat := if x ∈ s then 1 else 0

/-- `*begin()`, if there is one. -/
def first (s : OrdSet α) : Option α := s.elems.head?

/-- `[begin(), lower_bound(x))`. -/
def below (x : α) (s : OrdSet α) : List α := s.elems.takeWhile (· < x)

/-- The set after `erase(begin(), lower_bound(x))`. -/
def notBelow (x : α) (s : OrdSet α) : OrdSet α :=
  ⟨s.elems.dropWhile (· < x), s.sorted.sublist (List.dropWhile_sublist _)⟩

/-! ### Membership -/

@[simp] theorem notMem_empty (x : α) : x ∉ (empty : OrdSet α) := List.not_mem_nil

@[simp] theorem mem_insert {x y : α} {s : OrdSet α} : y ∈ s.insert x ↔ y = x ∨ y ∈ s := by
  unfold insert
  split
  · constructor
    · exact Or.inr
    · rintro (rfl | h)
      · assumption
      · exact h
  · simp [mem_def, List.mem_orderedInsert]

@[simp] theorem mem_erase {x y : α} {s : OrdSet α} : y ∈ s.erase x ↔ y ≠ x ∧ y ∈ s := by
  simp [mem_def, erase, s.sorted.nodup.mem_erase_iff]

theorem count_eq_one {x : α} {s : OrdSet α} : s.count x = 1 ↔ x ∈ s := by
  simp [count]

@[simp] theorem count_of_mem {x : α} {s : OrdSet α} (h : x ∈ s) : s.count x = 1 :=
  count_eq_one.mpr h

theorem mem_below {x y : α} {s : OrdSet α} : y ∈ s.below x ↔ y ∈ s ∧ y < x := by
  obtain ⟨l, hl⟩ := s
  simp only [below, mem_def]
  induction l with
  | nil => simp
  | cons a l ih =>
    obtain ⟨ha, hl⟩ := List.pairwise_cons.mp hl
    by_cases hax : a < x
    · simp only [List.takeWhile_cons, hax, decide_true, if_true, List.mem_cons, ih hl]
      constructor
      · rintro (rfl | ⟨hy, hyx⟩)
        · exact ⟨.inl rfl, hax⟩
        · exact ⟨.inr hy, hyx⟩
      · rintro ⟨rfl | hy, hyx⟩
        · exact .inl rfl
        · exact .inr ⟨hy, hyx⟩
    · simp only [List.takeWhile_cons, hax, decide_false, Bool.false_eq_true, if_false,
        List.not_mem_nil, false_iff]
      rintro ⟨hy, hyx⟩
      rcases List.mem_cons.mp hy with rfl | hy
      · exact hax hyx
      · exact hax ((ha y hy).trans hyx)

theorem mem_notBelow {x y : α} {s : OrdSet α} : y ∈ s.notBelow x ↔ y ∈ s ∧ x ≤ y := by
  obtain ⟨l, hl⟩ := s
  simp only [notBelow, mem_def]
  induction l with
  | nil => simp
  | cons a l ih =>
    obtain ⟨ha, hl⟩ := List.pairwise_cons.mp hl
    by_cases hax : a < x
    · simp only [List.dropWhile_cons, hax, decide_true, if_true, List.mem_cons, ih hl]
      constructor
      · exact fun ⟨hy, hxy⟩ => ⟨.inr hy, hxy⟩
      · rintro ⟨rfl | hy, hxy⟩
        · exact absurd hax (not_lt.mpr hxy)
        · exact ⟨hy, hxy⟩
    · simp only [List.dropWhile_cons, hax, decide_false, Bool.false_eq_true, if_false]
      constructor
      · intro hy
        refine ⟨hy, ?_⟩
        rcases List.mem_cons.mp hy with rfl | hy
        · exact not_lt.mp hax
        · exact (not_lt.mp hax).trans (ha y hy).le
      · exact And.left

theorem nodup_below (x : α) (s : OrdSet α) : (s.below x).Nodup :=
  (s.sorted.sublist (List.takeWhile_sublist _)).nodup

/-! ### The least element -/

theorem first_eq_none {s : OrdSet α} : s.first = none ↔ ∀ x, x ∉ s := by
  simp [first, mem_def, List.head?_eq_none_iff, List.eq_nil_iff_forall_not_mem]

theorem first_mem {s : OrdSet α} {x : α} (h : s.first = some x) : x ∈ s :=
  List.mem_of_mem_head? h

theorem first_le {s : OrdSet α} {x y : α} (h : s.first = some x) (hy : y ∈ s) : x ≤ y := by
  obtain ⟨_ | ⟨a, l⟩, hl⟩ := s
  · cases h
  · cases h
    rcases List.mem_cons.mp hy with rfl | hy
    · exact le_rfl
    · exact ((List.pairwise_cons.mp hl).1 y hy).le

end OrdSet
end Leanet

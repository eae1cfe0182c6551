import Mathlib.Data.List.Basic

/-! Vectors under `std::copy` and `resize`.

`std::copy` is the forward loop the standard describes, element by element: from
foreign memory into a vector (`store`), and inside one vector (`slide`), where the
two ranges may overlap. What each does is said of `slice buf lo hi`, the elements at
positions `lo ≤ i < hi`. -/
namespace Leanet.Bytes
variable {α : Type*}

/-- The elements in `[lo, hi)`. -/
def slice (buf : List α) (lo hi : Nat) : List α := (buf.drop lo).take (hi - lo)

/-- `std::copy(data, data + len, begin() + pos)`. -/
def store (buf : List α) (pos : Nat) : List α → List α
  | [] => buf
  | d :: rest => store (buf.set pos d) (pos + 1) rest

/-- `std::copy(begin() + src, begin() + src + n, begin() + dst)`. -/
def slide (buf : List α) (src dst : Nat) : Nat → List α
  | 0 => buf
  | n + 1 => slide ((buf[src]?.map (buf.set dst)).getD buf) (src + 1) (dst + 1) n

/-- `resize(n)`: cut, or padded with value-initialized elements. -/
def resize [Inhabited α] (buf : List α) (n : Nat) : List α :=
  buf.take n ++ List.replicate (n - buf.length) default

/-! ### Slices -/

theorem getElem?_slice (buf : List α) (lo hi i : Nat) :
    (slice buf lo hi)[i]? = if i < hi - lo then buf[lo + i]? else none := by
  simp [slice, List.getElem?_take]

theorem length_slice (buf : List α) (lo hi : Nat) (h : hi ≤ buf.length) :
    (slice buf lo hi).length = hi - lo := by
  simp only [slice, List.length_take, List.length_drop]
  omega

@[simp] theorem slice_self (buf : List α) (lo : Nat) : slice buf lo lo = [] := by
  simp [slice]

theorem slice_append (buf : List α) {lo mid hi : Nat} (h₁ : lo ≤ mid) (h₂ : mid ≤ hi) :
    slice buf lo mid ++ slice buf mid hi = slice buf lo hi := by
  have hmid : lo + (mid - lo) = mid := by omega
  have hhi : mid - lo + (hi - mid) = hi - lo := by omega
  rw [slice, slice, slice, ← hhi, List.take_add, List.drop_drop, hmid]

theorem take_slice (buf : List α) {lo n hi : Nat} (h : lo + n ≤ hi) :
    (slice buf lo hi).take n = slice buf lo (lo + n) := by
  have hn : min n (hi - lo) = lo + n - lo := by omega
  rw [slice, slice, List.take_take, hn]

theorem drop_slice (buf : List α) (lo n hi : Nat) :
    (slice buf lo hi).drop n = slice buf (lo + n) hi := by
  have hn : hi - lo - n = hi - (lo + n) := by omega
  rw [slice, slice, List.drop_take, List.drop_drop, hn]

/-- Slices are equal when they agree position by position. -/
theorem slice_congr {buf buf' : List α} {lo lo' n : Nat}
    (h : ∀ i, i < n → buf[lo + i]? = buf'[lo' + i]?) :
    slice buf lo (lo + n) = slice buf' lo' (lo' + n) := by
  apply List.ext_getElem?
  intro i
  rw [getElem?_slice, getElem?_slice, Nat.add_sub_cancel_left, Nat.add_sub_cancel_left]
  split
  · exact h i ‹_›
  · rfl

/-! ### Storing foreign bytes -/

@[simp] theorem length_store (buf data : List α) (pos : Nat) :
    (store buf pos data).length = buf.length := by
  induction data generalizing buf pos with
  | nil => rfl
  | cons d rest ih => rw [store, ih, List.length_set]

theorem getElem?_store (buf data : List α) (pos i : Nat) (h : pos + data.length ≤ buf.length) :
    (store buf pos data)[i]? =
      if pos ≤ i ∧ i < pos + data.length then data[i - pos]? else buf[i]? := by
  induction data generalizing buf pos with
  | nil =>
    rw [if_neg (by rw [List.length_nil]; omega)]
    rfl
  | cons d rest ih =>
    simp only [List.length_cons] at h ⊢
    rw [store, ih (buf.set pos d) (pos + 1) (by rw [List.length_set]; omega)]
    by_cases hi : i = pos
    · subst hi
      rw [if_neg (by omega), if_pos (by omega), List.getElem?_set_self (by omega), Nat.sub_self,
        List.getElem?_cons_zero]
    · rw [List.getElem?_set_ne (by omega)]
      by_cases hin : pos + 1 ≤ i ∧ i < pos + 1 + rest.length
      · have hk : i - pos = i - (pos + 1) + 1 := by omega
        rw [if_pos hin, if_pos (by omega), hk, List.getElem?_cons_succ]
      · rw [if_neg hin, if_neg (by omega)]

theorem slice_store (buf data : List α) (pos : Nat) (h : pos + data.length ≤ buf.length) :
    slice (store buf pos data) pos (pos + data.length) = data := by
  apply List.ext_getElem?
  intro i
  rw [getElem?_slice, Nat.add_sub_cancel_left, getElem?_store _ _ _ _ h, Nat.add_sub_cancel_left]
  split
  · rw [if_pos (by omega)]
  · exact (List.getElem?_eq_none (by omega)).symm

/-- Storing leaves every slice it does not reach. -/
theorem slice_store_frame (buf data : List α) {pos lo hi : Nat} (h : pos + data.length ≤ buf.length)
    (hout : hi ≤ pos ∨ pos + data.length ≤ lo) :
    slice (store buf pos data) lo hi = slice buf lo hi := by
  apply List.ext_getElem?
  intro i
  rw [getElem?_slice, getElem?_slice]
  split
  · rw [getElem?_store _ _ _ _ h, if_neg (by omega)]
  · rfl

/-- What is in front of `pos`, and then what has been stored. -/
theorem take_store (buf data : List α) {pos n : Nat} (h : pos + data.length ≤ buf.length)
    (hn : n ≤ data.length) : (store buf pos data).take (pos + n) = buf.take pos ++ data.take n := by
  have hpos : (buf.take pos).length = pos := by
    rw [List.length_take]
    omega
  apply List.ext_getElem?
  intro i
  rw [List.getElem?_take, getElem?_store _ _ _ _ h, List.getElem?_append, hpos]
  by_cases hi : i < pos
  · rw [if_pos (by omega), if_neg (by omega), if_pos hi, List.getElem?_take_of_lt hi]
  · rw [if_neg hi, List.getElem?_take]
    by_cases hin : i < pos + n
    · rw [if_pos hin, if_pos (by omega), if_pos (by omega)]
    · rw [if_neg hin, if_neg (by omega)]

/-! ### Moving bytes inside the vector -/

@[simp] theorem length_slide (buf : List α) (src dst n : Nat) :
    (slide buf src dst n).length = buf.length := by
  induction n generalizing buf src dst with
  | zero => rfl
  | succ n ih =>
    rw [slide, ih]
    cases buf[src]? <;> simp

/-- Moving towards the front reads every element before it is overwritten. -/
theorem getElem?_slide (buf : List α) (src dst n i : Nat) (hle : dst ≤ src)
    (h : src + n ≤ buf.length) :
    (slide buf src dst n)[i]? =
      if dst ≤ i ∧ i < dst + n then buf[i + (src - dst)]? else buf[i]? := by
  induction n generalizing buf src dst with
  | zero =>
    rw [if_neg (by omega)]
    rfl
  | succ n ih =>
    have hsrc : src < buf.length := by omega
    have hd : src + 1 - (dst + 1) = src - dst := by omega
    rw [slide, List.getElem?_eq_getElem hsrc, Option.map_some, Option.getD_some,
      ih _ _ _ (by omega) (by rw [List.length_set]; omega), hd]
    by_cases hi : i = dst
    · subst hi
      rw [if_neg (by omega), if_pos (by omega), List.getElem?_set_self (by omega)]
      have hs : i + (src - i) = src := by omega
      rw [hs, List.getElem?_eq_getElem hsrc]
    · by_cases hin : dst + 1 ≤ i ∧ i < dst + 1 + n
      · rw [if_pos hin, if_pos (by omega), List.getElem?_set_ne (by omega)]
      · rw [if_neg hin, if_neg (by omega), List.getElem?_set_ne (by omega)]

theorem slice_slide (buf : List α) (src dst n : Nat) (hle : dst ≤ src) (h : src + n ≤ buf.length) :
    slice (slide buf src dst n) dst (dst + n) = slice buf src (src + n) := by
  apply slice_congr
  intro i hi
  rw [getElem?_slide _ _ _ _ _ hle h, if_pos (by omega)]
  congr 1
  omega

/-! ### Growing -/

theorem length_resize [Inhabited α] (buf : List α) (n : Nat) : (resize buf n).length = n := by
  simp only [resize, List.length_append, List.length_take, List.length_replicate]
  omega

/-- Growing leaves every slice of the old vector. -/
theorem slice_resize [Inhabited α] (buf : List α) {lo hi n : Nat} (hhi : hi ≤ buf.length)
    (hn : buf.length ≤ n) : slice (resize buf n) lo hi = slice buf lo hi := by
  apply List.ext_getElem?
  intro i
  rw [getElem?_slice, getElem?_slice]
  split
  · rw [resize, List.take_of_length_le hn, List.getElem?_append_left (by omega)]
  · rfl

end Leanet.Bytes

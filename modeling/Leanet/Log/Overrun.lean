import Leanet.Log.LogStream

/-! The log buffer and its end.

`end()` is `SIZE` bytes past the cursor, not past the array, so that `avail()` is `SIZE`
whatever is in the buffer (`avail_eq`). The buffer keeps to its array, and knows how much
of it is left, as long as nothing is added to it (`Idle`): the first byte makes `avail()`
wrong. The array itself is overrun where the insertions together go beyond it
(`Within`), for nothing stops them. -/
namespace Leanet
open Bytes

variable {SIZE : Nat}

namespace FixedBuffer

theorem avail_eq (b : FixedBuffer SIZE) : b.avail = SIZE := Nat.add_sub_cancel_left ..

/-- The cursor is in the array and `avail()` counts what is left of it. -/
structure Bounded (b : FixedBuffer SIZE) : Prop where
  length_le : b.length ≤ SIZE
  avail_eq : b.avail = SIZE - b.length

/-- There is room for what the operation asks for. -/
def Fits (b : FixedBuffer SIZE) : Operation → Prop
  | .append data => data.length < SIZE - b.length
  | _ => kMaxNumericSize ≤ SIZE - b.length

/-- Through a sequence of insertions the buffer stays bounded, no byte is written outside
of the array, and what does not fit leaves the buffer as it was. -/
def Guarded (b : FixedBuffer SIZE) : List (Insertion SIZE) → Prop
  | [] => b.Bounded
  | i :: l => b.Bounded ∧ ∃ b', LogStream.insert b i = .ok b' ∧
      (¬ b.Fits i.operation → b' = b) ∧ b'.Guarded l

theorem Guarded.bounded {l : List (Insertion SIZE)} {b : FixedBuffer SIZE} (h : b.Guarded l) :
    b.Bounded := by
  cases l with
  | nil => exact h
  | cons i l => exact h.1

end FixedBuffer

namespace Operation

/-- Adds no byte to a buffer of `SIZE` bytes: nothing, or more than `avail()`. -/
def Idle (SIZE : Nat) : Operation → Prop
  | append data => data = [] ∨ SIZE ≤ data.length
  | _ => SIZE < kMaxNumericSize

/-- How far the cursor moves. -/
def advances (SIZE : Nat) : Operation → Nat
  | append data => if data.length < SIZE then data.length else 0
  | appendInteger val => if kMaxNumericSize ≤ SIZE then (convert val).length else 0
  | appendPointer v => if kMaxNumericSize ≤ SIZE then (convertHex v.toNat).length else 0
  | appendDouble v => if kMaxNumericSize ≤ SIZE then v.text.length else 0

/-- How many bytes are written from the cursor on. -/
def extent (SIZE : Nat) : Operation → Nat
  | append data => if data.length < SIZE then data.length else 0
  | appendInteger val => if kMaxNumericSize ≤ SIZE then (convert val).length + 1 else 0
  | appendPointer v => if kMaxNumericSize ≤ SIZE then 2 + (convertHex v.toNat).length + 1 else 0
  | appendDouble v => if kMaxNumericSize ≤ SIZE then v.text.length + 1 else 0

/-- From `n` on, each operation writes inside the array. -/
def Within (SIZE : Nat) : Nat → List Operation → Prop
  | _, [] => True
  | n, op :: l => n + op.extent SIZE ≤ SIZE ∧ Within SIZE (n + op.advances SIZE) l

end Operation

/-! ### One operation -/

variable {b b' : FixedBuffer SIZE} {pos n : Nat} {d : List UInt8}

theorem write_of_le (h : pos + d.length ≤ SIZE) :
    ∃ b', b.write pos d = .ok b' ∧ b'.cur_ = b.cur_ :=
  ⟨_, if_pos h, rfl⟩

theorem write_of_lt (h : SIZE < pos + d.length) : b.write pos d = .error .dangling :=
  if_neg (Nat.not_le.mpr h)

/-- An operation moves the cursor by `moves` if it stays inside of the array for `extent`
bytes, and faults otherwise. -/
def Reaches (b : FixedBuffer SIZE) (result : Except Fault (FixedBuffer SIZE))
    (extent moves : Nat) : Prop :=
  (b.cur_ + extent ≤ SIZE ∧ ∃ b', result = .ok b' ∧ b'.cur_ = b.cur_ + moves) ∨
    (SIZE < b.cur_ + extent ∧ result = .error .dangling)

theorem reaches_stay (h : b.cur_ ≤ SIZE) : Reaches b (.ok b) 0 0 := .inl ⟨h, b, rfl, rfl⟩

theorem reaches_write : Reaches b (do
    let c ← b.write b.cur_ d
    pure (c.advance n)) d.length n := by
  rcases Nat.lt_or_ge SIZE (b.cur_ + d.length) with hlt | hle
  · exact .inr ⟨hlt, by rw [write_of_lt hlt, error_bind]⟩
  · obtain ⟨c, hc, hcur⟩ := write_of_le (b := b) hle
    exact .inl ⟨hle, _, by rw [hc, ok_bind, pure_eq_ok], by rw [FixedBuffer.advance, hcur]⟩

theorem reaches_appendPointer (v : UInt64) (h : kMaxNumericSize ≤ SIZE) :
    Reaches b (LogStream.appendPointer b v) (2 + (convertHex v.toNat).length + 1)
      (convertHex v.toNat).length := by
  rw [LogStream.appendPointer, if_pos (b.avail_eq.symm ▸ h), FixedBuffer.current]
  rcases Nat.lt_or_ge SIZE (b.cur_ + 2) with hlt | hle
  · exact .inr ⟨by omega, by rw [write_of_lt hlt, error_bind]⟩
  obtain ⟨c, hc, hcur⟩ := write_of_le (b := b) (d := [48, 120]) hle
  rw [hc, ok_bind]
  rcases Nat.lt_or_ge SIZE (b.cur_ + 2 + (convertHex v.toNat ++ [0]).length) with hlt | hle
  · refine .inr ⟨?_, by rw [write_of_lt hlt, error_bind]⟩
    rw [List.length_append, List.length_singleton] at hlt
    omega
  · obtain ⟨d, hd, hcur'⟩ := write_of_le (b := c) hle
    refine .inl ⟨?_, _, by rw [hd, ok_bind, pure_eq_ok], by rw [FixedBuffer.advance, hcur', hcur]⟩
    rw [List.length_append, List.length_singleton] at hle
    omega

theorem reaches_perform (hb : b.cur_ ≤ SIZE) (op : Operation) :
    Reaches b (b.perform op) (op.extent SIZE) (op.advances SIZE) := by
  cases op with
  | append data =>
    simp only [FixedBuffer.perform, FixedBuffer.append, b.avail_eq, Operation.extent,
      Operation.advances]
    split
    · exact reaches_write
    · exact reaches_stay hb
  | appendInteger val =>
    simp only [FixedBuffer.perform, LogStream.appendInteger, b.avail_eq, Operation.extent,
      Operation.advances]
    split
    · have h := reaches_write (b := b) (n := (convert val).length) (d := convert val ++ [0])
      rwa [List.length_append, List.length_singleton] at h
    · exact reaches_stay hb
  | appendPointer v =>
    simp only [FixedBuffer.perform, Operation.extent, Operation.advances]
    split
    · next h => exact reaches_appendPointer v h
    · next h =>
      rw [LogStream.appendPointer, if_neg (b.avail_eq.symm ▸ h)]
      exact reaches_stay hb
  | appendDouble v =>
    simp only [FixedBuffer.perform, LogStream.appendDouble, b.avail_eq, Operation.extent,
      Operation.advances]
    split
    · have h := reaches_write (b := b) (n := v.text.length) (d := v.text ++ [0])
      rwa [List.length_append, List.length_singleton] at h
    · exact reaches_stay hb

theorem convert_ne_nil (val : Int) : convert val ≠ [] := by
  rw [convert, convertLoop]
  split <;> simp

theorem convertHex_ne_nil (val : Nat) : convertHex val ≠ [] := by
  simp [convertHex, convertHexLoop]

namespace Operation

theorem advances_le_extent (op : Operation) : op.advances SIZE ≤ op.extent SIZE := by
  cases op <;> simp only [advances, extent] <;> split_ifs <;> omega

/-- An idle operation writes nothing. -/
theorem idle_iff (op : Operation) : op.Idle SIZE ↔ op.advances SIZE = 0 := by
  cases op with
  | append data =>
    simp only [Idle, advances, ← List.length_eq_zero_iff]
    split_ifs <;> omega
  | appendInteger val =>
    have := List.length_pos_iff.mpr (convert_ne_nil val)
    simp only [Idle, advances]
    split_ifs <;> omega
  | appendPointer v =>
    have := List.length_pos_iff.mpr (convertHex_ne_nil v.toNat)
    simp only [Idle, advances]
    split_ifs <;> omega
  | appendDouble v =>
    have := List.length_pos_iff.mpr v.nonempty
    simp only [Idle, advances]
    split_ifs <;> omega

theorem Idle.extent_eq {op : Operation} (h : op.Idle SIZE) : op.extent SIZE = 0 := by
  cases op with
  | append data =>
    obtain rfl | hlong := h
    · exact ite_self 0
    · exact if_neg (Nat.not_lt.mpr hlong)
  | appendInteger | appendPointer | appendDouble => exact if_neg (Nat.not_le.mpr h)

end Operation

/-! ### A sequence -/

theorem bounded_empty (hb : b.cur_ = 0) : b.Bounded where
  length_le := by rw [FixedBuffer.length, hb]; exact Nat.zero_le SIZE
  avail_eq := by rw [b.avail_eq, FixedBuffer.length, hb, Nat.sub_zero]

/-- What does not fit an empty buffer is not taken. -/
theorem perform_rejected (hb : b.cur_ = 0) {op : Operation} (h : ¬ b.Fits op) :
    b.perform op = .ok b := by
  have hlength : SIZE - b.length = SIZE := by rw [FixedBuffer.length, hb, Nat.sub_zero]
  cases op with
  | append data | appendInteger val | appendPointer v | appendDouble v =>
    simp only [FixedBuffer.Fits, hlength] at h
    exact if_neg (b.avail_eq.symm ▸ h)

/-- From an empty buffer: the first byte added is counted nowhere. -/
theorem guarded_idle (hb : b.cur_ = 0) (l : List (Insertion SIZE)) :
    b.Guarded l ↔ ∀ i ∈ l, i.operation.Idle SIZE := by
  induction l generalizing b with
  | nil => simp [FixedBuffer.Guarded, bounded_empty hb]
  | cons i l ih =>
    rw [List.forall_mem_cons, FixedBuffer.Guarded, Operation.idle_iff]
    constructor
    · rintro ⟨-, c, hc, -, hl⟩
      obtain ⟨-, c', hc', hcur⟩ | ⟨-, hfault⟩ := reaches_perform (hb ▸ Nat.zero_le SIZE) i.operation
      · obtain rfl : c = c' := Except.ok.inj (hc.symm.trans hc')
        obtain ⟨hle, havail⟩ := hl.bounded
        rw [c.avail_eq] at havail
        simp only [FixedBuffer.length] at hle havail
        exact ⟨by omega, (ih (by omega)).mp hl⟩
      · cases hc.symm.trans hfault
    · rintro ⟨hidle, hl⟩
      have hextent := ((Operation.idle_iff _).mpr hidle).extent_eq
      obtain ⟨-, c, hc, hcur⟩ | ⟨hlt, -⟩ := reaches_perform (hb ▸ Nat.zero_le SIZE) i.operation
      · refine ⟨bounded_empty hb, c, hc, fun hfits => ?_, (ih (by omega)).mpr hl⟩
        exact Except.ok.inj (hc.symm.trans (perform_rejected hb hfits))
      · omega

theorem foldlM_within (hb : b.cur_ ≤ SIZE) (l : List (Insertion SIZE)) :
    (∃ b', l.foldlM LogStream.insert b = .ok b') ↔
      Operation.Within SIZE b.cur_ (l.map Insertion.operation) := by
  induction l generalizing b with
  | nil => exact iff_of_true ⟨b, rfl⟩ trivial
  | cons i l ih =>
    rw [List.map_cons, Operation.Within, List.foldlM_cons, LogStream.insert]
    have hmoves : i.operation.advances SIZE ≤ _ := i.operation.advances_le_extent
    obtain ⟨hle, c, hc, hcur⟩ | ⟨hlt, hfault⟩ := reaches_perform hb i.operation
    · rw [hc, ok_bind, ih (by omega), hcur]
      exact (and_iff_right hle).symm
    · rw [hfault, error_bind]
      exact iff_of_false (by simp) fun h => by omega

/-- **The buffer is guarded as long as nothing is added to it, and overrun where the
insertions reach beyond its array.** -/
theorem log_buffer_guarded (array : List UInt8) (l : List (Insertion array.length)) :
    ((FixedBuffer.new array).Guarded l ↔ ∀ i ∈ l, i.operation.Idle array.length) ∧
    ((∃ b, l.foldlM LogStream.insert (FixedBuffer.new array) = .ok b) ↔
      Operation.Within array.length 0 (l.map Insertion.operation)) :=
  ⟨guarded_idle rfl l, foldlM_within (Nat.zero_le _) l⟩

/-- A text of more than half the buffer fits twice. -/
theorem append_twice (hb : b.cur_ = 0) (hfits : d.length < SIZE)
    (hlong : SIZE < d.length + d.length) :
    ∃ c, LogStream.insert b (.append d) = .ok c ∧ c.length = d.length ∧ c.avail = SIZE ∧
      LogStream.insert c (.append d) = .error .dangling := by
  have hextent : (Operation.append d).extent SIZE = d.length := if_pos hfits
  have hadvances : (Operation.append d).advances SIZE = d.length := if_pos hfits
  obtain ⟨-, c, hc, hcur⟩ | ⟨hlt, -⟩ :=
    reaches_perform (hb ▸ Nat.zero_le SIZE) (Operation.append d)
  · obtain ⟨hle, -⟩ | ⟨-, hfault⟩ := reaches_perform (b := c) (by omega) (Operation.append d)
    · omega
    · exact ⟨c, hc, by rw [FixedBuffer.length]; omega, c.avail_eq, hfault⟩
  · omega

/-- Two lines of 3999 bytes: after the first `avail()` is still 4000, and the second is
written past the end of the array. -/
theorem log_buffer_overrun :
    let b := FixedBuffer.new (List.replicate kSmallBufferSize 0)
    let line := Insertion.append (List.replicate 3999 120)
    (∃ c, LogStream.insert b line = .ok c ∧ c.length = 3999 ∧ c.avail = 4000 ∧
      LogStream.insert c line = .error .dangling) ∧ ¬ b.Guarded [line, line] := by
  have hsize : (List.replicate kSmallBufferSize (0 : UInt8)).length = 4000 := List.length_replicate
  have hline : (List.replicate 3999 (120 : UInt8)).length = 3999 := List.length_replicate
  obtain ⟨c, hc, hlength, havail, hfault⟩ := append_twice
    (b := .new (List.replicate kSmallBufferSize 0)) (d := List.replicate 3999 120) rfl
    (by rw [hsize, hline]; decide) (by rw [hsize, hline]; decide)
  refine ⟨⟨c, hc, hlength.trans hline, havail.trans hsize, hfault⟩, ?_⟩
  rintro ⟨-, d, hd, -, -, e, he, -⟩
  obtain rfl : d = c := Except.ok.inj (hd.symm.trans hc)
  cases he.symm.trans hfault

end Leanet

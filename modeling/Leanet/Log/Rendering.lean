import Leanet.Log.Convert
import Leanet.Log.Overrun

/-! What is in the log buffer.

Every insertion has a rendering, and the buffer should hold the renderings in a row and hand
out those bytes. An operation writes at the cursor and keeps in front of it what it then
advances over (`content_perform`). That is all of the rendering except for a pointer, whose
`"0x"` is not counted, and for another buffer, which is inserted as all of its array and
never fits (`Whole`). `toString` and `toStringView` return the array whatever is in it. -/
namespace Leanet
open Bytes

variable {SIZE : Nat}

/-- `buffer()[0, length())`. -/
def FixedBuffer.content (b : FixedBuffer SIZE) : List UInt8 := b.buffer_.take b.length

/-- A buffer that holds `text` and hands it out. -/
structure FixedBuffer.Holds (b : FixedBuffer SIZE) (text : List UInt8) : Prop where
  length_eq : b.length = text.length
  content_eq : b.content = text
  toString_eq : b.toString = text
  toStringView_eq : b.toStringView = text

namespace Insertion

/-- What is to be read where the argument was inserted. -/
def rendering : Insertion SIZE → List UInt8
  | bool x => boolText x
  | short v => detail.decimal v.toInt
  | unsignedShort v => detail.decimal v.toNat
  | int v => detail.decimal v.toInt
  | unsignedInt v => detail.decimal v.toNat
  | long v => detail.decimal v.toInt
  | unsignedLong v => detail.decimal v.toNat
  | longLong v => detail.decimal v.toInt
  | unsignedLongLong v => detail.decimal v.toNat
  | pointer v => [48, 120] ++ detail.hexadecimal v.toNat
  | float v => v.text
  | double v => v.text
  | char c => [c]
  | cstring str => cstringText str
  | unsignedChars str => cstringText str
  | string v => v
  | stringView v => v
  | buffer v => v.content
  | fmt v => v.data
  | append data => data

/-- The buffer gets all of the rendering. -/
def Whole : Insertion SIZE → Prop
  | pointer _ => False
  | buffer v => v.content = []
  | _ => True

end Insertion

/-- What is to be read after a sequence of insertions. -/
def LogStream.rendering (l : List (Insertion SIZE)) : List UInt8 := l.flatMap Insertion.rendering

namespace Operation

/-- The bytes from the cursor on, with the `NUL` of a number. -/
def written : Operation → List UInt8
  | append data => data
  | appendInteger val => convert val ++ [0]
  | appendPointer v => [48, 120] ++ (convertHex v.toNat ++ [0])
  | appendDouble v => v.text ++ [0]

/-- The bytes that are left in front of the cursor. -/
def taken (SIZE : Nat) (op : Operation) : List UInt8 := op.written.take (op.advances SIZE)

theorem advances_le_written (op : Operation) : op.advances SIZE ≤ op.written.length := by
  cases op <;> simp only [advances, written, List.length_append] <;> split_ifs <;> omega

theorem length_taken (op : Operation) : (op.taken SIZE).length = op.advances SIZE := by
  rw [taken, List.length_take, Nat.min_eq_left op.advances_le_written]

end Operation

/-! ### One operation -/

variable {b c : FixedBuffer SIZE} {d : List UInt8} {n : Nat}

theorem content_write (h : (b.write b.cur_ d >>= fun b => pure (b.advance n)) = .ok c)
    (hn : n ≤ d.length) : c.content = b.content ++ d.take n := by
  rw [FixedBuffer.write] at h
  split at h
  · next hle =>
    cases h
    exact take_store b.buffer_ d (by rwa [b.size]) hn
  · cases h

/-- Both writes of a pointer are one. -/
theorem write_write (d : List UInt8) :
    (b.write b.cur_ [48, 120] >>= fun c => c.write (b.cur_ + 2) d) =
      b.write b.cur_ (48 :: 120 :: d) := by
  simp only [FixedBuffer.write, List.length_cons, List.length_nil]
  rcases Nat.lt_or_ge SIZE (b.cur_ + 2 + d.length) with hlt | hle
  · rw [if_neg (by omega : ¬ b.cur_ + (d.length + 1 + 1) ≤ SIZE)]
    split
    · exact if_neg (by omega)
    · rfl
  · rw [if_pos (by omega : b.cur_ + (0 + 1 + 1) ≤ SIZE), ok_bind, if_pos hle, if_pos (by omega)]
    rfl

/-- An operation is refused, or writes its bytes and advances. -/
theorem perform_written (b : FixedBuffer SIZE) (op : Operation) :
    b.perform op = .ok b ∧ op.advances SIZE = 0 ∨
      b.perform op =
        b.write b.cur_ op.written >>= fun b => pure (b.advance (op.advances SIZE)) := by
  cases op with
  | append data =>
    simp only [FixedBuffer.perform, FixedBuffer.append, b.avail_eq, Operation.advances]
    split
    · exact .inr rfl
    · exact .inl ⟨rfl, rfl⟩
  | appendInteger val =>
    simp only [FixedBuffer.perform, LogStream.appendInteger, b.avail_eq, Operation.advances]
    split
    · exact .inr rfl
    · exact .inl ⟨rfl, rfl⟩
  | appendPointer v =>
    simp only [FixedBuffer.perform, LogStream.appendPointer, b.avail_eq, Operation.advances]
    split
    · right
      rw [← bind_assoc, FixedBuffer.current, write_write]
      rfl
    · exact .inl ⟨rfl, rfl⟩
  | appendDouble v =>
    simp only [FixedBuffer.perform, LogStream.appendDouble, b.avail_eq, Operation.advances]
    split
    · exact .inr rfl
    · exact .inl ⟨rfl, rfl⟩

theorem content_perform {op : Operation} (h : b.perform op = .ok c) :
    c.content = b.content ++ op.taken SIZE := by
  obtain ⟨hstay, hzero⟩ | hwrite := perform_written b op
  · rw [Operation.taken, hzero, List.take_zero, List.append_nil, Except.ok.inj (hstay.symm.trans h)]
  · exact content_write (hwrite.symm.trans h) op.advances_le_written

/-! ### One insertion -/

theorem Operation.taken_append (h : d.length < SIZE) : (append d).taken SIZE = d := by
  rw [taken, advances, if_pos h]
  exact List.take_length

theorem Operation.taken_appendInteger (h : kMaxNumericSize ≤ SIZE) (val : Int) :
    (appendInteger val).taken SIZE = detail.decimal val := by
  rw [taken, advances, if_pos h, ← detail.text_eq_decimal]
  exact List.take_left

theorem Operation.taken_appendDouble (h : kMaxNumericSize ≤ SIZE) (v : Rendering) :
    (appendDouble v).taken SIZE = v.text := by
  rw [taken, advances, if_pos h]
  exact List.take_left

/-- The whole array, where `avail()` would have to be more. -/
theorem view_long (v : FixedBuffer SIZE) : ¬ v.toStringView.length < SIZE := by
  rw [FixedBuffer.toStringView, v.size]
  exact Nat.lt_irrefl SIZE

theorem taken_buffer (v : FixedBuffer SIZE) : (Insertion.buffer v).operation.taken SIZE = [] := by
  rw [Insertion.operation, Operation.taken, Operation.advances, if_neg (view_long v), List.take_zero]

namespace Insertion
variable {i : Insertion SIZE}

theorem taken_of_whole (hsize : kMaxNumericSize ≤ SIZE) (hroom : i.rendering.length < SIZE)
    (h : i.Whole) : i.operation.taken SIZE = i.rendering := by
  cases i with
  | pointer v => cases h
  | buffer v => exact (taken_buffer v).trans h.symm
  | bool | char | cstring | unsignedChars | string | stringView | fmt | append =>
    exact Operation.taken_append hroom
  | short | unsignedShort | int | unsignedInt | long | unsignedLong | longLong | unsignedLongLong =>
    exact Operation.taken_appendInteger hsize _
  | float v | double v => exact Operation.taken_appendDouble hsize v

/-- Two bytes of a pointer are lost, and all of a buffer. -/
theorem length_taken_lt (h : ¬ i.Whole) : (i.operation.taken SIZE).length < i.rendering.length := by
  cases i with
  | pointer v =>
    rw [Operation.length_taken, operation, rendering, Operation.advances, ← detail.textHex_eq,
      List.length_append, List.length_cons, List.length_singleton]
    split <;> omega
  | buffer v =>
    rw [taken_buffer]
    exact List.length_pos_iff.mpr h
  | _ => exact absurd trivial h

/-- An insertion writes no more than its rendering and a `NUL`. -/
theorem extent_le (i : Insertion SIZE) : i.operation.extent SIZE ≤ i.rendering.length + 1 := by
  cases i with
  | pointer v =>
    rw [operation, rendering, Operation.extent, ← detail.textHex_eq, List.length_append,
      List.length_cons, List.length_singleton]
    split <;> omega
  | buffer v =>
    rw [operation, Operation.extent, if_neg (view_long v)]
    exact Nat.zero_le _
  | bool | char | cstring | unsignedChars | string | stringView | fmt | append =>
    simp only [operation, rendering, Operation.extent]
    split <;> omega
  | short | unsignedShort | int | unsignedInt | long | unsignedLong | longLong | unsignedLongLong =>
    simp only [operation, rendering, Operation.extent, ← detail.text_eq_decimal]
    split <;> omega
  | float v | double v =>
    simp only [operation, rendering, Operation.extent]
    split <;> omega

theorem length_taken_le (hsize : kMaxNumericSize ≤ SIZE) (hroom : i.rendering.length < SIZE) :
    (i.operation.taken SIZE).length ≤ i.rendering.length := by
  by_cases h : i.Whole
  · rw [taken_of_whole hsize hroom h]
  · exact Nat.le_of_lt (length_taken_lt h)

end Insertion

/-! ### A sequence -/

namespace LogStream

/-- What a sequence of insertions leaves in front of the cursor. -/
def taken (l : List (Insertion SIZE)) : List UInt8 := l.flatMap fun i => i.operation.taken SIZE

theorem rendering_cons (i : Insertion SIZE) (l : List (Insertion SIZE)) :
    rendering (i :: l) = i.rendering ++ rendering l := List.flatMap_cons

theorem taken_cons (i : Insertion SIZE) (l : List (Insertion SIZE)) :
    taken (i :: l) = i.operation.taken SIZE ++ taken l := List.flatMap_cons

/-- As long as the renderings leave a byte, no insertion leaves the array. -/
theorem foldlM_taken (hsize : kMaxNumericSize ≤ SIZE) (l : List (Insertion SIZE))
    (hroom : b.cur_ + (rendering l).length < SIZE) :
    ∃ c, l.foldlM LogStream.insert b = .ok c ∧ c.content = b.content ++ taken l ∧
      c.cur_ = b.cur_ + (taken l).length := by
  induction l generalizing b with
  | nil => exact ⟨b, rfl, (List.append_nil _).symm, rfl⟩
  | cons i l ih =>
    rw [rendering_cons, List.length_append] at hroom
    have hextent := i.extent_le
    have hle := i.length_taken_le hsize (by omega)
    have hlength : (i.operation.taken SIZE).length = _ := i.operation.length_taken
    obtain ⟨-, c, hc, hcur⟩ | ⟨hlt, -⟩ := reaches_perform (b := b) (by omega) i.operation
    · obtain ⟨d, hd, hcontent, hmoved⟩ := ih (b := c) (by omega)
      refine ⟨d, ?_, ?_, ?_⟩
      · rw [List.foldlM_cons, LogStream.insert, hc, ok_bind, hd]
      · rw [hcontent, content_perform hc, taken_cons, List.append_assoc]
      · rw [hmoved, hcur, taken_cons, List.length_append, hlength, Nat.add_assoc]
    · omega

theorem length_taken_le_rendering (hsize : kMaxNumericSize ≤ SIZE) (l : List (Insertion SIZE))
    (hroom : (rendering l).length < SIZE) : (taken l).length ≤ (rendering l).length := by
  induction l with
  | nil => exact Nat.le_refl _
  | cons i l ih =>
    rw [rendering_cons, List.length_append] at hroom ⊢
    have hle := i.length_taken_le hsize (by omega)
    rw [taken_cons, List.length_append]
    exact Nat.add_le_add hle (ih (by omega))

theorem taken_eq_rendering (hsize : kMaxNumericSize ≤ SIZE) {l : List (Insertion SIZE)}
    (hroom : (rendering l).length < SIZE) (h : ∀ i ∈ l, i.Whole) : taken l = rendering l := by
  induction l with
  | nil => rfl
  | cons i l ih =>
    obtain ⟨hi, hl⟩ := List.forall_mem_cons.mp h
    rw [rendering_cons, List.length_append] at hroom
    rw [taken_cons, rendering_cons, i.taken_of_whole hsize (by omega) hi, ih (by omega) hl]

/-- Where no byte is missing, no insertion has lost one. -/
theorem whole_of_length (hsize : kMaxNumericSize ≤ SIZE) {l : List (Insertion SIZE)}
    (hroom : (rendering l).length < SIZE) (h : (rendering l).length ≤ (taken l).length) :
    ∀ i ∈ l, i.Whole := by
  induction l with
  | nil => exact List.forall_mem_nil _
  | cons i l ih =>
    rw [rendering_cons, List.length_append] at hroom h
    rw [taken_cons, List.length_append] at h
    have hle := i.length_taken_le hsize (by omega)
    have hrest := length_taken_le_rendering hsize l (by omega)
    refine List.forall_mem_cons.mpr ⟨?_, ih (by omega) (by omega)⟩
    by_contra hi
    have := i.length_taken_lt hi
    omega

/-- From an empty buffer. -/
theorem new_taken (array : List UInt8) (l : List (Insertion array.length))
    (hroom : (rendering l).length + kMaxNumericSize ≤ array.length) :
    ∃ b, l.foldlM LogStream.insert (FixedBuffer.new array) = .ok b ∧ b.content = taken l ∧
      b.length = (taken l).length ∧ b.length < array.length := by
  have hsize : kMaxNumericSize ≤ array.length := by omega
  have hmax : kMaxNumericSize = 32 := rfl
  have hstart : (FixedBuffer.new array).cur_ = 0 := rfl
  have hempty : (FixedBuffer.new array).content = [] := List.take_zero
  have hle := length_taken_le_rendering hsize l (by omega)
  obtain ⟨b, hb, hcontent, hcur⟩ := foldlM_taken (b := .new array) hsize l (by omega)
  rw [hempty, List.nil_append] at hcontent
  rw [hstart, Nat.zero_add] at hcur
  exact ⟨b, hb, hcontent, hcur, by rw [FixedBuffer.length]; omega⟩

/-- Both views are of the whole array. -/
theorem views_ne_content (h : b.length < SIZE) :
    b.toString ≠ b.content ∧ b.toStringView ≠ b.content := by
  have hne : b.buffer_ ≠ b.content := by
    intro heq
    have hlength := congrArg List.length heq
    rw [FixedBuffer.content, List.length_take, b.size] at hlength
    omega
  exact ⟨hne, hne⟩

/-- **The buffer holds the renderings exactly as long as no pointer and no filled buffer is
inserted, and hands them out never.** -/
theorem stream_rendering (array : List UInt8) (l : List (Insertion array.length))
    (hroom : (rendering l).length + kMaxNumericSize ≤ array.length) :
    ∃ b, l.foldlM LogStream.insert (FixedBuffer.new array) = .ok b ∧
      ¬ b.Holds (rendering l) ∧
      (b.length = (rendering l).length ∧ b.content = rendering l ↔ ∀ i ∈ l, i.Whole) ∧
      b.toString ≠ b.content ∧ b.toStringView ≠ b.content := by
  have hsize : kMaxNumericSize ≤ array.length := by omega
  have hmax : kMaxNumericSize = 32 := rfl
  have hless : (rendering l).length < array.length := by omega
  obtain ⟨b, hb, hcontent, hlength, hshort⟩ := new_taken array l hroom
  have hviews := views_ne_content hshort
  refine ⟨b, hb, fun hholds => ?_, ⟨fun heq => ?_, fun hwhole => ?_⟩, hviews⟩
  · exact hviews.1 (hholds.toString_eq.trans hholds.content_eq.symm)
  · exact whole_of_length hsize hless (by rw [← heq.1, hlength])
  · rw [hlength, hcontent, taken_eq_rendering hsize hless hwhole]
    exact ⟨rfl, rfl⟩

theorem length_array : (List.replicate kSmallBufferSize (0 : UInt8)).length = 4000 :=
  List.length_replicate

/-- `"n="` and a number: held, and not handed out. -/
theorem stream_rendering_number :
    ∃ b, [.cstring (some [110, 61]), .int (-7)].foldlM LogStream.insert
        (FixedBuffer.new (List.replicate kSmallBufferSize 0)) = .ok b ∧
      b.content = [110, 61, 45, 55] ∧ b.toString ≠ b.content := by
  obtain ⟨b, hb, -, hiff, hviews⟩ := stream_rendering (List.replicate kSmallBufferSize 0)
    [.cstring (some [110, 61]), .int (-7)]
    (by rw [length_array]; decide)
  exact ⟨b, hb, (hiff.mpr (by simp [Insertion.Whole])).2, hviews.1⟩

/-- The pointer `0xABC` and then `'x'`: `"0xAx"`, and `toString` returns 4000 bytes. -/
theorem stream_rendering_pointer :
    let l : List (Insertion (List.replicate kSmallBufferSize (0 : UInt8)).length) :=
      [.pointer 0xABC, .char 120]
    rendering l = [48, 120, 65, 66, 67, 120] ∧
    ∃ b, l.foldlM LogStream.insert (FixedBuffer.new (List.replicate kSmallBufferSize 0)) = .ok b ∧
      b.content = [48, 120, 65, 120] ∧ b.length = 4 ∧ b.toString.length = 4000 ∧
      ¬ b.Holds (rendering l) := by
  intro l
  have hrendering : rendering l = [48, 120, 65, 66, 67, 120] := by decide
  have htaken : taken l = [48, 120, 65, 120] := by
    have hlist : taken l = (Operation.appendPointer 0xABC).taken _ ++
        ((Operation.append [120]).taken _ ++ []) := rfl
    rw [hlist, length_array]
    decide
  obtain ⟨b, hb, hcontent, hlength, -⟩ := new_taken (List.replicate kSmallBufferSize 0) l
    (by rw [hrendering, length_array]; decide)
  rw [htaken] at hcontent hlength
  refine ⟨hrendering, b, hb, hcontent, hlength, b.size.trans length_array, fun hholds => ?_⟩
  have hwrong := hholds.content_eq
  rw [hcontent, hrendering] at hwrong
  exact absurd hwrong (by decide)

end LogStream
end Leanet

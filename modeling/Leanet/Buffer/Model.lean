import Leanet.Foundation.Bytes
import Leanet.Foundation.Fault

/-! The network buffer.

A vector with two indices into it: the readable bytes lie between `readerIndex` and
`writerIndex`, the space before them is for `prepend`, the space behind for
`append`. Pointers into the vector (`peek`, `beginWrite`, the argument of
`retrieveUntil`) are offsets from its begin; `size_t` is `Nat`, so a difference is
only what the source computes while the indices are in order (`Valid`).

The second half is one lemma per operation: from a valid buffer and an argument in
range the operation answers, the result is valid, and its readable bytes are what a
queue of bytes would hold. -/
namespace Leanet
open Bytes (slice store slide resize)

structure Buffer where
  buffer : List UInt8
  readerIndex : Nat
  writerIndex : Nat
  deriving DecidableEq, Repr

/-- A pointer, read as the memory behind it, and a length. -/
structure StringView where
  data : List UInt8
  length : Nat
  deriving DecidableEq, Repr

namespace Buffer

def kCheapPrepend : Nat := 8
def kInitialSize : Nat := 1024

def readableBytes (b : Buffer) : Nat := b.writerIndex - b.readerIndex
def writableBytes (b : Buffer) : Nat := b.buffer.length - b.writerIndex
def prependableBytes (b : Buffer) : Nat := b.readerIndex
def peek (b : Buffer) : Nat := b.readerIndex
def beginWrite (b : Buffer) : Nat := b.writerIndex

/-- `Buffer(initialSize)`. -/
def new (initialSize : Nat := kInitialSize) : Except Fault Buffer := do
  let b : Buffer := ⟨List.replicate (kCheapPrepend + initialSize) 0, kCheapPrepend, kCheapPrepend⟩
  assert (b.readableBytes = 0)
  assert (b.writableBytes = initialSize)
  assert (b.prependableBytes = kCheapPrepend)
  pure b

/-- `a.swap(b)`, both buffers after it. -/
def swap (a b : Buffer) : Buffer × Buffer :=
  (⟨b.buffer, b.readerIndex, b.writerIndex⟩, ⟨a.buffer, a.readerIndex, a.writerIndex⟩)

def prepend (b : Buffer) (data : List UInt8) (len : Nat) : Except Fault Buffer := do
  assert (len ≤ b.prependableBytes)
  let b := { b with readerIndex := b.readerIndex - len }
  pure { b with buffer := store b.buffer b.readerIndex (data.take len) }

def retrieveAll (b : Buffer) : Buffer :=
  { b with readerIndex := kCheapPrepend, writerIndex := kCheapPrepend }

def retrieve (b : Buffer) (len : Nat) : Except Fault Buffer := do
  assert (len ≤ b.readableBytes)
  if len < b.readableBytes then
    pure { b with readerIndex := b.readerIndex + len }
  else
    pure b.retrieveAll

/-- `retrieveUntil(end)`, the pointer `end` as an offset. -/
def retrieveUntil (b : Buffer) (stop : Nat) : Except Fault Buffer := do
  assert (b.peek ≤ stop)
  assert (stop ≤ b.beginWrite)
  b.retrieve (stop - b.peek)

def retrieveAsString (b : Buffer) (len : Nat) : Except Fault (List UInt8 × Buffer) := do
  assert (len ≤ b.readableBytes)
  let ret := slice b.buffer b.peek (b.peek + len)
  let b ← b.retrieve len
  pure (ret, b)

def retrieveAllAsString (b : Buffer) : Except Fault (List UInt8 × Buffer) :=
  b.retrieveAsString b.readableBytes

def hasWritten (b : Buffer) (len : Nat) : Except Fault Buffer := do
  assert (len ≤ b.writableBytes)
  pure { b with writerIndex := b.writerIndex + len }

def unwrite (b : Buffer) (len : Nat) : Except Fault Buffer := do
  assert (len ≤ b.readableBytes)
  pure { b with writerIndex := b.writerIndex - len }

/-- Grow behind the written bytes, or move them back to the reserve. -/
def extend (b : Buffer) (len : Nat) : Except Fault Buffer :=
  if b.writableBytes + b.prependableBytes < len + kCheapPrepend then
    pure { b with buffer := resize b.buffer (b.writerIndex + len) }
  else do
    assert (kCheapPrepend < b.readerIndex)
    let readable := b.readableBytes
    let b := { b with
      buffer := slide b.buffer b.readerIndex kCheapPrepend (b.writerIndex - b.readerIndex)
      readerIndex := kCheapPrepend
      writerIndex := kCheapPrepend + readable }
    assert (readable = b.readableBytes)
    pure b

def ensureWritableBytes (b : Buffer) (len : Nat) : Except Fault Buffer := do
  let b ← if b.writableBytes < len then b.extend len else pure b
  assert (len ≤ b.writableBytes)
  pure b

def append (b : Buffer) (data : List UInt8) (len : Nat) : Except Fault Buffer := do
  let b ← b.ensureWritableBytes len
  let b := { b with buffer := store b.buffer b.beginWrite (data.take len) }
  b.hasWritten len

/-- `append(const void*, size_t)`. -/
def appendVoid (b : Buffer) (data : List UInt8) (len : Nat) : Except Fault Buffer :=
  b.append data len

/-- `append(const StringView&)`. -/
def appendView (b : Buffer) (view : StringView) : Except Fault Buffer :=
  b.append view.data view.length

/-- `append(const string&)`. -/
def appendString (b : Buffer) (str : List UInt8) : Except Fault Buffer :=
  b.append str str.length

/-- What a reader sees: `buffer_[readerIndex_, writerIndex_)`. -/
def content (b : Buffer) : List UInt8 := slice b.buffer b.readerIndex b.writerIndex

/-- The indices are in order and the vector holds the reserve. -/
structure Valid (b : Buffer) : Prop where
  ordered : b.readerIndex ≤ b.writerIndex
  bounded : b.writerIndex ≤ b.buffer.length
  reserve : kCheapPrepend ≤ b.buffer.length

/-! ### One lemma per operation -/

/-- A fresh buffer is empty behind the reserve. -/
def initial (initialSize : Nat) : Buffer :=
  ⟨List.replicate (kCheapPrepend + initialSize) 0, kCheapPrepend, kCheapPrepend⟩

theorem new_eq (initialSize : Nat) : new initialSize = .ok (initial initialSize) := by
  simp [new, initial, readableBytes, writableBytes, prependableBytes]

theorem initial_valid (initialSize : Nat) : (initial initialSize).Valid :=
  ⟨Nat.le_refl _, by simp [initial], by simp [initial]⟩

theorem initial_content (initialSize : Nat) : (initial initialSize).content = [] :=
  Bytes.slice_self _ _

variable {b : Buffer}

theorem length_content (h : b.Valid) : b.content.length = b.readableBytes :=
  Bytes.length_slice _ _ _ h.bounded

theorem content_eq_nil (h : b.Valid) : b.content = [] ↔ b.readableBytes = 0 := by
  rw [← List.length_eq_zero_iff, length_content h]

theorem prepend_spec (h : b.Valid) {data : List UInt8} {len : Nat} (hlen : len ≤ b.prependableBytes)
    (hdata : len ≤ data.length) :
    ∃ b', b.prepend data len = .ok b' ∧ b'.Valid ∧ b'.content = data.take len ++ b.content := by
  obtain ⟨hr, hw, hres⟩ := h
  rw [prepend, assert_holds hlen]
  simp only [prependableBytes] at hlen
  have htake : (data.take len).length = len := by rw [List.length_take]; omega
  have hend : b.readerIndex - len + (data.take len).length = b.readerIndex := by omega
  refine ⟨_, rfl, ⟨?_, ?_, ?_⟩, ?_⟩
  · show b.readerIndex - len ≤ b.writerIndex
    omega
  · simpa using hw
  · simpa using hres
  · have hfront := Bytes.slice_store b.buffer (data.take len) (b.readerIndex - len) (by omega)
    have hback : slice (store b.buffer (b.readerIndex - len) (data.take len)) b.readerIndex
        b.writerIndex = slice b.buffer b.readerIndex b.writerIndex :=
      Bytes.slice_store_frame b.buffer (data.take len) (by omega) (.inr (by omega))
    rw [hend] at hfront
    show slice (store b.buffer (b.readerIndex - len) (data.take len)) (b.readerIndex - len)
      b.writerIndex = _
    rw [← Bytes.slice_append _ (Nat.sub_le b.readerIndex len) hr, hfront, hback]
    rfl

theorem retrieveAll_valid (h : b.Valid) : b.retrieveAll.Valid := ⟨Nat.le_refl _, h.reserve, h.reserve⟩

theorem retrieveAll_content (b : Buffer) : b.retrieveAll.content = [] := Bytes.slice_self _ _

theorem retrieve_spec (h : b.Valid) {len : Nat} (hlen : len ≤ b.readableBytes) :
    ∃ b', b.retrieve len = .ok b' ∧ b'.Valid ∧ b'.content = b.content.drop len := by
  rw [retrieve, assert_holds hlen]
  simp only [readableBytes] at hlen ⊢
  by_cases hlt : len < b.writerIndex - b.readerIndex
  · refine ⟨{ b with readerIndex := b.readerIndex + len }, by simp [hlt],
      ⟨?_, h.bounded, h.reserve⟩, (Bytes.drop_slice _ _ _ _).symm⟩
    show b.readerIndex + len ≤ b.writerIndex
    omega
  · refine ⟨b.retrieveAll, by simp [hlt], retrieveAll_valid h, ?_⟩
    rw [retrieveAll_content, List.drop_eq_nil_of_le]
    rw [length_content h, readableBytes]
    omega

theorem retrieveUntil_spec (h : b.Valid) {stop : Nat} (hlo : b.readerIndex ≤ stop)
    (hhi : stop ≤ b.writerIndex) :
    ∃ b', b.retrieveUntil stop = .ok b' ∧ b'.Valid ∧
      b'.content = b.content.drop (stop - b.readerIndex) := by
  rw [retrieveUntil, assert_holds (show b.peek ≤ stop from hlo),
    assert_holds (show stop ≤ b.beginWrite from hhi)]
  exact retrieve_spec h (by simp only [readableBytes, peek]; omega)

theorem retrieveAsString_spec (h : b.Valid) {len : Nat} (hlen : len ≤ b.readableBytes) :
    ∃ b', b.retrieveAsString len = .ok (b.content.take len, b') ∧ b'.Valid ∧
      b'.content = b.content.drop len := by
  obtain ⟨b', hb, hv, hc⟩ := retrieve_spec h hlen
  refine ⟨b', ?_, hv, hc⟩
  have hle : b.readerIndex + len ≤ b.writerIndex := by
    have := h.ordered
    simp only [readableBytes] at hlen
    omega
  simp only [retrieveAsString, assert_holds hlen, hb, peek, content, Bytes.take_slice _ hle]
  rfl

theorem hasWritten_spec (h : b.Valid) {data : List UInt8} (hlen : data.length ≤ b.writableBytes) :
    ∃ b', ({ b with buffer := store b.buffer b.beginWrite data } : Buffer).hasWritten data.length =
        .ok b' ∧ b'.Valid ∧ b'.content = b.content ++ data := by
  obtain ⟨hr, hw, hres⟩ := h
  have hfits : data.length ≤ ({ b with buffer := store b.buffer b.beginWrite data } :
      Buffer).writableBytes := by
    simpa only [writableBytes, Bytes.length_store] using hlen
  rw [hasWritten, assert_holds hfits]
  simp only [writableBytes] at hlen
  have hroom : b.writerIndex + data.length ≤ b.buffer.length := by omega
  refine ⟨_, rfl, ⟨?_, ?_, ?_⟩, ?_⟩
  · show b.readerIndex ≤ b.writerIndex + data.length
    omega
  · simpa [beginWrite] using hroom
  · simpa using hres
  · show slice (store b.buffer b.writerIndex data) b.readerIndex (b.writerIndex + data.length) = _
    rw [← Bytes.slice_append _ hr (Nat.le_add_right _ _), Bytes.slice_store _ _ _ hroom,
      Bytes.slice_store_frame _ _ hroom (.inl (Nat.le_refl _))]
    rfl

theorem unwrite_spec (h : b.Valid) {len : Nat} (hlen : len ≤ b.readableBytes) :
    ∃ b', b.unwrite len = .ok b' ∧ b'.Valid ∧
      b'.content = b.content.take (b.content.length - len) := by
  have hcontent := length_content h
  obtain ⟨hr, hw, hres⟩ := h
  rw [unwrite, assert_holds hlen]
  simp only [readableBytes] at hlen hcontent
  refine ⟨_, rfl, ⟨?_, ?_, hres⟩, ?_⟩
  · show b.readerIndex ≤ b.writerIndex - len
    omega
  · show b.writerIndex - len ≤ b.buffer.length
    omega
  · have hend : b.readerIndex + (b.content.length - len) = b.writerIndex - len := by omega
    have htake : b.content.take (b.content.length - len) =
        slice b.buffer b.readerIndex (b.readerIndex + (b.content.length - len)) :=
      Bytes.take_slice _ (by omega)
    rw [htake, hend]
    rfl

/-- Compaction only happens with more than the reserve in front, and frees
exactly that. -/
theorem extend_spec (h : b.Valid) {len : Nat} (hlen : b.writableBytes < len) :
    ∃ b', b.extend len = .ok b' ∧ b'.Valid ∧ b'.content = b.content ∧ len ≤ b'.writableBytes := by
  obtain ⟨hr, hw, hres⟩ := h
  simp only [writableBytes] at hlen
  unfold extend
  split
  · next hgrow =>
    have hle : b.buffer.length ≤ b.writerIndex + len := by omega
    refine ⟨_, rfl, ⟨hr, ?_, ?_⟩, Bytes.slice_resize _ hw hle, ?_⟩
    · show b.writerIndex ≤ (resize b.buffer (b.writerIndex + len)).length
      rw [Bytes.length_resize]
      omega
    · show kCheapPrepend ≤ (resize b.buffer (b.writerIndex + len)).length
      rw [Bytes.length_resize]
      omega
    · show len ≤ (resize b.buffer (b.writerIndex + len)).length - b.writerIndex
      rw [Bytes.length_resize]
      omega
  · next hmove =>
    simp only [writableBytes, prependableBytes] at hmove
    have hfront : kCheapPrepend < b.readerIndex := by omega
    have hmoved : b.readerIndex + (b.writerIndex - b.readerIndex) = b.writerIndex := by omega
    have hsame : b.readableBytes = (⟨slide b.buffer b.readerIndex kCheapPrepend
        (b.writerIndex - b.readerIndex), kCheapPrepend, kCheapPrepend + b.readableBytes⟩ :
        Buffer).readableBytes := (Nat.add_sub_cancel_left ..).symm
    rw [assert_holds hfront, ok_bind]
    dsimp only
    rw [assert_holds hsame]
    refine ⟨_, rfl, ⟨?_, ?_, ?_⟩, ?_, ?_⟩
    · exact Nat.le_add_right _ _
    · show kCheapPrepend + (b.writerIndex - b.readerIndex) ≤ (slide _ _ _ _).length
      rw [Bytes.length_slide]
      omega
    · simpa using hres
    · show slice (slide b.buffer b.readerIndex kCheapPrepend (b.writerIndex - b.readerIndex))
        kCheapPrepend (kCheapPrepend + (b.writerIndex - b.readerIndex)) = _
      rw [Bytes.slice_slide _ _ _ _ (Nat.le_of_lt hfront) (by omega), hmoved]
      rfl
    · show len ≤ (slide _ _ _ _).length - (kCheapPrepend + (b.writerIndex - b.readerIndex))
      rw [Bytes.length_slide]
      omega

theorem ensureWritableBytes_spec (h : b.Valid) (len : Nat) :
    ∃ b', b.ensureWritableBytes len = .ok b' ∧ b'.Valid ∧ b'.content = b.content ∧
      len ≤ b'.writableBytes := by
  by_cases hlt : b.writableBytes < len
  · obtain ⟨b', hb, hv, hc, hw⟩ := extend_spec h hlt
    exact ⟨b', by simp [ensureWritableBytes, hlt, hb, hw], hv, hc, hw⟩
  · have hw : len ≤ b.writableBytes := by omega
    exact ⟨b, by simp [ensureWritableBytes, hlt, hw], h, rfl, hw⟩

theorem append_spec (h : b.Valid) {data : List UInt8} {len : Nat} (hdata : len ≤ data.length) :
    ∃ b', b.append data len = .ok b' ∧ b'.Valid ∧ b'.content = b.content ++ data.take len := by
  obtain ⟨e, he, hv, hc, hw⟩ := ensureWritableBytes_spec h len
  have htake : (data.take len).length = len := by rw [List.length_take]; omega
  obtain ⟨b', hb, hv', hc'⟩ := hasWritten_spec hv (show (data.take len).length ≤ e.writableBytes by omega)
  rw [htake] at hb
  exact ⟨b', by simp [append, he, hb], hv', by rw [hc', hc]⟩

end Buffer
end Leanet

import Leanet.Buffer.Model

/-! The circular buffer.

The readable bytes begin at `readerIndex` and go round the end of the array to `writerIndex`;
one byte of the array always stays free, so that a full buffer is not taken for an empty one.
A byte of the array is `none` before it is first written. Sizes are `size_t`, and
`readableBytes` goes through an `int`.

`append` may call `extend`, which appends to a larger buffer; `depth` is how many calls of
`extend` may be inside one another. One is enough: the second half of the module says so, one
lemma for each operation, with what a queue of bytes would hold. -/
namespace Leanet
open Bytes (slice store)

/-- A byte of memory, if it has been written. -/
abbrev Cell := Option UInt8

structure CircularBuffer where
  size : Nat
  buffer : List Cell
  writerIndex : Nat
  readerIndex : Nat
  deriving DecidableEq, Repr

namespace CircularBuffer

/-- How an operation stops: by a fault, or because `extend` goes too deep. -/
inductive Stop where
  | fault (f : Fault)
  | nested
  deriving DecidableEq, Repr

instance : MonadLift (Except Fault) (Except Stop) := ⟨fun x => x.mapError .fault⟩

def kInitialSize : Nat := 1024

/-- A number as a `size_t`. -/
def size_t (n : Int) : Nat := (n % 18446744073709551616).toNat

/-- A number as an `int`. -/
def int (n : Int) : Int := n.bmod 4294967296

def readableBytes (b : CircularBuffer) : Except Fault Nat := do
  let diff := int (size_t (b.writerIndex - b.readerIndex))
  let diff := if diff < 0 then int (size_t (diff + b.size)) else diff
  assert (0 ≤ diff)
  pure (size_t diff)

def writableBytes (b : CircularBuffer) : Except Fault Nat := do
  pure (size_t (b.size - 1 - (← b.readableBytes)))

/-- `Buffer(initialSize)`. -/
def new (initialSize : Nat := kInitialSize) : Except Fault CircularBuffer := do
  let size := size_t (initialSize + 1)
  let b : CircularBuffer := ⟨size, List.replicate size none, 0, 0⟩
  assert ((← b.readableBytes) = 0)
  assert ((← b.writableBytes) = size_t (b.size - 1))
  pure b

def needRewind (b : CircularBuffer) : Bool := b.readerIndex > b.writerIndex

/-- `Buffer(other)`. -/
def copy (other : CircularBuffer) : CircularBuffer :=
  let b : CircularBuffer :=
    ⟨other.size, List.replicate other.size none, other.writerIndex, other.readerIndex⟩
  if other.needRewind then
    let buffer := store b.buffer b.readerIndex (slice other.buffer other.readerIndex other.size)
    { b with buffer := store buffer 0 (slice other.buffer 0 other.writerIndex) }
  else
    let buffer := store b.buffer b.readerIndex (slice other.buffer other.readerIndex other.writerIndex)
    { b with buffer }

/-- `a.swap(b)`, both buffers after it. -/
def swap (a b : CircularBuffer) : CircularBuffer × CircularBuffer :=
  (⟨b.size, b.buffer, b.writerIndex, b.readerIndex⟩,
    ⟨a.size, a.buffer, a.writerIndex, a.readerIndex⟩)

/-- `b = other`: the copy swapped with `b`. -/
def assign (b other : CircularBuffer) : CircularBuffer := (swap other.copy b).2

def writeAhead (b : CircularBuffer) (len : Nat) : CircularBuffer :=
  { b with writerIndex := size_t (b.writerIndex + len) % b.size }

def readAhead (b : CircularBuffer) (len : Nat) : CircularBuffer :=
  { b with readerIndex := size_t (b.readerIndex + len) % b.size }

/-- What `append` does once there is room; `data` is the memory behind the pointer. -/
def put (b : CircularBuffer) (data : List Cell) (len : Nat) : CircularBuffer :=
  let last := size_t (b.writerIndex + len)
  let buffer :=
    if last ≤ b.size then store b.buffer b.writerIndex (data.take len)
    else
      let n := b.size - b.writerIndex
      store (store b.buffer b.writerIndex (data.take n)) 0 ((data.take len).drop n)
  { b with buffer }.writeAhead len

section
variable (extend : CircularBuffer → Nat → Except Stop CircularBuffer)

def ensureWritableBytesBy (b : CircularBuffer) (len : Nat) : Except Stop CircularBuffer := do
  let b ← if (← b.writableBytes) < len then extend b len else pure b
  assert ((← b.writableBytes) ≥ len)
  pure b

def appendBy (b : CircularBuffer) (data : List Cell) (len : Nat) : Except Stop CircularBuffer := do
  let b ← ensureWritableBytesBy extend b len
  pure (b.put data len)

end

def extend : Nat → CircularBuffer → Nat → Except Stop CircularBuffer
  | 0, _, _ => .error .nested
  | depth + 1, b, len => do
    let rlen ← b.readableBytes
    let len := size_t (len + rlen)
    let len := size_t (len * 2)
    let tmp ← new len
    let tmp ← if b.needRewind then do
        let tmp ← appendBy (extend depth) tmp (b.buffer.drop b.readerIndex) (b.size - b.readerIndex)
        appendBy (extend depth) tmp b.buffer b.writerIndex
      else do
        appendBy (extend depth) tmp (b.buffer.drop b.readerIndex) (← b.readableBytes)
    pure (swap tmp b).2

def ensureWritableBytes (depth : Nat) : CircularBuffer → Nat → Except Stop CircularBuffer :=
  ensureWritableBytesBy (extend depth)

def append (depth : Nat) : CircularBuffer → List Cell → Nat → Except Stop CircularBuffer :=
  appendBy (extend depth)

/-- `append(const void*, size_t)`. -/
def appendVoid (depth : Nat) (b : CircularBuffer) (data : List Cell) (len : Nat) :
    Except Stop CircularBuffer := b.append depth data len

/-- `append(const StringView&)`. -/
def appendView (depth : Nat) (b : CircularBuffer) (view : StringView) :
    Except Stop CircularBuffer := b.append depth (view.data.map some) view.length

/-- `append(const string&)`. -/
def appendString (depth : Nat) (b : CircularBuffer) (str : List UInt8) :
    Except Stop CircularBuffer := b.append depth (str.map some) str.length

def retrieveAll (b : CircularBuffer) : CircularBuffer := { b with readerIndex := 0, writerIndex := 0 }

def retrieve (b : CircularBuffer) (len : Nat) : Except Fault CircularBuffer := do
  if len < (← b.readableBytes) then pure (b.readAhead len) else pure b.retrieveAll

/-- The string of the cells, which must have been written. -/
def string : List Cell → Except Fault (List UInt8)
  | [] => pure []
  | cell :: cells => do
    let c ← deref cell
    let cs ← string cells
    pure (c :: cs)

/-- All that is readable is handed out, whatever `len` says, and `len` bytes are dropped. -/
def retrieveAsString (b : CircularBuffer) (len : Nat) :
    Except Fault (List UInt8 × CircularBuffer) := do
  let len := min (← b.readableBytes) len
  let result ← if b.needRewind then
      string (slice b.buffer b.readerIndex b.size ++ slice b.buffer 0 b.writerIndex)
    else string (slice b.buffer b.readerIndex b.writerIndex)
  let b ← b.retrieve len
  pure (result, b)

def retrieveAllAsString (b : CircularBuffer) : Except Fault (List UInt8 × CircularBuffer) := do
  b.retrieveAsString (← b.readableBytes)

/-- What a reader sees: from `readerIndex` round to `writerIndex`. -/
def content (b : CircularBuffer) : List Cell :=
  if b.readerIndex ≤ b.writerIndex then slice b.buffer b.readerIndex b.writerIndex
  else slice b.buffer b.readerIndex b.size ++ slice b.buffer 0 b.writerIndex

/-- The indices are in the array, and an `int` holds the capacity. -/
structure Valid (b : CircularBuffer) : Prop where
  length : b.buffer.length = b.size
  reader : b.readerIndex < b.size
  writer : b.writerIndex < b.size
  bounded : b.size ≤ 2147483647

/-! ### Sizes -/

theorem size_t_of_lt {n : Int} (h₀ : 0 ≤ n) (h : n < 18446744073709551616) : (size_t n : Int) = n := by
  unfold size_t
  omega

/-- A difference that an `int` holds survives `size_t`. -/
theorem int_size_t {n : Int} (h₀ : -2147483648 ≤ n) (h : n < 2147483648) : int (size_t n) = n := by
  simp only [int, size_t, Int.bmod_def]
  omega

variable {b : CircularBuffer}

theorem length_content (h : b.Valid) : b.content.length =
    if b.readerIndex ≤ b.writerIndex then b.writerIndex - b.readerIndex
    else b.size - b.readerIndex + b.writerIndex := by
  obtain ⟨hlen, hr, hw, -⟩ := h
  unfold content
  split
  · rw [Bytes.length_slice _ _ _ (by omega)]
  · rw [List.length_append, Bytes.length_slice _ _ _ (by omega), Bytes.length_slice _ _ _ (by omega),
      Nat.sub_zero]

/-- One byte stays free. -/
theorem length_content_lt (h : b.Valid) : b.content.length ≤ b.size - 1 := by
  have hr := h.reader
  have hw := h.writer
  rw [length_content h]
  split <;> omega

theorem readableBytes_eq (h : b.Valid) : b.readableBytes = .ok b.content.length := by
  have hr := h.reader
  have hw := h.writer
  have hb := h.bounded
  have hlen := length_content h
  have hdiff : int (size_t (b.writerIndex - b.readerIndex)) = b.writerIndex - b.readerIndex :=
    int_size_t (by omega) (by omega)
  simp only [readableBytes, hdiff]
  split at hlen
  · have hpos : 0 ≤ (b.writerIndex : Int) - b.readerIndex := by omega
    rw [if_neg (by omega), assert_holds hpos, ok_bind, pure_eq_ok, Except.ok.injEq]
    have := size_t_of_lt hpos (by omega)
    omega
  · have hsum : int (size_t ((b.writerIndex : Int) - b.readerIndex + b.size)) =
        b.writerIndex - b.readerIndex + b.size := int_size_t (by omega) (by omega)
    have hpos : 0 ≤ (b.writerIndex : Int) - b.readerIndex + b.size := by omega
    rw [if_pos (by omega), hsum, assert_holds hpos, ok_bind, pure_eq_ok, Except.ok.injEq]
    have := size_t_of_lt hpos (by omega)
    omega

theorem writableBytes_eq (h : b.Valid) : b.writableBytes = .ok (b.size - 1 - b.content.length) := by
  have hr := h.reader
  have hb := h.bounded
  have hlen := length_content_lt h
  rw [writableBytes, readableBytes_eq h, ok_bind, pure_eq_ok, Except.ok.injEq]
  have := size_t_of_lt (n := b.size - 1 - b.content.length) (by omega) (by omega)
  omega

/-! ### One lemma per operation -/

/-- A fresh buffer: empty, nothing written. -/
def initial (initialSize : Nat) : CircularBuffer :=
  ⟨initialSize + 1, List.replicate (initialSize + 1) none, 0, 0⟩

theorem initial_valid {initialSize : Nat} (h : initialSize < 2147483647) :
    (initial initialSize).Valid :=
  ⟨by simp [initial], Nat.succ_pos _, Nat.succ_pos _, h⟩

theorem initial_content (initialSize : Nat) : (initial initialSize).content = [] :=
  (if_pos (Nat.le_refl _)).trans (Bytes.slice_self _ _)

theorem new_eq {initialSize : Nat} (h : initialSize < 2147483647) :
    new initialSize = .ok (initial initialSize) := by
  have hsize : size_t (initialSize + 1) = initialSize + 1 := by
    have := size_t_of_lt (n := initialSize + 1) (by omega) (by omega)
    omega
  have hcap : size_t ((initialSize + 1 : Nat) - 1) = initialSize := by
    have := size_t_of_lt (n := (initialSize + 1 : Nat) - 1) (by omega) (by omega)
    omega
  have hv := initial_valid h
  have hread := readableBytes_eq hv
  have hwrite := writableBytes_eq hv
  rw [initial_content] at hread hwrite
  simp only [initial, List.length_nil, Nat.add_sub_cancel, Nat.sub_zero] at hread hwrite
  simp only [new, hsize, hread, hwrite, hcap, ok_bind, assert_holds, pure_eq_ok]
  rfl

theorem size_t_add {m n : Nat} (h : m + n < 18446744073709551616) : size_t (m + n : Nat) = m + n := by
  have := size_t_of_lt (n := (m + n : Nat)) (by omega) (by omega)
  omega

/-- Where the writer ends up: past the end it goes on at the beginning. -/
theorem mod_size {size n : Nat} (h : n < 2 * size) :
    n % size = if n < size then n else n - size := by
  split
  · next hlt => exact Nat.mod_eq_of_lt hlt
  · next hge => rw [Nat.mod_eq_sub_mod (by omega), Nat.mod_eq_of_lt (by omega)]

section
variable {data : List Cell} {len : Nat} (h : b.Valid) (hdata : len ≤ data.length)
  (hroom : b.content.length + len ≤ b.size - 1)
include h hdata hroom

/-- The bytes fit behind the writer, and may reach the end of the array. -/
theorem put_straight (hlast : b.writerIndex + len ≤ b.size) :
    (b.put data len).Valid ∧ (b.put data len).content = b.content ++ data.take len := by
  have hlen := length_content h
  obtain ⟨hbuf, hr, hw, hb⟩ := h
  have htake : (data.take len).length = len := by rw [List.length_take]; omega
  have hfits : b.writerIndex + (data.take len).length ≤ b.buffer.length := by omega
  have hsum : size_t ((b.writerIndex : Int) + len) = b.writerIndex + len := by
    simpa using size_t_add (m := b.writerIndex) (n := len) (by omega)
  have hput : b.put data len = ⟨b.size, store b.buffer b.writerIndex (data.take len),
      if b.writerIndex + len < b.size then b.writerIndex + len else b.writerIndex + len - b.size,
      b.readerIndex⟩ := by
    simp only [put, writeAhead, hsum, if_pos hlast, mod_size (show b.writerIndex + len < 2 * b.size by omega)]
  have hstored : slice (store b.buffer b.writerIndex (data.take len)) b.writerIndex
      (b.writerIndex + len) = data.take len := by
    have := Bytes.slice_store b.buffer (data.take len) b.writerIndex hfits
    rwa [htake] at this
  have hkept (lo hi : Nat) (hout : hi ≤ b.writerIndex ∨ b.writerIndex + len ≤ lo) :
      slice (store b.buffer b.writerIndex (data.take len)) lo hi = slice b.buffer lo hi :=
    Bytes.slice_store_frame _ _ hfits (by rwa [htake])
  rw [hput]
  refine ⟨⟨by rw [Bytes.length_store, hbuf], hr, ?_, hb⟩, ?_⟩
  · show (if b.writerIndex + len < b.size then b.writerIndex + len
      else b.writerIndex + len - b.size) < b.size
    split <;> omega
  by_cases hwrap : b.writerIndex + len < b.size
  · simp only [content, if_pos hwrap]
    by_cases hrw : b.readerIndex ≤ b.writerIndex
    · rw [if_pos (by omega), if_pos hrw, ← Bytes.slice_append _ hrw (Nat.le_add_right _ len), hstored,
        hkept _ _ (.inl (Nat.le_refl _))]
    · rw [if_neg hrw] at hlen
      rw [if_neg (by omega), if_neg hrw,
        ← Bytes.slice_append _ (Nat.zero_le _) (Nat.le_add_right b.writerIndex len), hstored,
        hkept _ _ (.inl (Nat.le_refl _)), hkept _ _ (.inr (by omega)), List.append_assoc]
  · -- the writer has come to the end of the array, the reader is not at its beginning
    have hrw : b.readerIndex ≤ b.writerIndex := by
      by_contra hrw
      rw [if_neg hrw] at hlen
      omega
    have hend : b.size = b.writerIndex + len := by omega
    have hzero : b.writerIndex + len - b.size = 0 := by omega
    rw [if_pos hrw] at hlen
    simp only [content, if_neg hwrap, hzero, if_pos hrw]
    rw [if_neg (by omega), Bytes.slice_self, List.append_nil,
      ← Bytes.slice_append _ hrw (Nat.le_of_lt hw), hend, hstored, hkept _ _ (.inl (Nat.le_refl _))]

/-- The bytes go round the end of the array. -/
theorem put_round (hlast : ¬ b.writerIndex + len ≤ b.size) :
    (b.put data len).Valid ∧ (b.put data len).content = b.content ++ data.take len := by
  have hlen := length_content h
  obtain ⟨hbuf, hr, hw, hb⟩ := h
  have hrw : b.readerIndex ≤ b.writerIndex := by
    by_contra hrw
    rw [if_neg hrw] at hlen
    omega
  rw [if_pos hrw] at hlen
  -- `n` bytes up to the end, `m` from the beginning
  obtain ⟨n, hn⟩ : ∃ n, n = b.size - b.writerIndex := ⟨_, rfl⟩
  obtain ⟨m, hm⟩ : ∃ m, m = len - n := ⟨_, rfl⟩
  have hfirst : (data.take n).length = n := by rw [List.length_take]; omega
  have hsecond : ((data.take len).drop n).length = m := by
    rw [List.length_drop, List.length_take]
    omega
  have hsplit : data.take n ++ (data.take len).drop n = data.take len := by
    have := List.take_append_drop n (data.take len)
    rwa [List.take_take, Nat.min_eq_left (by omega)] at this
  have hsum : size_t ((b.writerIndex : Int) + len) = b.writerIndex + len := by
    simpa using size_t_add (m := b.writerIndex) (n := len) (by omega)
  have hmod : (b.writerIndex + len) % b.size = m := by
    rw [mod_size (by omega), if_neg (by omega)]
    omega
  obtain ⟨buffer, hbuffer⟩ : ∃ buffer, buffer = store b.buffer b.writerIndex (data.take n) := ⟨_, rfl⟩
  have hput : b.put data len =
      ⟨b.size, store buffer 0 ((data.take len).drop n), m, b.readerIndex⟩ := by
    simp only [put, writeAhead, hsum, if_neg hlast, hmod, ← hn, ← hbuffer]
  have hfits : b.writerIndex + (data.take n).length ≤ b.buffer.length := by omega
  have hfits' : 0 + ((data.take len).drop n).length ≤ buffer.length := by
    rw [hbuffer, Bytes.length_store]
    omega
  have hend : slice buffer b.writerIndex b.size = data.take n := by
    have := Bytes.slice_store b.buffer (data.take n) b.writerIndex hfits
    rwa [hfirst, show b.writerIndex + n = b.size by omega, ← hbuffer] at this
  have hbegin : slice (store buffer 0 ((data.take len).drop n)) 0 m = (data.take len).drop n := by
    have := Bytes.slice_store buffer ((data.take len).drop n) 0 hfits'
    rwa [hsecond, Nat.zero_add] at this
  rw [hput]
  refine ⟨⟨by simp [hbuffer, hbuf], hr, show m < b.size by omega, hb⟩, ?_⟩
  simp only [content]
  rw [if_neg (by omega), if_pos hrw, hbegin, Bytes.slice_store_frame _ _ hfits' (.inr (by omega)),
    ← Bytes.slice_append _ hrw (Nat.le_of_lt hw), hend, hbuffer,
    Bytes.slice_store_frame _ _ hfits (.inl (Nat.le_refl _)), List.append_assoc, hsplit]

/-- `put` is a queue's push where there is room. -/
theorem put_spec : (b.put data len).Valid ∧ (b.put data len).size = b.size ∧
    (b.put data len).content = b.content ++ data.take len := by
  by_cases hlast : b.writerIndex + len ≤ b.size
  · obtain ⟨hv, hc⟩ := put_straight h hdata hroom hlast
    exact ⟨hv, rfl, hc⟩
  · obtain ⟨hv, hc⟩ := put_round h hdata hroom hlast
    exact ⟨hv, rfl, hc⟩

end

/-! ### Making room -/

@[simp] theorem lift_ok {α : Type} (a : α) :
    (liftM (Except.ok a : Except Fault α) : Except Stop α) = .ok a := rfl

/-- The capacity that making room for `len` bytes asks for: what there is, or what `extend`
computes, in exact arithmetic. Below `INT_MAX` nothing wraps. -/
def reached (b : CircularBuffer) (len : Nat) : Nat :=
  if b.size - 1 - b.content.length < len then 2 * (len + b.content.length) else b.size - 1

variable {data : List Cell} {len : Nat} (depth : Nat)

theorem ensure_idle {ext : CircularBuffer → Nat → Except Stop CircularBuffer} (h : b.Valid)
    (hroom : len ≤ b.size - 1 - b.content.length) : ensureWritableBytesBy ext b len = .ok b := by
  have hlt : ¬ b.size - 1 - b.content.length < len := by omega
  have hge : b.size - 1 - b.content.length ≥ len := hroom
  rw [ensureWritableBytesBy, writableBytes_eq h, lift_ok, ok_bind, if_neg hlt, pure_eq_ok, ok_bind]
  dsimp only
  rw [writableBytes_eq h, lift_ok, ok_bind, assert_holds hge, lift_ok, ok_bind, pure_eq_ok]

/-- With room for the bytes nothing is extended. -/
theorem append_idle (ext : CircularBuffer → Nat → Except Stop CircularBuffer) (h : b.Valid)
    (data : List Cell) (len : Nat) (hdata : len ≤ data.length) (hroom : len ≤ b.size - 1 - b.content.length) :
    ∃ b', appendBy ext b data len = .ok b' ∧ b'.Valid ∧ b'.size = b.size ∧
      b'.content = b.content ++ data.take len := by
  have hroom' : b.content.length + len ≤ b.size - 1 := by
    have := length_content_lt h
    omega
  obtain ⟨hv, hs, hc⟩ := put_spec h hdata hroom'
  refine ⟨_, ?_, hv, hs, hc⟩
  rw [appendBy, ensure_idle h hroom, ok_bind, pure_eq_ok]

/-- The content goes over to the larger buffer, in one piece or in two, and no other call of
`extend` is made for it. -/
theorem extend_spec (h : b.Valid) (hmax : 2 * (len + b.content.length) < 2147483647) :
    ∃ b', extend (depth + 1) b len = .ok b' ∧ b'.Valid ∧
      b'.size = 2 * (len + b.content.length) + 1 ∧ b'.content = b.content := by
  have hbuf := h.length
  have hr := h.reader
  have hw := h.writer
  have hlen := length_content h
  obtain ⟨c, hc⟩ : ∃ c, c = 2 * (len + b.content.length) := ⟨_, rfl⟩
  have hsum : size_t ((len : Int) + b.content.length) = len + b.content.length := by
    simpa using size_t_add (m := len) (n := b.content.length) (by omega)
  have hdouble : size_t (((len + b.content.length : Nat) : Int) * 2) = c := by
    have := size_t_of_lt (n := ((len + b.content.length : Nat) : Int) * 2) (by omega) (by omega)
    omega
  have hnew : new c = .ok (initial c) := new_eq (by omega)
  have hinit : (initial c).Valid := initial_valid (by omega)
  have hempty := initial_content c
  have hsize : (initial c).size = c + 1 := rfl
  rw [extend, readableBytes_eq h, lift_ok, ok_bind]
  dsimp only
  rw [hsum, hdouble, hnew, lift_ok, ok_bind, ← hc]
  by_cases hrw : b.readerIndex ≤ b.writerIndex
  · have hrewind : ¬ b.needRewind = true := by simp [needRewind, hrw]
    rw [if_pos hrw] at hlen
    obtain ⟨t, ht, hvt, hst, hct⟩ := append_idle (extend depth) hinit
      (b.buffer.drop b.readerIndex) b.content.length
      (by rw [List.length_drop]; omega) (by rw [hempty, hsize, List.length_nil]; omega)
    refine ⟨t, ?_, hvt, by rw [hst, hsize], ?_⟩
    · rw [if_neg hrewind, ok_bind, ht, ok_bind]
      rfl
    · rw [hct, hempty, List.nil_append, hlen, content, if_pos hrw]
      rfl
  · have hrewind : b.needRewind = true := by simpa [needRewind] using hrw
    rw [if_neg hrw] at hlen
    obtain ⟨t, ht, hvt, hst, hct⟩ := append_idle (extend depth) hinit
      (b.buffer.drop b.readerIndex) (b.size - b.readerIndex)
      (by rw [List.length_drop]; omega) (by rw [hempty, hsize, List.length_nil]; omega)
    have hfirst : t.content.length = b.size - b.readerIndex := by
      rw [hct, hempty, List.nil_append, List.length_take, List.length_drop]
      omega
    obtain ⟨u, hu, hvu, hsu, hcu⟩ := append_idle (extend depth) hvt
      b.buffer b.writerIndex (by omega) (by rw [hst, hsize]; omega)
    refine ⟨u, ?_, hvu, by rw [hsu, hst, hsize], ?_⟩
    · rw [if_pos hrewind, ht, ok_bind, hu, ok_bind]
      rfl
    · rw [hcu, hct, hempty, List.nil_append, content, if_neg hrw]
      rfl

theorem ensureWritableBytes_spec (h : b.Valid) (hmax : b.reached len < 2147483647) :
    ∃ b', b.ensureWritableBytes (depth + 1) len = .ok b' ∧ b'.Valid ∧ b'.content = b.content ∧
      len ≤ b'.size - 1 - b'.content.length := by
  by_cases hlt : b.size - 1 - b.content.length < len
  · rw [reached, if_pos hlt] at hmax
    obtain ⟨b', hb, hv, hs, hc⟩ := extend_spec depth h hmax
    have hroom : b'.size - 1 - b'.content.length ≥ len := by
      rw [hs, hc]
      omega
    refine ⟨b', ?_, hv, hc, hroom⟩
    rw [ensureWritableBytes, ensureWritableBytesBy, writableBytes_eq h, lift_ok, ok_bind, if_pos hlt,
      hb, ok_bind]
    dsimp only
    rw [writableBytes_eq hv, lift_ok, ok_bind, assert_holds hroom, lift_ok, ok_bind, pure_eq_ok]
  · have hroom : len ≤ b.size - 1 - b.content.length := by omega
    exact ⟨b, ensure_idle h hroom, h, rfl, hroom⟩

theorem append_spec (h : b.Valid) (hdata : len ≤ data.length) (hmax : b.reached len < 2147483647) :
    ∃ b', b.append (depth + 1) data len = .ok b' ∧ b'.Valid ∧
      b'.content = b.content ++ data.take len := by
  obtain ⟨e, he, hv, hc, hroom⟩ := ensureWritableBytes_spec depth h hmax
  have hroom' : e.content.length + len ≤ e.size - 1 := by
    have := length_content_lt hv
    omega
  obtain ⟨hv', -, hc'⟩ := put_spec hv hdata hroom'
  refine ⟨e.put data len, ?_, hv', by rw [hc', hc]⟩
  have he' : ensureWritableBytesBy (extend (depth + 1)) b len = .ok e := he
  rw [append, appendBy, he', ok_bind, pure_eq_ok]

/-! ### Taking bytes out -/

theorem retrieveAll_valid (h : b.Valid) : b.retrieveAll.Valid :=
  ⟨h.length, Nat.zero_lt_of_lt h.reader, Nat.zero_lt_of_lt h.reader, h.bounded⟩

theorem retrieveAll_content (b : CircularBuffer) : b.retrieveAll.content = [] :=
  (if_pos (Nat.le_refl _)).trans (Bytes.slice_self _ _)

/-- The reader goes ahead, round the end if it has to. -/
theorem readAhead_spec (h : b.Valid) (hlt : len < b.content.length) :
    (b.readAhead len).Valid ∧ (b.readAhead len).content = b.content.drop len := by
  have hlen := length_content h
  obtain ⟨hbuf, hr, hw, hb⟩ := h
  have hsum : size_t ((b.readerIndex : Int) + len) = b.readerIndex + len := by
    simpa using size_t_add (m := b.readerIndex) (n := len) (by split at hlen <;> omega)
  obtain ⟨r, hr'⟩ : ∃ r, r = (b.readerIndex + len) % b.size := ⟨_, rfl⟩
  have hread : b.readAhead len = { b with readerIndex := r } := by
    rw [readAhead, hsum, hr']
  rw [mod_size (by split at hlen <;> omega)] at hr'
  rw [hread]
  refine ⟨⟨hbuf, show r < b.size by split at hr' <;> split at hlen <;> omega, hw, hb⟩, ?_⟩
  simp only [content]
  by_cases hrw : b.readerIndex ≤ b.writerIndex
  · rw [if_pos hrw] at hlen
    rw [if_pos (by omega)] at hr'
    rw [if_pos (by omega), if_pos hrw, Bytes.drop_slice, hr']
  · rw [if_neg hrw] at hlen
    have htail : (slice b.buffer b.readerIndex b.size).length = b.size - b.readerIndex :=
      Bytes.length_slice _ _ _ (by omega)
    by_cases hround : b.readerIndex + len < b.size
    · rw [if_pos hround] at hr'
      rw [if_neg (by omega), if_neg hrw, List.drop_append_of_le_length (by omega),
        Bytes.drop_slice, hr']
    · rw [if_neg hround] at hr'
      rw [if_pos (by omega), if_neg hrw, List.drop_append, List.drop_eq_nil_of_le (by omega),
        List.nil_append, htail, Bytes.drop_slice]
      congr 1
      omega

theorem retrieve_spec (h : b.Valid) (len : Nat) :
    ∃ b', b.retrieve len = .ok b' ∧ b'.Valid ∧ b'.content = b.content.drop len := by
  rw [retrieve, readableBytes_eq h, ok_bind]
  by_cases hlt : len < b.content.length
  · obtain ⟨hv, hc⟩ := readAhead_spec h hlt
    exact ⟨_, if_pos hlt, hv, hc⟩
  · refine ⟨_, if_neg hlt, retrieveAll_valid h, ?_⟩
    rw [retrieveAll_content, List.drop_eq_nil_of_le (by omega)]

theorem string_map_some (q : List UInt8) : string (q.map some) = .ok q := by
  induction q with
  | nil => rfl
  | cons c q ih => simp [string, ih]

/-- The whole content is handed out. -/
theorem retrieveAsString_spec (h : b.Valid) {q : List UInt8} (hq : b.content = q.map some)
    (len : Nat) : ∃ b', b.retrieveAsString len = .ok (q, b') ∧ b'.Valid ∧
      b'.content = (q.drop len).map some := by
  obtain ⟨b', hb, hv, hc⟩ := retrieve_spec h (min b.content.length len)
  have hdrop : b'.content = (q.drop len).map some := by
    rw [hc, List.map_drop, ← hq]
    rcases Nat.le_total b.content.length len with hle | hle
    · rw [Nat.min_eq_left hle, List.drop_length, List.drop_eq_nil_of_le hle]
    · rw [Nat.min_eq_right hle]
  have hstring := string_map_some q
  rw [← hq, content] at hstring
  refine ⟨b', ?_, hv, hdrop⟩
  rw [retrieveAsString, readableBytes_eq h, ok_bind]
  dsimp only
  by_cases hrw : b.readerIndex ≤ b.writerIndex
  · rw [if_pos hrw] at hstring
    rw [if_neg (by simp [needRewind, hrw]), hstring, ok_bind, hb, ok_bind, pure_eq_ok]
  · rw [if_neg hrw] at hstring
    rw [if_pos (by simpa [needRewind] using hrw), hstring, ok_bind, hb, ok_bind, pure_eq_ok]

theorem retrieveAllAsString_spec (h : b.Valid) {q : List UInt8} (hq : b.content = q.map some) :
    ∃ b', b.retrieveAllAsString = .ok (q, b') ∧ b'.Valid ∧ b'.content = [] := by
  obtain ⟨b', hb, hv, hc⟩ := retrieveAsString_spec h hq q.length
  refine ⟨b', ?_, hv, by rw [hc, List.drop_length]; rfl⟩
  rw [retrieveAllAsString, readableBytes_eq h, ok_bind, hq, List.length_map, hb]

/-! ### Copies -/

theorem copy_spec (h : b.Valid) : b.copy.Valid ∧ b.copy.content = b.content := by
  obtain ⟨hbuf, hr, hw, hb⟩ := h
  have hlen (lo hi : Nat) (hhi : hi ≤ b.size) : (slice b.buffer lo hi).length = hi - lo :=
    Bytes.length_slice _ _ _ (by omega)
  have hfresh : (List.replicate b.size (none : Cell)).length = b.size := List.length_replicate
  by_cases hrw : b.readerIndex ≤ b.writerIndex
  · have hfits : b.readerIndex + (slice b.buffer b.readerIndex b.writerIndex).length ≤
        (List.replicate b.size (none : Cell)).length := by
      rw [hlen _ _ (by omega), hfresh]
      omega
    have hstored := Bytes.slice_store _ _ _ hfits
    rw [hlen _ _ (by omega), show b.readerIndex + (b.writerIndex - b.readerIndex) = b.writerIndex
      by omega] at hstored
    rw [copy, if_neg (by simp [needRewind, hrw])]
    refine ⟨⟨by simp, hr, hw, hb⟩, ?_⟩
    simp only [content, if_pos hrw, hstored]
  · obtain ⟨buffer, hbuffer⟩ : ∃ buffer, buffer = store (List.replicate b.size (none : Cell))
        b.readerIndex (slice b.buffer b.readerIndex b.size) := ⟨_, rfl⟩
    have hfits : b.readerIndex + (slice b.buffer b.readerIndex b.size).length ≤
        (List.replicate b.size (none : Cell)).length := by
      rw [hlen _ _ (Nat.le_refl _), hfresh]
      omega
    have hfits' : 0 + (slice b.buffer 0 b.writerIndex).length ≤ buffer.length := by
      rw [hlen _ _ (by omega), hbuffer, Bytes.length_store, hfresh]
      omega
    have hback := Bytes.slice_store _ _ _ hfits
    rw [hlen _ _ (Nat.le_refl _), show b.readerIndex + (b.size - b.readerIndex) = b.size by omega,
      ← hbuffer] at hback
    have hfront := Bytes.slice_store _ _ _ hfits'
    rw [hlen _ _ (by omega), Nat.zero_add, Nat.sub_zero] at hfront
    have hkept : slice (store buffer 0 (slice b.buffer 0 b.writerIndex)) b.readerIndex b.size =
        slice buffer b.readerIndex b.size := by
      refine Bytes.slice_store_frame _ _ hfits' (.inr ?_)
      rw [hlen _ _ (by omega)]
      omega
    rw [copy, if_pos (by simpa [needRewind] using hrw), ← hbuffer]
    refine ⟨⟨by simp [hbuffer], hr, hw, hb⟩, ?_⟩
    simp only [content, if_neg hrw, hkept, hback, hfront]

theorem swap_eq (a b : CircularBuffer) : swap a b = (b, a) := rfl

theorem assign_eq (b other : CircularBuffer) : b.assign other = other.copy := rfl

end CircularBuffer
end Leanet

import Leanet.Buffer.Queue
import Mathlib.Algebra.Group.Nat.Defs

/-! The buffer's sizes, modulo 2^64.

`Buffer` counts in `Nat`, which is right as long as no sum wraps. Here the functions that add a
size they are given to an index count in `size_t`, and `resize` throws where it is asked for more
than `max_size()`. Where `len + max(kCheapPrepend, writerIndex_)` is below 2^64 this is the same
buffer, or an exception (`ensureWritableBytes_of_fits`); everywhere else the sum that wraps cuts
the vector in front of the writer, or picks the branch that moves the bytes, where there is
nothing to move or no room to gain (`not_safe`). -/
namespace Leanet

/-- How a call ends: it returns, or the exception of `resize` goes through it. -/
inductive Ending (α : Type*) where
  | returned (a : α)
  | threw
  deriving DecidableEq

namespace Buffer.SizeT
open Bytes (store slide resize)

def size_t : Nat := 2 ^ 64

def add (m n : Nat) : Nat := (m + n) % size_t

def sub (m n : Nat) : Nat := (m + (size_t - n)) % size_t

def readableBytes (b : Buffer) : Nat := sub b.writerIndex b.readerIndex

def writableBytes (b : Buffer) : Nat := sub b.buffer.length b.writerIndex

/-- `buffer_.resize(n)`; `maxSize` is `buffer_.max_size()`. -/
def resizeTo (maxSize : Nat) (b : Buffer) (n : Nat) : Ending Unit × Buffer :=
  if maxSize < n then (.threw, b) else (.returned (), { b with buffer := resize b.buffer n })

/-- `Buffer(initialSize)`; the vector's constructor throws like `resize`. -/
def new (maxSize initialSize : Nat) : Except Fault (Ending Buffer) :=
  let n := add kCheapPrepend initialSize
  if maxSize < n then pure .threw
  else do
    let b : Buffer := ⟨List.replicate n 0, kCheapPrepend, kCheapPrepend⟩
    assert (readableBytes b = 0)
    assert (writableBytes b = initialSize)
    assert (b.prependableBytes = kCheapPrepend)
    pure (.returned b)

def extend (maxSize : Nat) (b : Buffer) (len : Nat) : Except Fault (Ending Unit × Buffer) :=
  if add (writableBytes b) b.prependableBytes < add len kCheapPrepend then
    pure (resizeTo maxSize b (add b.writerIndex len))
  else do
    assert (kCheapPrepend < b.readerIndex)
    let readable := readableBytes b
    let b := { b with
      buffer := slide b.buffer b.readerIndex kCheapPrepend (b.writerIndex - b.readerIndex)
      readerIndex := kCheapPrepend
      writerIndex := add kCheapPrepend readable }
    assert (readable = readableBytes b)
    pure (.returned (), b)

def ensureWritableBytes (maxSize : Nat) (b : Buffer) (len : Nat) :
    Except Fault (Ending Unit × Buffer) := do
  let (ending, b) ← if writableBytes b < len then extend maxSize b len else pure (.returned (), b)
  match ending with
  | .threw => pure (.threw, b)
  | .returned () =>
    assert (len ≤ writableBytes b)
    pure (.returned (), b)

/-- The bytes go into the vector, or past its end. -/
def append (maxSize : Nat) (b : Buffer) (data : List UInt8) (len : Nat) :
    Except Fault (Ending Unit × Buffer) := do
  let (ending, b) ← ensureWritableBytes maxSize b len
  match ending with
  | .threw => pure (.threw, b)
  | .returned () =>
    if b.writerIndex + len ≤ b.buffer.length then
      let b := { b with buffer := store b.buffer b.beginWrite (data.take len) }
      assert (len ≤ writableBytes b)
      pure (.returned (), { b with writerIndex := add b.writerIndex len })
    else .error .dangling

/-- A call that returns nothing. -/
def answer : Ending Unit × Buffer → Ending (Option (List UInt8)) × Buffer
  | (.returned (), b) => (.returned none, b)
  | (.threw, b) => (.threw, b)

/-- The other operations stay in the vector, so nothing wraps in them. -/
def apply (maxSize : Nat) (b : Buffer) : Op → Except Fault (Ending (Option (List UInt8)) × Buffer)
  | .append data len | .appendVoid data len => answer <$> append maxSize b data len
  | .appendView view => answer <$> append maxSize b view.data view.length
  | .appendString str => answer <$> append maxSize b str str.length
  | .ensureWritableBytes len => answer <$> ensureWritableBytes maxSize b len
  | op => do
    let (out, b) ← b.apply op
    pure (.returned out, b)

/-- The size an operation passes to `ensureWritableBytes`. -/
def asks : Op → Option Nat
  | .append _ len | .appendVoid _ len | .ensureWritableBytes len => some len
  | .appendView view => some view.length
  | .appendString str => some str.length
  | _ => none

/-- No sum wraps. -/
def Fits (b : Buffer) (len : Nat) : Prop := len + max kCheapPrepend b.writerIndex < size_t

/-- Either the exception leaves the buffer as it was, or the call returns with the content
unchanged, the indices in order and the bytes there. -/
def Safe (maxSize : Nat) (b : Buffer) (len : Nat) : Prop :=
  ensureWritableBytes maxSize b len = .ok (.threw, b) ∨
    ∃ b', ensureWritableBytes maxSize b len = .ok (.returned (), b') ∧ b'.content = b.content ∧
      b'.readerIndex ≤ b'.writerIndex ∧ b'.writerIndex ≤ b'.buffer.length ∧
      len ≤ writableBytes b'

/-- A valid buffer whose vector is one that can be. -/
structure Sound (maxSize : Nat) (b : Buffer) : Prop where
  valid : b.Valid
  size_le : b.buffer.length ≤ maxSize

instance (b : Buffer) (len : Nat) : Decidable (Fits b len) := inferInstanceAs (Decidable (_ < _))

/-- A family of buffers. -/
def machine (maxSize : Nat) (ι : Type) [DecidableEq ι] :
    Machine (ι → Buffer) (Request ι Op) (Ending (Option (List UInt8))) Fault where
  may bs
    | .on i op => (bs i).may op
    | .swap _ _ => True
  step bs
    | .on i op => do
      let (ending, b) ← apply maxSize (bs i) op
      pure (ending, Function.update bs i b)
    | .swap i j =>
      let (a, b) := (bs i).swap (bs j)
      pure (.returned none, Function.update (Function.update bs i a) j b)

/-- No request makes a sum wrap. -/
def Admits {ι : Type} (bs : ι → Buffer) : Request ι Op → Prop
  | .on i op => ∀ len ∈ asks op, Fits (bs i) len
  | .swap _ _ => True

section
variable {ι : Type} [DecidableEq ι] (maxSize : Nat) (bs : ι → Buffer)

instance : (req : Request ι Op) → Decidable ((machine maxSize ι).may bs req)
  | .on i op => inferInstanceAs (Decidable ((bs i).may op))
  | .swap _ _ => inferInstanceAs (Decidable True)

instance : (req : Request ι Op) → Decidable (Admits bs req)
  | .on i op => inferInstanceAs (Decidable (∀ len ∈ asks op, Fits (bs i) len))
  | .swap _ _ => inferInstanceAs (Decidable True)

end

/-! ### Sums -/

variable {maxSize len m n : Nat} {b b' : Buffer}

theorem add_of_lt (h : m + n < size_t) : add m n = m + n := Nat.mod_eq_of_lt h

theorem add_of_ge (h : size_t ≤ m + n) (hm : m < size_t) (hn : n < size_t) :
    add m n = m + n - size_t := by
  rw [add, Nat.mod_eq_sub_mod h, Nat.mod_eq_of_lt (by omega)]

theorem sub_of_le (h : n ≤ m) (hm : m < size_t) : sub m n = m - n := by
  have heq : m + (size_t - n) = m - n + size_t := by omega
  rw [sub, heq, Nat.add_mod_right, Nat.mod_eq_of_lt (by omega)]

theorem new_sound {initialSize : Nat} (hsize : initialSize + kCheapPrepend < size_t)
    (hnew : new maxSize initialSize = .ok (.returned b)) : Sound maxSize b := by
  have hadd : add kCheapPrepend initialSize = kCheapPrepend + initialSize :=
    add_of_lt (by rwa [Nat.add_comm])
  simp only [new, hadd] at hnew
  split at hnew
  · cases hnew
  · next hle =>
    obtain ⟨-, -, hnew⟩ := bind_eq_ok.mp hnew
    obtain ⟨-, -, hnew⟩ := bind_eq_ok.mp hnew
    obtain ⟨-, -, hnew⟩ := bind_eq_ok.mp hnew
    cases hnew
    exact ⟨initial_valid initialSize, by rw [List.length_replicate]; omega⟩

/-- The buffer with its bytes moved to the reserve. -/
def moved (b : Buffer) : Buffer :=
  ⟨slide b.buffer b.readerIndex kCheapPrepend (b.writerIndex - b.readerIndex), kCheapPrepend,
    kCheapPrepend + b.readableBytes⟩

theorem extend_eq_moved (hfront : kCheapPrepend < b.readerIndex)
    (hmove : ¬ b.writableBytes + b.prependableBytes < len + kCheapPrepend) :
    b.extend len = .ok (moved b) := by
  have hsame : b.readableBytes = (moved b).readableBytes := (Nat.add_sub_cancel_left ..).symm
  rw [Buffer.extend, if_neg hmove, assert_holds hfront, ok_bind]
  dsimp only
  rw [assert_holds (by exact hsame)]
  rfl

/-- What `extend` leaves of a safe call. -/
theorem Safe.extend (h : Safe maxSize b len) (hlen : writableBytes b < len) :
    SizeT.extend maxSize b len = .ok (.threw, b) ∨
      ∃ b', SizeT.extend maxSize b len = .ok (.returned (), b') ∧
        b'.writerIndex ≤ b'.buffer.length ∧ len ≤ writableBytes b' := by
  rw [Safe, ensureWritableBytes, if_pos hlen] at h
  match hextend : SizeT.extend maxSize b len with
  | .error e =>
    rw [hextend] at h
    obtain h | ⟨b', h, -⟩ := h <;> cases h
  | .ok (.threw, c) =>
    rw [hextend] at h
    obtain h | ⟨b', h, -⟩ := h
    · exact .inl h
    · cases h
  | .ok (.returned (), c) =>
    rw [hextend] at h
    simp only [ok_bind] at h
    by_cases hroom : len ≤ writableBytes c
    · rw [assert_holds hroom] at h
      obtain h | ⟨b', h, -, -, hw, -⟩ := h
      · cases h
      · cases h
        exact .inr ⟨c, rfl, hw, hroom⟩
    · rw [assert_fails hroom] at h
      obtain h | ⟨b', h, -⟩ := h <;> cases h

/-! ### Operations that ask for nothing -/

theorem length_retrieve (h : b.retrieve len = .ok b') : b'.buffer.length = b.buffer.length := by
  obtain ⟨-, -, h⟩ := bind_eq_ok.mp h
  split at h <;> cases h <;> rfl

theorem retrieve_of_until {stop : Nat} (h : b.retrieveUntil stop = .ok b') :
    b.retrieve (stop - b.peek) = .ok b' := by
  obtain ⟨-, -, h⟩ := bind_eq_ok.mp h
  obtain ⟨-, -, h⟩ := bind_eq_ok.mp h
  exact h

theorem retrieve_of_string {str : List UInt8} (h : b.retrieveAsString len = .ok (str, b')) :
    b.retrieve len = .ok b' := by
  obtain ⟨-, -, h⟩ := bind_eq_ok.mp h
  obtain ⟨c, hc, h⟩ := bind_eq_ok.mp h
  cases h
  exact hc

/-- What asks for no bytes leaves the vector as long as it was. -/
theorem length_apply {op : Op} {out : Option (List UInt8)} (hop : asks op = none)
    (happly : b.apply op = .ok (out, b')) : b'.buffer.length = b.buffer.length := by
  cases op with
  | append | appendVoid | appendView | appendString | ensureWritableBytes => cases hop
  | prepend data len =>
    obtain ⟨c, hc, h⟩ := bind_eq_ok.mp happly
    obtain ⟨-, -, hc⟩ := bind_eq_ok.mp hc
    cases hc
    cases h
    exact Bytes.length_store ..
  | retrieve len =>
    obtain ⟨c, hc, h⟩ := bind_eq_ok.mp happly
    cases h
    exact length_retrieve hc
  | retrieveUntil len =>
    obtain ⟨c, hc, h⟩ := bind_eq_ok.mp happly
    cases h
    exact length_retrieve (retrieve_of_until hc)
  | retrieveAsString len | retrieveAllAsString =>
    obtain ⟨⟨str, c⟩, hc, h⟩ := bind_eq_ok.mp happly
    cases h
    exact length_retrieve (retrieve_of_string hc)
  | retrieveAll =>
    cases happly
    rfl
  | unwrite len =>
    obtain ⟨c, hc, h⟩ := bind_eq_ok.mp happly
    obtain ⟨-, -, hc⟩ := bind_eq_ok.mp hc
    cases hc
    cases h
    rfl
  | hasWritten data =>
    obtain ⟨c, hc, h⟩ := bind_eq_ok.mp happly
    obtain ⟨-, -, hc⟩ := bind_eq_ok.mp hc
    cases hc
    cases h
    exact Bytes.length_store ..

/-- What asks for no bytes does what it does without sizes. -/
theorem apply_of_asks {op : Op} {ending : Ending (Option (List UInt8))} (hop : asks op = none)
    (h : SizeT.apply maxSize b op = .ok (ending, b')) : ∃ out, b.apply op = .ok (out, b') := by
  have hpass : SizeT.apply maxSize b op = b.apply op >>= fun r => pure (.returned r.1, r.2) := by
    cases op with
    | append | appendVoid | appendView | appendString | ensureWritableBytes => cases hop
    | _ => rfl
  rw [hpass] at h
  obtain ⟨⟨out, c⟩, hc, h⟩ := bind_eq_ok.mp h
  cases h
  exact ⟨out, hc⟩

theorem answer_eq_ok {call : Except Fault (Ending Unit × Buffer)}
    {out : Ending (Option (List UInt8))} (h : answer <$> call = .ok (out, b')) :
    ∃ ending, call = .ok (ending, b') := by
  match call with
  | .error e => cases h
  | .ok (.threw, c) =>
    cases h
    exact ⟨_, rfl⟩
  | .ok (.returned (), c) =>
    cases h
    exact ⟨_, rfl⟩

/-! ### Where nothing wraps -/

section
variable (hmax : maxSize < 2 ^ 63)
include hmax

theorem Sound.readableBytes_eq (h : Sound maxSize b) : readableBytes b = b.readableBytes := by
  have hw := h.valid.bounded
  have hn := h.size_le
  exact sub_of_le h.valid.ordered (by rw [size_t]; omega)

theorem Sound.writableBytes_eq (h : Sound maxSize b) : writableBytes b = b.writableBytes := by
  have hn := h.size_le
  exact sub_of_le h.valid.bounded (by rw [size_t]; omega)

/-- Where the bytes are moved to the front, they are as many as before. -/
theorem extend_moves (h : Sound maxSize b) (hfront : kCheapPrepend < b.readerIndex)
    (hmove : ¬ add (writableBytes b) b.prependableBytes < add len kCheapPrepend) :
    extend maxSize b len = .ok (.returned (), moved b) := by
  have hw := h.valid.bounded
  have hn := h.size_le
  have hroom : kCheapPrepend + b.readableBytes < size_t := by
    rw [Buffer.readableBytes, kCheapPrepend, size_t]
    omega
  have hsame : b.readableBytes = readableBytes (moved b) := by
    rw [readableBytes, moved, sub_of_le (Nat.le_add_right ..) hroom, Nat.add_sub_cancel_left]
  rw [extend, if_neg hmove, assert_holds hfront, ok_bind, h.readableBytes_eq hmax]
  simp only [add_of_lt hroom]
  rw [assert_holds (by exact hsame)]
  rfl

theorem extend_of_fits (h : Sound maxSize b) (hlen : b.writableBytes < len) (hfits : Fits b len) :
    extend maxSize b len = .ok (.threw, b) ∨
      ∃ b', b.extend len = .ok b' ∧ extend maxSize b len = .ok (.returned (), b') ∧
        b'.buffer.length ≤ maxSize := by
  obtain ⟨hr, hw, -⟩ := h.valid
  have hn := h.size_le
  rw [Fits, kCheapPrepend, size_t] at hfits
  have hfree : add (writableBytes b) b.prependableBytes = b.writableBytes + b.prependableBytes := by
    rw [h.writableBytes_eq hmax, add_of_lt]
    simp only [Buffer.writableBytes, prependableBytes, size_t]
    omega
  have hneed : add len kCheapPrepend = len + kCheapPrepend :=
    add_of_lt (by rw [kCheapPrepend, size_t]; omega)
  have hend : add b.writerIndex len = b.writerIndex + len := add_of_lt (by rw [size_t]; omega)
  by_cases hgrow : b.writableBytes + b.prependableBytes < len + kCheapPrepend
  · rw [extend, hfree, hneed, hend, if_pos hgrow, resizeTo]
    by_cases hthrow : maxSize < b.writerIndex + len
    · exact .inl (by rw [if_pos hthrow]; rfl)
    · refine .inr ⟨_, by rw [Buffer.extend, if_pos hgrow]; rfl, by rw [if_neg hthrow]; rfl, ?_⟩
      rw [Bytes.length_resize]
      omega
  · have hfront : kCheapPrepend < b.readerIndex := by
      simp only [prependableBytes] at hgrow
      omega
    refine .inr ⟨moved b, extend_eq_moved hfront hgrow,
      extend_moves hmax h hfront (by rwa [hfree, hneed]), ?_⟩
    rw [moved, Bytes.length_slide]
    exact hn

theorem ensureWritableBytes_of_fits (h : Sound maxSize b) (hfits : Fits b len) :
    ensureWritableBytes maxSize b len = .ok (.threw, b) ∨
      ∃ b', ensureWritableBytes maxSize b len = .ok (.returned (), b') ∧ Sound maxSize b' ∧
        b'.content = b.content ∧ len ≤ b'.writableBytes := by
  rw [ensureWritableBytes, h.writableBytes_eq hmax]
  by_cases hlen : b.writableBytes < len
  · rw [if_pos hlen]
    obtain hthrew | ⟨b', hextend, hreturned, hsize⟩ := extend_of_fits hmax h hlen hfits
    · exact .inl (by rw [hthrew]; rfl)
    · obtain ⟨c, hc, hv, hcontent, hroom⟩ := extend_spec h.valid hlen
      obtain rfl : b' = c := Except.ok.inj (hextend.symm.trans hc)
      have hsound : Sound maxSize b' := ⟨hv, hsize⟩
      refine .inr ⟨b', ?_, hsound, hcontent, hroom⟩
      simp only [hreturned, ok_bind, hsound.writableBytes_eq hmax, assert_holds hroom, pure_eq_ok]
  · have hroom : len ≤ b.writableBytes := Nat.not_lt.mp hlen
    refine .inr ⟨b, ?_, h, rfl, hroom⟩
    simp only [if_neg hlen, ok_bind, h.writableBytes_eq hmax, assert_holds hroom, pure_eq_ok]

/-! ### Where a sum wraps -/

/-- A vector cut in front of the writer. -/
theorem extend_cuts (h : Sound maxSize b) (hlen : len < size_t)
    (hgrow : add (writableBytes b) b.prependableBytes < add len kCheapPrepend)
    (hwrap : size_t ≤ b.writerIndex + len) :
    ∃ b', extend maxSize b len = .ok (.returned (), b') ∧ b'.buffer.length < b'.writerIndex := by
  have hw := h.valid.bounded
  have hn := h.size_le
  have hend : add b.writerIndex len = b.writerIndex + len - size_t :=
    add_of_ge hwrap (by rw [size_t]; omega) hlen
  refine ⟨{ b with buffer := resize b.buffer (b.writerIndex + len - size_t) }, ?_, ?_⟩
  · rw [extend, if_pos hgrow, hend, resizeTo, if_neg (by omega)]
    rfl
  · show (resize b.buffer (b.writerIndex + len - size_t)).length < b.writerIndex
    rw [Bytes.length_resize]
    omega

/-- A size too large for the sums is too large for the vector. -/
theorem not_safe (h : Sound maxSize b) (hlen : len < size_t) (hfits : ¬ Fits b len) :
    ¬ Safe maxSize b len := by
  intro hsafe
  obtain ⟨hr, hw, hres⟩ := h.valid
  have hn := h.size_le
  have hwritable := h.writableBytes_eq hmax
  have hsum : b.writableBytes + b.writerIndex = b.buffer.length := Nat.sub_add_cancel hw
  rw [Fits, kCheapPrepend, size_t] at hfits
  rw [size_t] at hlen
  rw [kCheapPrepend] at hres
  have hextend := hsafe.extend (by omega)
  by_cases hgrow : add (writableBytes b) b.prependableBytes < add len kCheapPrepend
  · have hwrap : size_t ≤ b.writerIndex + len := by
      rw [size_t]
      by_contra hend
      have hneed : add len kCheapPrepend = len + kCheapPrepend - size_t :=
        add_of_ge (by rw [kCheapPrepend, size_t]; omega) hlen (by decide)
      have hfree : add (writableBytes b) b.prependableBytes = b.writableBytes + b.readerIndex := by
        rw [hwritable, prependableBytes, add_of_lt (by rw [size_t]; omega)]
      rw [hneed, hfree, kCheapPrepend, size_t] at hgrow
      omega
    obtain ⟨c, hc, hcut⟩ := extend_cuts hmax h hlen hgrow hwrap
    rw [hc] at hextend
    obtain hthrew | ⟨d, hd, hle, -⟩ := hextend
    · cases hthrew
    · cases hd
      omega
  · by_cases hfront : kCheapPrepend < b.readerIndex
    · have hend : (moved b).writerIndex ≤ b.buffer.length := by
        simp only [moved, Buffer.readableBytes]
        omega
      have hroom : writableBytes (moved b) = b.buffer.length - (moved b).writerIndex := by
        rw [writableBytes, moved, Bytes.length_slide]
        exact sub_of_le hend (by rw [size_t]; omega)
      rw [extend_moves hmax h hfront hgrow] at hextend
      obtain hthrew | ⟨d, hd, -, hlarge⟩ := hextend
      · cases hthrew
      · cases hd
        omega
    · rw [SizeT.extend, if_neg hgrow, assert_fails hfront] at hextend
      obtain hthrew | ⟨d, hd, -⟩ := hextend
      · cases hthrew
      · cases hd

theorem Safe.of_fits (h : Sound maxSize b) (hfits : Fits b len) : Safe maxSize b len := by
  obtain hthrew | ⟨b', hb, hsound, hc, hroom⟩ := ensureWritableBytes_of_fits hmax h hfits
  · exact .inl hthrew
  · exact .inr ⟨b', hb, hc, hsound.valid.ordered, hsound.valid.bounded,
      by rwa [hsound.writableBytes_eq hmax]⟩

/-! ### Over whole runs -/

theorem append_sound (h : Sound maxSize b) (hfits : Fits b len) {data : List UInt8}
    {ending : Ending Unit} (happend : append maxSize b data len = .ok (ending, b')) : Sound maxSize b' := by
  obtain hthrew | ⟨c, hc, hsound, -⟩ := ensureWritableBytes_of_fits hmax h hfits
  · rw [append, hthrew] at happend
    cases happend
    exact h
  · obtain ⟨⟨hr, -, hres⟩, hn⟩ := hsound
    simp only [append, hc, ok_bind] at happend
    split at happend
    · next hend =>
      obtain ⟨-, -, happend⟩ := bind_eq_ok.mp happend
      cases happend
      have hadd : add c.writerIndex len = c.writerIndex + len :=
        add_of_lt (by rw [size_t]; omega)
      refine ⟨⟨?_, ?_, ?_⟩, ?_⟩
      · show c.readerIndex ≤ add c.writerIndex len
        omega
      · show add c.writerIndex len ≤ (store _ _ _).length
        rw [Bytes.length_store]
        omega
      · show kCheapPrepend ≤ (store _ _ _).length
        rw [Bytes.length_store]
        omega
      · show (store _ _ _).length ≤ maxSize
        rw [Bytes.length_store]
        omega
    · cases happend

/-- One operation. -/
theorem apply_sound (h : Sound maxSize b) {op : Op} (hm : b.may op)
    (hfits : ∀ len ∈ asks op, Fits b len) {out : Ending (Option (List UInt8))}
    (happly : apply maxSize b op = .ok (out, b')) : Sound maxSize b' := by
  cases op with
  | append data len | appendVoid data len =>
    obtain ⟨ending, happend⟩ := answer_eq_ok happly
    exact append_sound hmax h (hfits len rfl) happend
  | appendView view =>
    obtain ⟨ending, happend⟩ := answer_eq_ok happly
    exact append_sound hmax h (hfits view.length rfl) happend
  | appendString str =>
    obtain ⟨ending, happend⟩ := answer_eq_ok happly
    exact append_sound hmax h (hfits str.length rfl) happend
  | ensureWritableBytes len =>
    obtain ⟨ending, hensure⟩ := answer_eq_ok happly
    obtain hthrew | ⟨c, hc, hsound, -⟩ := ensureWritableBytes_of_fits hmax h (hfits len rfl)
    · cases hthrew.symm.trans hensure
      exact h
    · cases hc.symm.trans hensure
      exact hsound
  | prepend | retrieve | retrieveUntil | retrieveAsString | retrieveAll | retrieveAllAsString | unwrite
  | hasWritten =>
    obtain ⟨⟨str, c⟩, hc, hend⟩ := bind_eq_ok.mp happly
    cases hend
    obtain ⟨out, d, hd, hv, -⟩ := apply_spec h.valid hm
    cases hd.symm.trans hc
    exact ⟨hv, by rw [length_apply rfl hc]; exact h.size_le⟩

variable {ι : Type} [DecidableEq ι] {sizes : ι → Nat} {bs₀ bs : ι → Buffer}
  {tr : List (Request ι Op × Ending (Option (List UInt8)))}

theorem run_sound (hbs : ∀ i, Sound maxSize (bs₀ i))
    (h : ((machine maxSize ι).only Admits).Run bs₀ tr bs) (i : ι) : Sound maxSize (bs i) := by
  refine h.preserves (I := fun bs => ∀ i, Sound maxSize (bs i)) ?_ hbs i
  intro bs req out bs' hbs hm hstep i
  have hupdate {bs : ι → Buffer} (hbs : ∀ i, Sound maxSize (bs i)) (j : ι) {b : Buffer}
      (hb : Sound maxSize b) : ∀ i, Sound maxSize (Function.update bs j b i) := by
    intro i
    by_cases hij : i = j
    · rw [hij, Function.update_self]
      exact hb
    · rw [Function.update_of_ne hij]
      exact hbs i
  cases req with
  | on j op =>
    obtain ⟨⟨ending, b⟩, happly, hend⟩ := bind_eq_ok.mp hstep
    cases hend
    exact hupdate hbs j (apply_sound hmax (hbs j) hm.1 hm.2 happly) i
  | swap j k =>
    cases hstep
    exact hupdate (hupdate hbs j (hbs k)) k (hbs j) i

/-- **`ensureWritableBytes` is safe exactly where no sum wraps.** In every state of every run in
which no call before has wrapped either, and for every size. -/
theorem ensureWritableBytes_safe (hsizes : ∀ i, sizes i + kCheapPrepend < size_t)
    (hnew : ∀ i, new maxSize (sizes i) = .ok (.returned (bs₀ i)))
    (h : ((machine maxSize ι).only Admits).Run bs₀ tr bs) (i : ι) {len : Nat}
    (hlen : len < size_t) : Safe maxSize (bs i) len ↔ Fits (bs i) len := by
  have hsound := run_sound hmax (fun i => new_sound (hsizes i) (hnew i)) h i
  refine ⟨fun hsafe => ?_, Safe.of_fits hmax hsound⟩
  by_contra hfits
  exact not_safe hmax hsound hlen hfits hsafe

end

/-- Three bytes in a buffer for eight: 100 more are safe, and 10 below 2^64 are not. -/
theorem ensureWritableBytes_safe_three : ∃ tr bs,
    (machine (2 ^ 63 - 1) Unit).Run (fun _ => initial 8) tr bs ∧
      Safe (2 ^ 63 - 1) (bs ()) 100 ∧ ¬ Safe (2 ^ 63 - 1) (bs ()) (2 ^ 64 - 10) := by
  obtain ⟨tr, bs, h, -, hend⟩ :=
    ((machine (2 ^ 63 - 1) Unit).only Admits).exists_run_of_replay (s := fun _ => initial 8)
      (P := fun _ bs => bs () = ⟨[0, 0, 0, 0, 0, 0, 0, 0, 1, 2, 3, 0, 0, 0, 0, 0], 8, 11⟩)
      [.on () (.append [1, 2, 3] 3)] (by decide +kernel)
  have hfits : Fits (bs ()) 100 ∧ ¬ Fits (bs ()) (2 ^ 64 - 10) := by
    rw [hend]
    decide
  have hsizes : ∀ i : Unit, (fun _ => 8 : Unit → Nat) i + kCheapPrepend < size_t :=
    fun _ => (by decide : 8 + kCheapPrepend < size_t)
  have hiff {len : Nat} (hlen : len < size_t) :=
    ensureWritableBytes_safe (by decide) hsizes (fun _ => by rfl) h () hlen
  exact ⟨tr, bs, h.of_only, (hiff (by decide)).mpr hfits.1, mt (hiff (by decide)).mp hfits.2⟩

/-- Three bytes in, and then -10 as a `size_t`: `resize(1)`, under a writer at 11. -/
theorem ensureWritableBytes_cuts : ∃ tr bs,
    (machine (2 ^ 63 - 1) Unit).Run (fun _ => initial 8) tr bs ∧ (bs ()).content = [1, 2, 3] ∧
      ensureWritableBytes (2 ^ 63 - 1) (bs ()) (2 ^ 64 - 10) = .ok (.returned (), ⟨[0], 8, 11⟩) ∧
      ¬ Safe (2 ^ 63 - 1) (bs ()) (2 ^ 64 - 10) := by
  obtain ⟨tr, bs, h, -, hend⟩ :=
    (machine (2 ^ 63 - 1) Unit).exists_run_of_replay (s := fun _ => initial 8)
      (P := fun _ bs => bs () = ⟨[0, 0, 0, 0, 0, 0, 0, 0, 1, 2, 3, 0, 0, 0, 0, 0], 8, 11⟩)
      [.on () (.append [1, 2, 3] 3)] (by decide +kernel)
  have hcut : ensureWritableBytes (2 ^ 63 - 1) (bs ()) (2 ^ 64 - 10) =
      .ok (.returned (), ⟨[0], 8, 11⟩) := by
    rw [hend]
    rfl
  refine ⟨tr, bs, h, by rw [hend]; rfl, hcut, ?_⟩
  rintro (hthrew | ⟨b', hb, -, -, hw, -⟩)
  · cases hcut.symm.trans hthrew
  · cases hcut.symm.trans hb
    exact absurd hw (by decide)

end Buffer.SizeT
end Leanet

import Leanet.Buffer.Model
import Leanet.Socket.Errno

/-! Reading from a descriptor.

readv(2) is given the writable bytes and, where these are fewer than it has, the array
`extrabuf`; what lands in the array is appended afterwards, and by then the buffer is full, so
that it grows or moves its bytes to the front. -/
namespace Leanet.Buffer
open Bytes (store)

variable {b : Buffer} {extrabuf data : List UInt8}

/-- `sizeof(extrabuf)`. -/
def extrabufSize : Nat := 65536

/-- `iov_len` of the first `iovcnt` vectors. -/
def iovLen (b : Buffer) : List Nat :=
  let writable := b.writableBytes
  let iovcnt := if writable < extrabufSize then 2 else 1
  [writable, extrabufSize].take iovcnt

/-- What readv(2) can read at most. -/
def iovTotal (b : Buffer) : Nat := b.iovLen.foldr (· + ·) 0

/-- The value returned, `*savedErrno` and the buffer. `extrabuf` is not initialized; readv(2)
fails with an `errno`, or it fills the vectors in order and returns how many bytes that were. -/
def readFd (b : Buffer) (extrabuf : List UInt8) (savedErrno : Errno)
    (readv : Except Errno (List UInt8)) : Except Fault (Int × Errno × Buffer) := do
  let writable := b.writableBytes
  match readv with
  | .error errno => pure (-1, errno, b)
  | .ok data =>
    let b := { b with buffer := store b.buffer b.beginWrite (data.take writable) }
    let extrabuf := store extrabuf 0 (data.drop writable)
    let n := data.length
    if n ≤ writable then
      let b ← b.hasWritten n
      pure (n, savedErrno, b)
    else
      let b := { b with writerIndex := b.buffer.length }
      let b ← b.append extrabuf (n - writable)
      pure (n, savedErrno, b)

theorem iovTotal_of_lt (h : b.writableBytes < extrabufSize) :
    b.iovTotal = b.writableBytes + extrabufSize := by
  rw [iovTotal, iovLen, if_pos h]
  rfl

theorem iovTotal_of_ge (h : ¬ b.writableBytes < extrabufSize) : b.iovTotal = b.writableBytes := by
  rw [iovTotal, iovLen, if_neg h]
  rfl

/-- The first vector is filled, and all of the buffer is written. -/
theorem filled_spec (h : b.Valid) (hlen : b.writableBytes < data.length) :
    let buffer := store b.buffer b.beginWrite (data.take b.writableBytes)
    let c : Buffer := { b with buffer, writerIndex := buffer.length }
    c.Valid ∧ c.content = b.content ++ data.take b.writableBytes := by
  intro buffer c
  have htake : (data.take b.writableBytes).length = b.writableBytes := by
    rw [List.length_take]
    omega
  obtain ⟨d, hd, hspec⟩ := hasWritten_spec h (Nat.le_of_eq htake)
  have hfits : b.writableBytes ≤ ({ b with buffer } : Buffer).writableBytes := by
    simp only [writableBytes, buffer, Bytes.length_store, Nat.le_refl]
  have hend : b.writerIndex + b.writableBytes = buffer.length := by
    rw [Bytes.length_store, writableBytes, Nat.add_sub_cancel' h.bounded]
  rw [htake, hasWritten, assert_holds hfits] at hd
  obtain rfl : d = c := by
    rw [← Except.ok.inj hd]
    exact congrArg (Buffer.mk buffer b.readerIndex) hend
  exact hspec

/-- **What readv(2) has read is appended, in order.** -/
theorem readFd_appends (h : b.Valid) (hextra : extrabuf.length = extrabufSize)
    (savedErrno : Errno) :
    (∀ data, data.length ≤ b.iovTotal →
      ∃ b', b.readFd extrabuf savedErrno (.ok data) = .ok (data.length, savedErrno, b') ∧
        b'.Valid ∧ b'.content = b.content ++ data) ∧
    ∀ errno, b.readFd extrabuf savedErrno (.error errno) = .ok (-1, errno, b) := by
  refine ⟨fun data hdata => ?_, fun errno => rfl⟩
  rcases Nat.lt_or_ge b.writableBytes data.length with hlt | hle
  · have hsmall : b.writableBytes < extrabufSize := by
      by_contra hlarge
      rw [iovTotal_of_ge hlarge] at hdata
      omega
    rw [iovTotal_of_lt hsmall] at hdata
    have hdrop : (data.drop b.writableBytes).length = data.length - b.writableBytes :=
      List.length_drop
    have htail : (store extrabuf 0 (data.drop b.writableBytes)).take
        (data.length - b.writableBytes) = data.drop b.writableBytes := by
      have htake := Bytes.take_store extrabuf (data.drop b.writableBytes)
        (by omega : 0 + _ ≤ _) (by omega : data.length - b.writableBytes ≤ _)
      rwa [Nat.zero_add, List.take_zero, List.nil_append,
        List.take_of_length_le (Nat.le_of_eq hdrop)] at htake
    obtain ⟨hv, hc⟩ := filled_spec h hlt
    have hlen : data.length - b.writableBytes ≤
        (store extrabuf 0 (data.drop b.writableBytes)).length := by
      rw [Bytes.length_store]
      omega
    obtain ⟨b', happend, hv', hc'⟩ := append_spec hv hlen
    rw [hc, htail, List.append_assoc, List.take_append_drop] at hc'
    refine ⟨b', ?_, hv', hc'⟩
    simp only [readFd, if_neg (Nat.not_le.mpr hlt), happend, ok_bind, pure_eq_ok]
  · obtain ⟨b', hwritten, hv, hc⟩ := hasWritten_spec h hle
    refine ⟨b', ?_, hv, hc⟩
    simp only [readFd, if_pos hle, List.take_of_length_le hle, hwritten, ok_bind, pure_eq_ok]

/-- Two bytes where there is room for one: the second comes by way of `extrabuf`, and for it the
others move to the front. -/
theorem readFd_appends_overflow :
    ∃ b', (⟨[0, 0, 0, 0, 0, 0, 0, 0, 0, 7, 0], 9, 10⟩ : Buffer).readFd
        (List.replicate extrabufSize 1) (.other 0) (.ok [8, 9]) = .ok (2, .other 0, b') ∧
      b'.content = [7, 8, 9] := by
  obtain ⟨b', hread, -, hc⟩ := (readFd_appends
    (b := ⟨[0, 0, 0, 0, 0, 0, 0, 0, 0, 7, 0], 9, 10⟩) ⟨by decide, by decide, by decide⟩
    (List.length_replicate (n := extrabufSize) (a := 1)) (.other 0)).1 [8, 9] (by decide)
  exact ⟨b', hread, hc⟩

end Leanet.Buffer

import Leanet.Buffer.ReadFd
import Leanet.Buffer.SizeT

/-! Room for a header.

The reader starts behind a reserve of `kCheapPrepend` bytes. `prepend` moves it back, `retrieve`
forward; a retrieve that empties the buffer and a compaction put it back behind the reserve, and
growth leaves it where it is. So what is missing of the reserve has been prepended since the
buffer was last emptied by a retrieve (`room_call`). Sizes are `size_t`, and an exception of
`resize` is an answer like others. -/
namespace Leanet.Buffer.Reserve
open Bytes (store)
open SizeT (add sub)

/-- `readFd` with its sizes in `size_t`. The exception of `append` finds the vector filled. -/
def readFd (maxSize : Nat) (b : Buffer) (extrabuf : List UInt8) (savedErrno : Errno)
    (readv : Except Errno (List UInt8)) : Except Fault (Ending Int × Errno × Buffer) := do
  let writable := SizeT.writableBytes b
  match readv with
  | .error errno => pure (.returned (-1), errno, b)
  | .ok data =>
    if b.writerIndex + (data.take writable).length ≤ b.buffer.length then
      let b := { b with buffer := store b.buffer b.beginWrite (data.take writable) }
      let extrabuf := store extrabuf 0 (data.drop writable)
      let n := data.length
      if n ≤ writable then
        assert (n ≤ SizeT.writableBytes b)
        pure (.returned n, savedErrno, { b with writerIndex := add b.writerIndex n })
      else
        let b := { b with writerIndex := b.buffer.length }
        let (ending, b) ← SizeT.append maxSize b extrabuf (sub n writable)
        match ending with
        | .threw => pure (.threw, savedErrno, b)
        | .returned () => pure (.returned n, savedErrno, b)
    else .error .dangling

/-- A call of a member function. The integers are appended, prepended and retrieved by `op`. -/
inductive Call where
  | op (op : Op)
  | readFd (extrabuf : List UInt8) (savedErrno : Errno) (readv : Except Errno (List UInt8))

/-- What a call answers. -/
inductive Answer where
  | op (ending : Ending (Option (List UInt8)))
  | readFd (ending : Ending Int) (savedErrno : Errno)
  deriving DecidableEq

def apply (maxSize : Nat) (b : Buffer) : Call → Except Fault (Answer × Buffer)
  | .op op => do
    let (ending, b) ← SizeT.apply maxSize b op
    pure (.op ending, b)
  | .readFd extrabuf savedErrno readv => do
    let (ending, savedErrno, b) ← readFd maxSize b extrabuf savedErrno readv
    pure (.readFd ending savedErrno, b)

/-! ### The account -/

/-- The retrieve family. -/
def retrieves : Op → Bool
  | .retrieve _ | .retrieveUntil _ | .retrieveAsString _ | .retrieveAll | .retrieveAllAsString => true
  | _ => false

/-- A buffer, and how many bytes have been prepended to it since it was constructed or since a
retrieve last left it empty. -/
structure History where
  buffer : Buffer
  prepended : Nat
  deriving DecidableEq

/-- The account after a call that leaves `b`. -/
def account (prepended : Nat) (b : Buffer) : Call → Nat
  | .op (.prepend _ len) => prepended + len
  | .op op => if retrieves op ∧ b.readerIndex = b.writerIndex then 0 else prepended
  | .readFd .. => prepended

/-- Any calls in any order, whatever readv(2) answers. -/
def machine (maxSize : Nat) : Machine History Call Answer Fault where
  may _ _ := True
  step h call := do
    let (answer, b) ← apply maxSize h.buffer call
    pure (answer, ⟨b, account h.prepended b call⟩)

instance (maxSize : Nat) (h : History) (call : Call) : Decidable ((machine maxSize).may h call) :=
  inferInstanceAs (Decidable True)

/-! ### Where the reader goes -/

variable {maxSize len : Nat} {b b' : Buffer} {op : Op}

/-- The reader has moved forward, or back to the reserve at most. -/
def Keeps (b b' : Buffer) : Prop := min b.readerIndex kCheapPrepend ≤ b'.readerIndex

theorem keeps_of_eq (h : b'.readerIndex = b.readerIndex) : Keeps b b' := by
  rw [Keeps, h]
  exact Nat.min_le_left ..

theorem keeps_of_reserve (h : b'.readerIndex = kCheapPrepend) : Keeps b b' := by
  rw [Keeps, h]
  exact Nat.min_le_right ..

/-- Growth leaves the reader alone, compaction puts it behind the reserve. -/
theorem keeps_extend {ending : Ending Unit} (h : SizeT.extend maxSize b len = .ok (ending, b')) :
    Keeps b b' := by
  unfold SizeT.extend at h
  split at h
  · unfold SizeT.resizeTo at h
    split at h <;> cases h <;> exact keeps_of_eq rfl
  · obtain ⟨-, -, h⟩ := bind_eq_ok.mp h
    obtain ⟨-, -, h⟩ := bind_eq_ok.mp h
    cases h
    exact keeps_of_reserve rfl

theorem keeps_ensureWritableBytes {ending : Ending Unit}
    (h : SizeT.ensureWritableBytes maxSize b len = .ok (ending, b')) : Keeps b b' := by
  unfold SizeT.ensureWritableBytes at h
  split at h
  · obtain ⟨⟨made, c⟩, hextend, h⟩ := bind_eq_ok.mp h
    have hc := keeps_extend hextend
    cases made with
    | threw =>
      cases h
      exact hc
    | returned =>
      obtain ⟨-, -, h⟩ := bind_eq_ok.mp h
      cases h
      exact hc
  · obtain ⟨c, hc, h⟩ := bind_eq_ok.mp h
    cases hc
    obtain ⟨-, -, h⟩ := bind_eq_ok.mp h
    cases h
    exact keeps_of_eq rfl

theorem keeps_append {data : List UInt8} {ending : Ending Unit}
    (h : SizeT.append maxSize b data len = .ok (ending, b')) : Keeps b b' := by
  obtain ⟨⟨made, c⟩, hroom, h⟩ := bind_eq_ok.mp h
  have hc : Keeps b c := keeps_ensureWritableBytes hroom
  cases made with
  | threw =>
    cases h
    exact hc
  | returned =>
    dsimp only at h
    split at h
    · obtain ⟨-, -, h⟩ := bind_eq_ok.mp h
      cases h
      exact hc
    · cases h

theorem keeps_readFd {extrabuf : List UInt8} {savedErrno errno : Errno}
    {readv : Except Errno (List UInt8)} {ending : Ending Int}
    (h : readFd maxSize b extrabuf savedErrno readv = .ok (ending, errno, b')) : Keeps b b' := by
  unfold readFd at h
  cases readv with
  | error e =>
    cases h
    exact keeps_of_eq rfl
  | ok data =>
    dsimp only at h
    split at h
    · split at h
      · obtain ⟨-, -, h⟩ := bind_eq_ok.mp h
        cases h
        exact keeps_of_eq rfl
      · obtain ⟨⟨made, c⟩, happend, h⟩ := bind_eq_ok.mp h
        have hc := keeps_append happend
        cases made <;> cases h <;> exact hc
    · cases h

/-- A retrieve that leaves nothing puts the reader behind the reserve. -/
theorem retrieve_moves (h : b.retrieve len = .ok b') :
    b'.readerIndex = kCheapPrepend ∨
      b.readerIndex ≤ b'.readerIndex ∧ b'.readerIndex ≠ b'.writerIndex := by
  obtain ⟨-, -, h⟩ := bind_eq_ok.mp h
  split at h
  · next hlt =>
    cases h
    rw [readableBytes] at hlt
    exact .inr ⟨Nat.le_add_right .., show b.readerIndex + len ≠ b.writerIndex by omega⟩
  · cases h
    exact .inl rfl

/-! ### The reserve -/

section
variable {p : Nat} (hroom : kCheapPrepend ≤ b.readerIndex + p)
include hroom

theorem Keeps.room (h : Keeps b b') : kCheapPrepend ≤ b'.readerIndex + p := by
  rw [Keeps] at h
  omega

/-- What is retrieved leaves room, and all of the reserve where nothing is left. -/
theorem room_of_moves (h : b'.readerIndex = kCheapPrepend ∨
      b.readerIndex ≤ b'.readerIndex ∧ b'.readerIndex ≠ b'.writerIndex) :
    kCheapPrepend ≤ b'.readerIndex + if true ∧ b'.readerIndex = b'.writerIndex then 0 else p := by
  obtain h | ⟨hle, hne⟩ := h
  · rw [h]
    exact Nat.le_add_right ..
  · rw [if_neg fun hempty => hne hempty.2]
    omega

theorem room_op {ending : Ending (Option (List UInt8))}
    (h : SizeT.apply maxSize b op = .ok (ending, b')) :
    kCheapPrepend ≤ b'.readerIndex + account p b' (.op op) := by
  cases op with
  | append data len | appendVoid data len | appendView view | appendString str =>
    obtain ⟨ending, happend⟩ := SizeT.answer_eq_ok h
    exact (keeps_append happend).room hroom
  | ensureWritableBytes len =>
    obtain ⟨ending, hensure⟩ := SizeT.answer_eq_ok h
    exact (keeps_ensureWritableBytes hensure).room hroom
  | prepend data len =>
    obtain ⟨out, hc⟩ := SizeT.apply_of_asks rfl h
    obtain ⟨d, hd, hc⟩ := bind_eq_ok.mp hc
    obtain ⟨-, -, hd⟩ := bind_eq_ok.mp hd
    cases hd
    cases hc
    show kCheapPrepend ≤ b.readerIndex - len + (p + len)
    omega
  | retrieve len =>
    obtain ⟨out, hc⟩ := SizeT.apply_of_asks rfl h
    obtain ⟨d, hd, hc⟩ := bind_eq_ok.mp hc
    cases hc
    exact room_of_moves hroom (retrieve_moves hd)
  | retrieveUntil len =>
    obtain ⟨out, hc⟩ := SizeT.apply_of_asks rfl h
    obtain ⟨d, hd, hc⟩ := bind_eq_ok.mp hc
    cases hc
    exact room_of_moves hroom (retrieve_moves (SizeT.retrieve_of_until hd))
  | retrieveAsString len | retrieveAllAsString =>
    obtain ⟨out, hc⟩ := SizeT.apply_of_asks rfl h
    obtain ⟨⟨str, d⟩, hd, hc⟩ := bind_eq_ok.mp hc
    cases hc
    exact room_of_moves hroom (retrieve_moves (SizeT.retrieve_of_string hd))
  | retrieveAll =>
    cases h
    exact room_of_moves hroom (.inl rfl)
  | unwrite len | hasWritten data =>
    obtain ⟨out, hc⟩ := SizeT.apply_of_asks rfl h
    obtain ⟨d, hd, hc⟩ := bind_eq_ok.mp hc
    obtain ⟨-, -, hd⟩ := bind_eq_ok.mp hd
    cases hd
    cases hc
    exact hroom

theorem room_call {call : Call} {answer : Answer}
    (h : apply maxSize b call = .ok (answer, b')) :
    kCheapPrepend ≤ b'.readerIndex + account p b' call := by
  cases call with
  | op op =>
    obtain ⟨⟨ending, c⟩, happly, hend⟩ := bind_eq_ok.mp h
    cases hend
    exact room_op hroom happly
  | readFd extrabuf savedErrno readv =>
    obtain ⟨⟨ending, errno, c⟩, hread, hend⟩ := bind_eq_ok.mp h
    cases hend
    exact (keeps_readFd hread).room hroom

end

/-! ### Over whole runs -/

/-- A constructed buffer has all of its reserve. -/
theorem new_reserve {initialSize : Nat}
    (h : SizeT.new maxSize initialSize = .ok (.returned b)) : b.readerIndex = kCheapPrepend := by
  simp only [SizeT.new] at h
  split at h
  · cases h
  · obtain ⟨-, -, h⟩ := bind_eq_ok.mp h
    obtain ⟨-, -, h⟩ := bind_eq_ok.mp h
    obtain ⟨-, -, h⟩ := bind_eq_ok.mp h
    cases h
    rfl

theorem room_run {s t : History} {tr : List (Call × Answer)} (h : (machine maxSize).Run s tr t)
    (hroom : kCheapPrepend ≤ s.buffer.readerIndex + s.prepended) :
    kCheapPrepend ≤ t.buffer.readerIndex + t.prepended := by
  refine h.preserves (I := fun s => kCheapPrepend ≤ s.buffer.readerIndex + s.prepended) ?_ hroom
  intro s call answer t hroom _ hstep
  obtain ⟨⟨a, b'⟩, happly, hend⟩ := bind_eq_ok.mp hstep
  cases hend
  exact room_call hroom happly

/-- **A header that the reserve can hold always fits**: `prepend` passes its assertion where its
bytes and those prepended before, since a retrieve last emptied the buffer, are no more than
`kCheapPrepend`. -/
theorem header_reserve {initialSize : Nat} {b₀ : Buffer} {h : History}
    {tr : List (Call × Answer)} (hnew : SizeT.new maxSize initialSize = .ok (.returned b₀))
    (hrun : (machine maxSize).Run ⟨b₀, 0⟩ tr h) (data : List UInt8) {n : Nat}
    (hn : n + h.prepended ≤ kCheapPrepend) :
    n ≤ h.buffer.prependableBytes ∧ ∃ b', h.buffer.prepend data n = .ok b' := by
  have hroom := room_run hrun (by rw [new_reserve hnew]; exact Nat.le_refl _)
  have hlen : n ≤ h.buffer.prependableBytes := by
    rw [prependableBytes]
    omega
  exact ⟨hlen, _, by rw [prepend, assert_holds hlen]; rfl⟩

/-- Four bytes have been prepended, and partly retrieved; the bytes have moved to the front, the
vector has grown. Four more fit. -/
theorem header_reserve_moved : ∃ tr h, (machine 100).Run ⟨initial 8, 0⟩ tr h ∧ h.prepended = 4 ∧
    h.buffer.buffer.length = 33 ∧ ∃ b', h.buffer.prepend [9, 9, 9, 9] 4 = .ok b' := by
  obtain ⟨tr, h, hrun, -, hprepended, hlength⟩ := (machine 100).exists_run_of_replay
    (s := ⟨initial 8, 0⟩) (P := fun _ h => h.prepended = 4 ∧ h.buffer.buffer.length = 33)
    [.op (.prepend [1, 2, 3, 4] 4), .op (.append [5, 6, 7, 8, 9, 10] 6), .op (.retrieve 8),
      .op (.append [11, 12, 13, 14] 4), .op (.unwrite 1),
      .op (.append (List.replicate 20 0) 20), .readFd [] (.other 0) (.error .EAGAIN)]
    (by decide +kernel)
  have hnew : SizeT.new 100 8 = .ok (.returned (initial 8)) := by decide
  obtain ⟨-, hfits⟩ :=
    header_reserve hnew hrun [9, 9, 9, 9] (n := 4) (by rw [hprepended]; decide)
  exact ⟨tr, h, hrun, hprepended, hlength, hfits⟩

end Leanet.Buffer.Reserve

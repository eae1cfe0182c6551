import Leanet.Buffer.Model
import Leanet.Foundation.Endian

/-! Integers in a buffer.

The host is little-endian. An integer is swapped and its memory is copied, so that the buffer
holds it with the most significant byte first (`bytes_hostToNet`); what is peeked is copied back
and swapped again (`peekInt_spec`). The functions take signed numbers, the swaps unsigned ones:
the conversions between them keep the bits, and a value is given by its bits wherever the width
is a parameter. -/
namespace Leanet
open Endian Bytes

namespace sockets

def netToHost64 (n : UInt64) : UInt64 := .ofBitVec (swap (n := 8) n.toBitVec)
def hostToNet64 (n : UInt64) : UInt64 := .ofBitVec (swap (n := 8) n.toBitVec)
def netToHost32 (n : UInt32) : UInt32 := .ofBitVec (swap (n := 4) n.toBitVec)
def hostToNet32 (n : UInt32) : UInt32 := .ofBitVec (swap (n := 4) n.toBitVec)
def netToHost16 (n : UInt16) : UInt16 := .ofBitVec (swap (n := 2) n.toBitVec)
def hostToNet16 (n : UInt16) : UInt16 := .ofBitVec (swap (n := 2) n.toBitVec)

end sockets

/-- `int8_t`, `int16_t`, `int32_t`, `int64_t`. -/
inductive Width where
  | int8
  | int16
  | int32
  | int64
  deriving DecidableEq, Repr

namespace Width

/-- `sizeof`. -/
def size : Width → Nat
  | int8 => 1
  | int16 => 2
  | int32 => 4
  | int64 => 8

/-- A single byte is not swapped. -/
def hostToNet : (w : Width) → BitVec (8 * w.size) → BitVec (8 * w.size)
  | int8, x => x
  | int16, x => (sockets.hostToNet16 (.ofBitVec x)).toBitVec
  | int32, x => (sockets.hostToNet32 (.ofBitVec x)).toBitVec
  | int64, x => (sockets.hostToNet64 (.ofBitVec x)).toBitVec

def netToHost : (w : Width) → BitVec (8 * w.size) → BitVec (8 * w.size)
  | int8, x => x
  | int16, x => (sockets.netToHost16 (.ofBitVec x)).toBitVec
  | int32, x => (sockets.netToHost32 (.ofBitVec x)).toBitVec
  | int64, x => (sockets.netToHost64 (.ofBitVec x)).toBitVec

end Width

namespace Buffer

/-! ### The functions, of any width -/

def prependInt (b : Buffer) (w : Width) (x : BitVec (8 * w.size)) : Except Fault Buffer :=
  let be := w.hostToNet x
  b.prepend (bytes be) w.size

def peekInt (b : Buffer) (w : Width) : Except Fault (BitVec (8 * w.size)) := do
  assert (b.readableBytes ≥ w.size)
  let i := ofBytes w.size (slice b.buffer b.peek (b.peek + w.size))
  pure (w.netToHost i)

def retrieveInt (b : Buffer) (w : Width) : Except Fault Buffer := b.retrieve w.size

def readInt (b : Buffer) (w : Width) : Except Fault (BitVec (8 * w.size) × Buffer) := do
  let i ← b.peekInt w
  let b ← b.retrieveInt w
  pure (i, b)

def appendInt (b : Buffer) (w : Width) (x : BitVec (8 * w.size)) : Except Fault Buffer :=
  let be := w.hostToNet x
  b.appendVoid (bytes be) w.size

/-! ### The functions -/

def prependInt64 (b : Buffer) (x : Int64) : Except Fault Buffer := b.prependInt .int64 x.toBitVec
def prependInt32 (b : Buffer) (x : Int32) : Except Fault Buffer := b.prependInt .int32 x.toBitVec
def prependInt16 (b : Buffer) (x : Int16) : Except Fault Buffer := b.prependInt .int16 x.toBitVec
def prependInt8 (b : Buffer) (x : Int8) : Except Fault Buffer := b.prependInt .int8 x.toBitVec

def peekInt64 (b : Buffer) : Except Fault Int64 := .ofBitVec <$> b.peekInt .int64
def peekInt32 (b : Buffer) : Except Fault Int32 := .ofBitVec <$> b.peekInt .int32
def peekInt16 (b : Buffer) : Except Fault Int16 := .ofBitVec <$> b.peekInt .int16
def peekInt8 (b : Buffer) : Except Fault Int8 := .ofBitVec <$> b.peekInt .int8

def retrieveInt64 (b : Buffer) : Except Fault Buffer := b.retrieveInt .int64
def retrieveInt32 (b : Buffer) : Except Fault Buffer := b.retrieveInt .int32
def retrieveInt16 (b : Buffer) : Except Fault Buffer := b.retrieveInt .int16
def retrieveInt8 (b : Buffer) : Except Fault Buffer := b.retrieveInt .int8

def readInt64 (b : Buffer) : Except Fault (Int64 × Buffer) :=
  Prod.map .ofBitVec id <$> b.readInt .int64
def readInt32 (b : Buffer) : Except Fault (Int32 × Buffer) :=
  Prod.map .ofBitVec id <$> b.readInt .int32
def readInt16 (b : Buffer) : Except Fault (Int16 × Buffer) :=
  Prod.map .ofBitVec id <$> b.readInt .int16
def readInt8 (b : Buffer) : Except Fault (Int8 × Buffer) :=
  Prod.map .ofBitVec id <$> b.readInt .int8

def appendInt64 (b : Buffer) (x : Int64) : Except Fault Buffer := b.appendInt .int64 x.toBitVec
def appendInt32 (b : Buffer) (x : Int32) : Except Fault Buffer := b.appendInt .int32 x.toBitVec
def appendInt16 (b : Buffer) (x : Int16) : Except Fault Buffer := b.appendInt .int16 x.toBitVec
def appendInt8 (b : Buffer) (x : Int8) : Except Fault Buffer := b.appendInt .int8 x.toBitVec

/-! ### Of any width -/

variable {b : Buffer} {w : Width} {x : BitVec (8 * w.size)} {rest : List UInt8}

theorem bytes_hostToNet (w : Width) (x : BitVec (8 * w.size)) :
    bytes (w.hostToNet x) = big w.size x.toNat := by
  cases w with
  | int8 => rfl
  | int16 | int32 | int64 => exact bytes_swap x

theorem hostToNet_netToHost (w : Width) (x : BitVec (8 * w.size)) :
    w.hostToNet (w.netToHost x) = x := by
  cases w with
  | int8 => rfl
  | int16 | int32 | int64 => exact swap_swap x

theorem netToHost_hostToNet (w : Width) (x : BitVec (8 * w.size)) :
    w.netToHost (w.hostToNet x) = x := by
  cases w with
  | int8 => rfl
  | int16 | int32 | int64 => exact swap_swap x

theorem appendInt_spec (h : b.Valid) (x : BitVec (8 * w.size)) :
    ∃ b', b.appendInt w x = .ok b' ∧ b'.Valid ∧ b'.content = b.content ++ big w.size x.toNat := by
  obtain ⟨b', hb, hv, hc⟩ := append_spec h (length_bytes (w.hostToNet x)).ge
  rw [List.take_of_length_le (length_bytes _).le, bytes_hostToNet] at hc
  exact ⟨b', hb, hv, hc⟩

theorem prependInt_spec (h : b.Valid) (hroom : w.size ≤ b.prependableBytes)
    (x : BitVec (8 * w.size)) :
    ∃ b', b.prependInt w x = .ok b' ∧ b'.Valid ∧ b'.content = big w.size x.toNat ++ b.content := by
  obtain ⟨b', hb, hv, hc⟩ := prepend_spec h hroom (length_bytes (w.hostToNet x)).ge
  rw [List.take_of_length_le (length_bytes _).le, bytes_hostToNet] at hc
  exact ⟨b', hb, hv, hc⟩

/-- What is peeked is in front, most significant byte first. -/
theorem peekInt_spec (h : b.Valid) (hlen : w.size ≤ b.readableBytes) :
    ∃ x, b.peekInt w = .ok x ∧ big w.size x.toNat = b.content.take w.size := by
  have hle : b.readerIndex + w.size ≤ b.writerIndex := by
    have := h.ordered
    simp only [readableBytes] at hlen
    omega
  have hlength : (slice b.buffer b.peek (b.peek + w.size)).length = w.size :=
    (length_slice _ _ _ (hle.trans h.bounded)).trans (Nat.add_sub_cancel_left ..)
  refine ⟨_, by rw [peekInt, assert_holds hlen]; rfl, ?_⟩
  rw [← bytes_hostToNet, hostToNet_netToHost, bytes_ofBytes hlength, content, take_slice _ hle]
  rfl

/-- An integer in front is read as it is, and gone. -/
theorem readInt_spec (h : b.Valid) (hc : b.content = big w.size x.toNat ++ rest) :
    ∃ b', b.readInt w = .ok (x, b') ∧ b'.Valid ∧ b'.content = rest := by
  have hlen : w.size ≤ b.readableBytes := by
    rw [← length_content h, hc, List.length_append, length_big]
    exact Nat.le_add_right ..
  obtain ⟨y, hpeek, hy⟩ := peekInt_spec h hlen
  obtain ⟨b', hb, hv, hdrop⟩ := retrieve_spec h hlen
  rw [hc, List.take_left' (length_big ..), ← bytes_hostToNet, ← bytes_hostToNet] at hy
  have heq : y = x := by
    rw [← netToHost_hostToNet w y, ← ofBytes_bytes (w.hostToNet y), hy, ofBytes_bytes,
      netToHost_hostToNet]
  rw [hc, List.drop_left' (length_big ..)] at hdrop
  exact ⟨b', by rw [readInt, hpeek, ok_bind, retrieveInt, hb, heq]; rfl, hv, hdrop⟩

end Buffer

/-! ### Of the four widths -/

/-- An argument, or a result, of one of the functions. -/
inductive Integer where
  | int8 (x : Int8)
  | int16 (x : Int16)
  | int32 (x : Int32)
  | int64 (x : Int64)
  deriving DecidableEq

namespace Integer

def width : Integer → Width
  | int8 _ => .int8
  | int16 _ => .int16
  | int32 _ => .int32
  | int64 _ => .int64

def toInt : Integer → Int
  | int8 x => x.toInt
  | int16 x => x.toInt
  | int32 x => x.toInt
  | int64 x => x.toInt

def toBitVec : (v : Integer) → BitVec (8 * v.width.size)
  | int8 x => x.toBitVec
  | int16 x => x.toBitVec
  | int32 x => x.toBitVec
  | int64 x => x.toBitVec

def ofBitVec : (w : Width) → BitVec (8 * w.size) → Integer
  | .int8, x => int8 (.ofBitVec x)
  | .int16, x => int16 (.ofBitVec x)
  | .int32, x => int32 (.ofBitVec x)
  | .int64, x => int64 (.ofBitVec x)

/-- Two's complement, most significant byte first. -/
def encoding (v : Integer) : List UInt8 :=
  big v.width.size (v.toInt % 2 ^ (8 * v.width.size)).toNat

theorem ofBitVec_toBitVec (v : Integer) : ofBitVec v.width v.toBitVec = v := by
  cases v <;> rfl

theorem width_ofBitVec (w : Width) (x : BitVec (8 * w.size)) : (ofBitVec w x).width = w := by
  cases w <;> rfl

theorem toInt_toBitVec (v : Integer) : v.toBitVec.toInt = v.toInt := by
  cases v <;> rfl

theorem encoding_eq (v : Integer) : v.encoding = big v.width.size v.toBitVec.toNat := by
  have hmod : v.toInt % ((2 ^ (8 * v.width.size) : Nat) : Int) = v.toBitVec.toNat := by
    rw [← toInt_toBitVec, BitVec.toInt_eq_toNat_bmod, Int.bmod_emod]
    exact Int.emod_eq_of_lt (Int.natCast_nonneg _) (Int.ofNat_lt.mpr v.toBitVec.isLt)
  rw [Int.natCast_pow] at hmod
  rw [encoding]
  congr 1
  exact (congrArg Int.toNat hmod).trans (Int.toNat_natCast _)

end Integer

namespace Buffer

/-- `appendIntN`. -/
def appendInteger (b : Buffer) : Integer → Except Fault Buffer
  | .int8 x => b.appendInt8 x
  | .int16 x => b.appendInt16 x
  | .int32 x => b.appendInt32 x
  | .int64 x => b.appendInt64 x

/-- `prependIntN`. -/
def prependInteger (b : Buffer) : Integer → Except Fault Buffer
  | .int8 x => b.prependInt8 x
  | .int16 x => b.prependInt16 x
  | .int32 x => b.prependInt32 x
  | .int64 x => b.prependInt64 x

/-- `peekIntN`. -/
def peekInteger (b : Buffer) : Width → Except Fault Integer
  | .int8 => .int8 <$> b.peekInt8
  | .int16 => .int16 <$> b.peekInt16
  | .int32 => .int32 <$> b.peekInt32
  | .int64 => .int64 <$> b.peekInt64

/-- `readIntN`. -/
def readInteger (b : Buffer) : Width → Except Fault (Integer × Buffer)
  | .int8 => Prod.map .int8 id <$> b.readInt8
  | .int16 => Prod.map .int16 id <$> b.readInt16
  | .int32 => Prod.map .int32 id <$> b.readInt32
  | .int64 => Prod.map .int64 id <$> b.readInt64

/-- One read after the other. -/
def readIntegers (b : Buffer) : List Width → Except Fault (List Integer × Buffer)
  | [] => pure ([], b)
  | w :: l => do
    let (v, b) ← b.readInteger w
    let (vs, b) ← b.readIntegers l
    pure (v :: vs, b)

variable {b : Buffer} {v : Integer} {w : Width} {rest : List UInt8}

theorem appendInteger_spec (h : b.Valid) (v : Integer) :
    ∃ b', b.appendInteger v = .ok b' ∧ b'.Valid ∧ b'.content = b.content ++ v.encoding := by
  have heq : b.appendInteger v = b.appendInt v.width v.toBitVec := by cases v <;> rfl
  rw [heq, v.encoding_eq]
  exact appendInt_spec h v.toBitVec

theorem prependInteger_spec (h : b.Valid) (hroom : v.width.size ≤ b.prependableBytes) :
    ∃ b', b.prependInteger v = .ok b' ∧ b'.Valid ∧ b'.content = v.encoding ++ b.content := by
  have heq : b.prependInteger v = b.prependInt v.width v.toBitVec := by cases v <;> rfl
  rw [heq, v.encoding_eq]
  exact prependInt_spec h hroom v.toBitVec

theorem peekInteger_eq (b : Buffer) (w : Width) :
    b.peekInteger w = Integer.ofBitVec w <$> b.peekInt w := by
  cases w with
  | int8 | int16 | int32 | int64 => exact (comp_map ..).symm

theorem readInteger_eq (b : Buffer) (w : Width) :
    b.readInteger w = Prod.map (Integer.ofBitVec w) id <$> b.readInt w := by
  cases w with
  | int8 | int16 | int32 | int64 => exact (comp_map ..).symm

theorem peekInteger_spec (h : b.Valid) (hlen : w.size ≤ b.readableBytes) :
    ∃ v, b.peekInteger w = .ok v ∧ v.width = w ∧ v.encoding = b.content.take w.size := by
  obtain ⟨x, hpeek, hx⟩ := peekInt_spec h hlen
  refine ⟨.ofBitVec w x, by rw [peekInteger_eq, hpeek]; rfl, Integer.width_ofBitVec w x, ?_⟩
  rw [Integer.encoding_eq, ← hx]
  cases w <;> rfl

theorem readInteger_spec (h : b.Valid) (hc : b.content = v.encoding ++ rest) :
    ∃ b', b.readInteger v.width = .ok (v, b') ∧ b'.Valid ∧ b'.content = rest := by
  rw [v.encoding_eq] at hc
  obtain ⟨b', hread, hv, hc'⟩ := readInt_spec h hc
  refine ⟨b', ?_, hv, hc'⟩
  rw [readInteger_eq, hread]
  exact congrArg (fun v => Except.ok (v, b')) v.ofBitVec_toBitVec

/-! ### A sequence of integers -/

theorem appendIntegers_spec (h : b.Valid) (l : List Integer) :
    ∃ b', l.foldlM appendInteger b = .ok b' ∧ b'.Valid ∧
      b'.content = b.content ++ l.flatMap Integer.encoding := by
  induction l generalizing b with
  | nil => exact ⟨b, rfl, h, (List.append_nil _).symm⟩
  | cons v l ih =>
    obtain ⟨c, hb, hv, hc⟩ := appendInteger_spec h v
    obtain ⟨d, hd, hv', hc'⟩ := ih hv
    refine ⟨d, by rw [List.foldlM_cons, hb, ok_bind, hd], hv', ?_⟩
    rw [hc', hc, List.flatMap_cons, List.append_assoc]

theorem readIntegers_spec (h : b.Valid) {l : List Integer}
    (hc : b.content = l.flatMap Integer.encoding ++ rest) :
    ∃ b', b.readIntegers (l.map Integer.width) = .ok (l, b') ∧ b'.Valid ∧ b'.content = rest := by
  induction l generalizing b with
  | nil => exact ⟨b, rfl, h, hc⟩
  | cons v l ih =>
    rw [List.flatMap_cons, List.append_assoc] at hc
    obtain ⟨c, hread, hv, hc'⟩ := readInteger_spec h hc
    obtain ⟨d, hd, hv', hrest⟩ := ih hv hc'
    refine ⟨d, ?_, hv', hrest⟩
    simp only [List.map_cons, readIntegers, hread, ok_bind, hd, pure_eq_ok]

/-- **What is appended or prepended is read back, and what is peeked is appended as it was.** -/
theorem integer_codec (h : b.Valid) :
    (∀ l : List Integer, ∃ b', l.foldlM appendInteger b = .ok b' ∧ b'.Valid ∧
      b'.content = b.content ++ l.flatMap Integer.encoding ∧
      ∃ c, b'.retrieve b.content.length = .ok c ∧
        ∃ d, c.readIntegers (l.map Integer.width) = .ok (l, d) ∧ d.Valid ∧ d.content = []) ∧
    (∀ v : Integer, v.width.size ≤ b.prependableBytes →
      ∃ b', b.prependInteger v = .ok b' ∧ b'.Valid ∧ b'.content = v.encoding ++ b.content ∧
        ∃ c, b'.readInteger v.width = .ok (v, c) ∧ c.Valid ∧ c.content = b.content) ∧
    ∀ w : Width, w.size ≤ b.readableBytes → ∃ v, b.peekInteger w = .ok v ∧ v.width = w ∧
      ∀ a : Buffer, a.Valid → ∃ a', a.appendInteger v = .ok a' ∧ a'.Valid ∧
        a'.content = a.content ++ b.content.take w.size := by
  refine ⟨fun l => ?_, fun v hroom => ?_, fun w hlen => ?_⟩
  · obtain ⟨b', happend, hv, hc⟩ := appendIntegers_spec h l
    have hlen : b.content.length ≤ b'.readableBytes := by
      rw [← length_content hv, hc, List.length_append]
      exact Nat.le_add_right ..
    obtain ⟨c, hretrieve, hv', hc'⟩ := retrieve_spec hv hlen
    rw [hc, List.drop_left, ← List.append_nil (l.flatMap _)] at hc'
    exact ⟨b', happend, hv, hc, c, hretrieve, readIntegers_spec hv' hc'⟩
  · obtain ⟨b', hprepend, hv, hc⟩ := prependInteger_spec h hroom
    exact ⟨b', hprepend, hv, hc, readInteger_spec hv hc⟩
  · obtain ⟨v, hpeek, hw, hv⟩ := peekInteger_spec h hlen
    refine ⟨v, hpeek, hw, fun a ha => ?_⟩
    rw [← hv]
    exact appendInteger_spec ha v

/-- -2 and the least of 64 bits behind a byte, where there is room for neither. -/
theorem integer_codec_grows :
    let b : Buffer := ⟨[0, 0, 0, 0, 0, 0, 0, 0, 7, 0], 8, 9⟩
    let l : List Integer := [.int16 (-2), .int64 (-9223372036854775808)]
    ∃ b', l.foldlM appendInteger b = .ok b' ∧
      b'.content = [7, 255, 254, 128, 0, 0, 0, 0, 0, 0, 0] ∧
      ∃ c, b'.retrieve 1 = .ok c ∧ ∃ d, c.readIntegers [.int16, .int64] = .ok (l, d) ∧
        d.content = [] := by
  intro b l
  obtain ⟨b', happend, -, hc, c, hretrieve, d, hread, -, hempty⟩ :=
    (integer_codec (b := b) ⟨by decide, by decide, by decide⟩).1 l
  exact ⟨b', happend, hc, c, hretrieve, d, hread, hempty⟩

end Buffer
end Leanet

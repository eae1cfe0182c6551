import Leanet.Foundation.Bytes
import Leanet.Foundation.Fault

/-! The log stream.

Everything inserted into a `LogStream` goes to one `FixedBuffer`, in one of two ways.
Text is copied by `append`, which asks whether there is room for it. Numbers are rendered
in place, at `current()`, and then skipped by `advance`; before that the stream asks for
room for the longest of them (`kMaxNumericSize`). Both ask `avail()`. A byte written
outside of the array is a fault, and there is no state after it. -/
namespace Leanet
open Bytes

structure FixedBuffer (SIZE : Nat) where
  buffer_ : List UInt8
  cur_ : Nat
  size : buffer_.length = SIZE
  deriving DecidableEq

namespace FixedBuffer
variable {SIZE : Nat}

/-- `FixedBuffer()`: the array is not initialized. -/
def new (array : List UInt8) : FixedBuffer array.length := ⟨array, 0, rfl⟩

/-- `end()`, as an offset into the array. -/
def end_ (b : FixedBuffer SIZE) : Nat := b.cur_ + SIZE

def length (b : FixedBuffer SIZE) : Nat := b.cur_

def current (b : FixedBuffer SIZE) : Nat := b.cur_

def avail (b : FixedBuffer SIZE) : Nat := b.end_ - b.cur_

def advance (b : FixedBuffer SIZE) (n : Nat) : FixedBuffer SIZE := { b with cur_ := b.cur_ + n }

/-- Stores bytes from `pos` on. -/
def write (b : FixedBuffer SIZE) (pos : Nat) (data : List UInt8) :
    Except Fault (FixedBuffer SIZE) :=
  if pos + data.length ≤ SIZE then
    .ok { b with buffer_ := store b.buffer_ pos data, size := by rw [length_store, b.size] }
  else .error .dangling

def append (b : FixedBuffer SIZE) (data : List UInt8) : Except Fault (FixedBuffer SIZE) :=
  if b.avail > data.length then do
    let b ← b.write b.cur_ data
    pure (b.advance data.length)
  else pure b

def toString (b : FixedBuffer SIZE) : List UInt8 := b.buffer_

def toStringView (b : FixedBuffer SIZE) : List UInt8 := b.buffer_

end FixedBuffer

/-! ### Rendering numbers -/

/-- `"9876543210123456789"`. -/
def digits : List UInt8 :=
  [57, 56, 55, 54, 53, 52, 51, 50, 49, 48, 49, 50, 51, 52, 53, 54, 55, 56, 57]

/-- `zero[lsd]`: a remainder may be negative. -/
def zero (lsd : Int) : UInt8 := digits.getD (9 + lsd).toNat 0

/-- `"0123456789ABCDEF"`. -/
def digitsHex : List UInt8 :=
  [48, 49, 50, 51, 52, 53, 54, 55, 56, 57, 65, 66, 67, 68, 69, 70]

/-- The `do` loop of `convert`, the last digit first; there are no more rounds than
`fuel`. -/
def convertLoop : Nat → Int → List UInt8
  | 0, _ => []
  | fuel + 1, i =>
    let lsd := i.tmod 10
    let i := i.tdiv 10
    zero lsd :: if i ≠ 0 then convertLoop fuel i else []

/-- The text of `convert`; a `NUL` is written after it. -/
def convert (value : Int) : List UInt8 :=
  let p := convertLoop (value.natAbs + 1) value
  (if value < 0 then p ++ [45] else p).reverse

def convertHexLoop : Nat → Nat → List UInt8
  | 0, _ => []
  | fuel + 1, i =>
    let lsd := i % 16
    let i := i / 16
    digitsHex.getD lsd 0 :: if i ≠ 0 then convertHexLoop fuel i else []

def convertHex (value : Nat) : List UInt8 := (convertHexLoop (value + 1) value).reverse

/-! ### The stream -/

def kSmallBufferSize : Nat := 4000

def kMaxNumericSize : Nat := 32

/-- A `double` as `snprintf` renders it with `"%.12g"`, in a buffer of `kMaxNumericSize` bytes. -/
structure Rendering where
  text : List UInt8
  nonempty : text ≠ []
  fits : text.length < kMaxNumericSize

/-- `buf_` as `snprintf` left it; the constructor asserts that nothing was cut off. -/
structure Fmt where
  data : List UInt8
  fits : data.length < 32

namespace LogStream
variable {SIZE : Nat}

def appendInteger (buffer_ : FixedBuffer SIZE) (val : Int) : Except Fault (FixedBuffer SIZE) :=
  if buffer_.avail ≥ kMaxNumericSize then do
    let b ← buffer_.write buffer_.current (convert val ++ [0])
    pure (b.advance (convert val).length)
  else pure buffer_

/-- `operator<<(const void*)`. -/
def appendPointer (buffer_ : FixedBuffer SIZE) (v : UInt64) : Except Fault (FixedBuffer SIZE) :=
  if buffer_.avail ≥ kMaxNumericSize then do
    let b ← buffer_.write buffer_.current [48, 120]
    let b ← b.write (buffer_.current + 2) (convertHex v.toNat ++ [0])
    pure (b.advance (convertHex v.toNat).length)
  else pure buffer_

/-- `operator<<(double)`. -/
def appendDouble (buffer_ : FixedBuffer SIZE) (v : Rendering) : Except Fault (FixedBuffer SIZE) :=
  if buffer_.avail ≥ kMaxNumericSize then do
    let b ← buffer_.write buffer_.current (v.text ++ [0])
    pure (b.advance v.text.length)
  else pure buffer_

end LogStream

/-- One overload of `operator<<` each, and its argument. -/
inductive Insertion (SIZE : Nat) where
  | bool (x : Bool)
  | short (v : Int16)
  | unsignedShort (v : UInt16)
  | int (v : Int32)
  | unsignedInt (v : UInt32)
  | long (v : Int64)
  | unsignedLong (v : UInt64)
  | longLong (v : Int64)
  | unsignedLongLong (v : UInt64)
  | pointer (v : UInt64)
  | float (v : Rendering)
  | double (v : Rendering)
  | char (c : UInt8)
  /-- `none`: the null pointer. -/
  | cstring (str : Option (List UInt8))
  | unsignedChars (str : Option (List UInt8))
  | string (v : List UInt8)
  | stringView (v : List UInt8)
  | buffer (v : FixedBuffer SIZE)
  | fmt (v : Fmt)
  /-- `LogStream::append`, or `FixedBuffer::append` itself. -/
  | append (data : List UInt8)

/-- What an overload does. -/
inductive Operation where
  | append (data : List UInt8)
  | appendInteger (val : Int)
  | appendPointer (v : UInt64)
  | appendDouble (v : Rendering)

namespace Insertion
variable {SIZE : Nat}

/-- `"true"`, `"false"`. -/
def boolText (x : Bool) : List UInt8 := if x then [116, 114, 117, 101] else [102, 97, 108, 115, 101]

/-- The string, or `"(null)"`. -/
def cstringText (str : Option (List UInt8)) : List UInt8 := str.getD [40, 110, 117, 108, 108, 41]

def operation : Insertion SIZE → Operation
  | bool x => .append (boolText x)
  | short v => .appendInteger v.toInt
  | unsignedShort v => .appendInteger v.toNat
  | int v => .appendInteger v.toInt
  | unsignedInt v => .appendInteger v.toNat
  | long v => .appendInteger v.toInt
  | unsignedLong v => .appendInteger v.toNat
  | longLong v => .appendInteger v.toInt
  | unsignedLongLong v => .appendInteger v.toNat
  | pointer v => .appendPointer v
  | float v => .appendDouble v
  | double v => .appendDouble v
  | char c => .append [c]
  | cstring str => .append (cstringText str)
  | unsignedChars str => .append (cstringText str)
  | string v => .append v
  | stringView v => .append v
  | buffer v => .append v.toStringView
  | fmt v => .append v.data
  | append data => .append data

end Insertion

def FixedBuffer.perform {SIZE : Nat} (b : FixedBuffer SIZE) :
    Operation → Except Fault (FixedBuffer SIZE)
  | .append data => b.append data
  | .appendInteger val => LogStream.appendInteger b val
  | .appendPointer v => LogStream.appendPointer b v
  | .appendDouble v => LogStream.appendDouble b v

def LogStream.insert {SIZE : Nat} (b : FixedBuffer SIZE) (insertion : Insertion SIZE) :
    Except Fault (FixedBuffer SIZE) :=
  b.perform insertion.operation

end Leanet

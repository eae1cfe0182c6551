import Mathlib.Data.BitVec

/-! Byte orders.

A number of `n` bytes is a row of bytes with the least significant one first (`little`) or last
(`big`). An object of `n` bytes lies in the memory of a little-endian host as the first of them
(`bytes`), and a swap turns it round there, so that the swapped object lies in memory as the
number in the other order (`bytes_swap`). -/
namespace Leanet.Endian
variable {n m : Nat} {l : List UInt8}

def little : Nat → Nat → List UInt8
  | 0, _ => []
  | n + 1, m => .ofNat m :: little n (m / 256)

def big : Nat → Nat → List UInt8
  | 0, _ => []
  | n + 1, m => big n (m / 256) ++ [.ofNat m]

def ofLittle : List UInt8 → Nat
  | [] => 0
  | b :: l => b.toNat + 256 * ofLittle l

@[simp] theorem length_little (n m : Nat) : (little n m).length = n := by
  induction n generalizing m with
  | zero => rfl
  | succ n ih => rw [little, List.length_cons, ih]

theorem reverse_little (n m : Nat) : (little n m).reverse = big n m := by
  induction n generalizing m with
  | zero => rfl
  | succ n ih => rw [little, List.reverse_cons, ih, big]

@[simp] theorem length_big (n m : Nat) : (big n m).length = n := by
  rw [← reverse_little, List.length_reverse, length_little]

theorem little_ofLittle (l : List UInt8) : little l.length (ofLittle l) = l := by
  induction l with
  | nil => rfl
  | cons b l ih =>
    have hb : b.toNat < 256 := b.toNat_lt
    have hdiv : (b.toNat + 256 * ofLittle l) / 256 = ofLittle l := by omega
    rw [List.length_cons, little, ofLittle, hdiv, ih]
    congr 1
    rw [← UInt8.toNat_inj, UInt8.toNat_ofNat']
    omega

theorem ofLittle_little (h : m < 256 ^ n) : ofLittle (little n m) = m := by
  induction n generalizing m with
  | zero =>
    rw [Nat.pow_zero, Nat.lt_one_iff] at h
    exact h.symm
  | succ n ih =>
    rw [Nat.pow_succ] at h
    rw [little, ofLittle, ih (by omega), UInt8.toNat_ofNat']
    omega

theorem ofLittle_lt (l : List UInt8) : ofLittle l < 256 ^ l.length := by
  induction l with
  | nil => exact Nat.one_pos
  | cons b l ih =>
    have hb := b.toNat_lt
    calc
      b.toNat + 256 * ofLittle l < 256 * (ofLittle l + 1) := by omega
      _ ≤ 256 * 256 ^ l.length := Nat.mul_le_mul_left 256 ih
      _ = 256 ^ (l.length + 1) := Nat.pow_succ'.symm

/-! ### Objects in memory -/

theorem two_pow_eight_mul (n : Nat) : 2 ^ (8 * n) = 256 ^ n := Nat.pow_mul 2 8 n

/-- The memory of an object of `n` bytes. -/
def bytes (x : BitVec (8 * n)) : List UInt8 := little n x.toNat

/-- The object of `n` bytes that lies there. -/
def ofBytes (n : Nat) (l : List UInt8) : BitVec (8 * n) := .ofNat (8 * n) (ofLittle l)

/-- The object with its bytes the other way round. -/
def swap (x : BitVec (8 * n)) : BitVec (8 * n) := ofBytes n (bytes x).reverse

@[simp] theorem length_bytes (x : BitVec (8 * n)) : (bytes x).length = n := length_little ..

@[simp] theorem ofBytes_bytes (x : BitVec (8 * n)) : ofBytes n (bytes x) = x := by
  have hx := x.isLt
  rw [two_pow_eight_mul] at hx
  rw [ofBytes, bytes, ofLittle_little hx, BitVec.ofNat_toNat, BitVec.setWidth_eq]

theorem bytes_ofBytes (hl : l.length = n) : bytes (ofBytes n l) = l := by
  subst hl
  rw [bytes, ofBytes, BitVec.toNat_ofNat, two_pow_eight_mul, Nat.mod_eq_of_lt (ofLittle_lt l),
    little_ofLittle]

theorem bytes_swap (x : BitVec (8 * n)) : bytes (swap x) = big n x.toNat := by
  rw [swap, bytes_ofBytes (by rw [List.length_reverse, length_bytes]), bytes, reverse_little]

theorem swap_swap (x : BitVec (8 * n)) : swap (swap x) = x := by
  rw [swap, bytes_swap, ← reverse_little, List.reverse_reverse]
  exact ofBytes_bytes x

end Leanet.Endian

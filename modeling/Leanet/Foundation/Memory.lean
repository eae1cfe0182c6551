import Leanet.Foundation.Fault
import Mathlib.Logic.Function.Basic

/-! Memory that threads share, byte by byte.

An address holds a byte or, once it is freed, nothing; a read that covers it is then a
fault. What a read returns depends on the addresses it covers and on no others. -/
namespace Leanet

/-- What each address holds. -/
def Memory := Nat → Option UInt8

namespace Memory
variable {m m' : Memory} {a b len : Nat} {v : Option UInt8}

/-- Overwrites a byte, or frees it. -/
def set (m : Memory) (a : Nat) (v : Option UInt8) : Memory := Function.update m a v

/-- The `len` bytes from `a` on. -/
def load (m : Memory) : Nat → Nat → Except Fault (List UInt8)
  | _, 0 => pure []
  | a, len + 1 => do
    let byte ← deref (m a)
    let bytes ← m.load (a + 1) len
    pure (byte :: bytes)

/-- `b` is among the `len` addresses from `a` on. -/
def Covers (a len b : Nat) : Prop := a ≤ b ∧ b < a + len

instance (a len b : Nat) : Decidable (Covers a len b) := inferInstanceAs (Decidable (_ ∧ _))

instance (m : Memory) (a len : Nat) (bytes : List UInt8) : Decidable (m.load a len = .ok bytes) :=
  match m.load a len with
  | .ok got => decidable_of_iff (got = bytes) (by simp)
  | .error _ => .isFalse nofun

theorem load_length {bytes : List UInt8} (h : m.load a len = .ok bytes) : bytes.length = len := by
  induction len generalizing a bytes with
  | zero =>
    cases h
    rfl
  | succ len ih =>
    obtain ⟨byte, -, h⟩ := bind_eq_ok.mp h
    obtain ⟨rest, hrest, h⟩ := bind_eq_ok.mp h
    cases h
    exact congrArg (· + 1) (ih hrest)

theorem load_congr (h : ∀ b, Covers a len b → m b = m' b) : m.load a len = m'.load a len := by
  induction len generalizing a with
  | zero => rfl
  | succ len ih =>
    have hrest : m.load (a + 1) len = m'.load (a + 1) len :=
      ih fun b hb => h b ⟨by have := hb.1; omega, by have := hb.2; omega⟩
    rw [load, load, h a ⟨Nat.le_refl a, by omega⟩, hrest]

/-- A write elsewhere does not show. -/
theorem load_set (h : ¬ Covers a len b) : (m.set b v).load a len = m.load a len := by
  refine load_congr fun i hi => Function.update_of_ne ?_ ..
  rintro rfl
  exact h hi

end Memory
end Leanet

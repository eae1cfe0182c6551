import Mathlib.Data.List.Basic

/-! Faults: how a step of the source can go wrong.

The two builds of the project differ only in `NDEBUG`: a debug build aborts where
an assertion does not hold, a release build does not look. A pointer to an object
that is gone faults in both, and so does a system call that has to succeed. -/
namespace Leanet

inductive Fault where
  /-- An `assert` of the source does not hold. -/
  | assertion
  /-- A deleted object is read, written or deleted again, or an index is out of range. -/
  | dangling
  /-- `LOG_SYSFATAL`, after a system call that has to succeed. -/
  | fatal
  deriving DecidableEq, Repr

/-- `CMAKE_CXX_FLAGS_DEBUG` or `CMAKE_CXX_FLAGS_RELEASE`. -/
inductive Build where
  | debug
  | release
  deriving DecidableEq, Repr

/-- `assert(p)`, as the build compiles it. -/
def Build.assert (build : Build) (p : Prop) [Decidable p] : Except Fault Unit :=
  if build = .release ∨ p then .ok () else .error .assertion

/-- `assert(p)` with assertions compiled in. -/
def assert (p : Prop) [Decidable p] : Except Fault Unit := Build.debug.assert p

/-- The object behind a pointer or an index. -/
def deref {α : Type*} (slot : Option α) : Except Fault α :=
  match slot with
  | some a => .ok a
  | none => .error .dangling

universe u v
variable {α β : Type u} {ε : Type v} {p : Prop} [Decidable p]

@[simp] theorem assert_holds (h : p) : assert p = .ok () := by
  simp [assert, Build.assert, h]

theorem assert_fails (h : ¬ p) : assert p = .error .assertion := by
  simp [assert, Build.assert, h]

@[simp] theorem Build.assert_release : Build.release.assert p = .ok () := by
  simp [Build.assert]

@[simp] theorem deref_some (a : α) : deref (some a) = .ok a := rfl

theorem deref_eq_ok {slot : Option α} {a : α} : deref slot = .ok a ↔ slot = some a := by
  cases slot <;> simp [deref]

@[simp] theorem ok_bind (a : α) (f : α → Except ε β) : (Except.ok a >>= f) = f a := rfl

@[simp] theorem error_bind (e : ε) (f : α → Except ε β) :
    ((Except.error e : Except ε α) >>= f) = .error e := rfl

@[simp] theorem pure_eq_ok (a : α) : (pure a : Except ε α) = .ok a := rfl

/-- A computation in sequence answers only if both parts do. -/
theorem bind_eq_ok {x : Except ε α} {f : α → Except ε β} {b : β} :
    (x >>= f) = .ok b ↔ ∃ a, x = .ok a ∧ f a = .ok b := by
  cases x <;> simp

end Leanet

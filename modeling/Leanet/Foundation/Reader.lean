import Mathlib.Data.List.Basic

/-! Readers of a byte sequence.

A reader goes forward through the bytes and changes a state on the way. Where it stops
early both stay as they are at that point, so that a caller that catches the error finds
what was done before. `Reads` is a run that ends well; a reader of a fixed size (`Fixed`)
ends well where so many bytes are left, with a result that is a function of them; a reader
undoes a text (`Undoes`) where it takes exactly that text off the front of any bytes. -/
namespace Leanet

structure Scan (σ : Type) where
  rest : List UInt8
  state : σ

def Reader (σ ε α : Type) := Scan σ → Except ε α × Scan σ

namespace Reader
variable {σ ε α β ι : Type}

instance : Monad (Reader σ ε) where
  pure a s := (.ok a, s)
  bind x f s :=
    match x s with
    | (.ok a, s') => f a s'
    | (.error e, s') => (.error e, s')

def throw (e : ε) : Reader σ ε α := fun s => (.error e, s)

def get : Reader σ ε σ := fun s => (.ok s.state, s)

def modify (f : σ → σ) : Reader σ ε Unit := fun s => (.ok (), { s with state := f s.state })

/-- The next `n` bytes; `short`: there are fewer. -/
def read (n : Nat) (short : ε) : Reader σ ε (List UInt8) := fun s =>
  if n ≤ s.rest.length then (.ok (s.rest.take n), { s with rest := s.rest.drop n })
  else (.error short, { s with rest := [] })

/-- The results of `n` runs in sequence. -/
def times (x : Reader σ ε α) : Nat → Reader σ ε (List α)
  | 0 => pure []
  | n + 1 => do
    let as ← times x n
    let a ← x
    pure (as ++ [a])

def forEach (body : ι → Reader σ ε Unit) : List ι → Reader σ ε Unit
  | [] => pure ()
  | i :: l => do
    body i
    forEach body l

/-! ### Runs that end well -/

def Reads (x : Reader σ ε α) (s : Scan σ) (a : α) (s' : Scan σ) : Prop := x s = (.ok a, s')

variable {s s' : Scan σ} {x : Reader σ ε α} {a b : α} {e : ε}

@[simp] theorem reads_pure : Reads (pure a : Reader σ ε α) s b s' ↔ b = a ∧ s' = s := by
  show ((Except.ok a, s) : Except ε α × Scan σ) = (.ok b, s') ↔ _
  rw [Prod.mk.injEq, Except.ok.injEq]
  exact and_congr eq_comm eq_comm

@[simp] theorem reads_throw : ¬ Reads (throw e : Reader σ ε α) s b s' := by
  simp [Reads, throw]

@[simp] theorem reads_get {b : σ} : Reads (get : Reader σ ε σ) s b s' ↔ b = s.state ∧ s' = s := by
  simp only [Reads, get, Prod.mk.injEq, Except.ok.injEq]
  exact and_congr eq_comm eq_comm

@[simp] theorem reads_modify {f : σ → σ} {b : Unit} :
    Reads (modify f : Reader σ ε Unit) s b s' ↔ s' = { s with state := f s.state } := by
  simp only [Reads, modify, Prod.mk.injEq, true_and]
  exact eq_comm

@[simp] theorem reads_bind {f : α → Reader σ ε β} {b : β} :
    Reads (x >>= f) s b s' ↔ ∃ a m, Reads x s a m ∧ Reads (f a) m b s' := by
  show (match x s with
    | (.ok a, s') => f a s'
    | (.error e, s') => (.error e, s')) = _ ↔ _
  unfold Reads
  rcases x s with ⟨_ | a, m⟩
  · simp
  · simp

@[simp] theorem reads_read {n : Nat} {bytes : List UInt8} :
    Reads (read n e : Reader σ ε _) s bytes s' ↔
      n ≤ s.rest.length ∧ bytes = s.rest.take n ∧ s' = { s with rest := s.rest.drop n } := by
  unfold Reads read
  split
  · next h =>
    rw [Prod.mk.injEq, Except.ok.injEq]
    exact ⟨fun ⟨hb, hs⟩ => ⟨h, hb.symm, hs.symm⟩, fun ⟨_, hb, hs⟩ => ⟨hb.symm, hs.symm⟩⟩
  · next h => simp [h]

/-! ### Readers of a fixed size -/

/-- Reads `k` bytes: the result is `f` of the rest, and the state changes by `g`. -/
def Fixed (x : Reader σ ε α) (k : Nat) (f : List UInt8 → α) (g : List UInt8 → σ → σ) : Prop :=
  ∀ s a s', Reads x s a s' ↔
    k ≤ s.rest.length ∧ a = f s.rest ∧ s' = ⟨s.rest.drop k, g s.rest s.state⟩

variable {k k' : Nat} {f : List UInt8 → α} {g : List UInt8 → σ → σ}

theorem Fixed.reads (h : Fixed x k f g) : Reads x s a s' ↔
    k ≤ s.rest.length ∧ a = f s.rest ∧ s' = ⟨s.rest.drop k, g s.rest s.state⟩ := h s a s'

theorem fixed_pure : Fixed (pure a : Reader σ ε α) 0 (fun _ => a) fun _ σ => σ := by
  intro s b s'
  simp

theorem fixed_modify {f : σ → σ} :
    Fixed (modify f : Reader σ ε Unit) 0 (fun _ => ()) fun _ => f := by
  intro s b s'
  simp

theorem fixed_read {n : Nat} : Fixed (read n e : Reader σ ε _) n (·.take n) fun _ σ => σ := by
  intro s b s'
  simp

theorem Fixed.bind {y : α → Reader σ ε β} {f' : α → List UInt8 → β}
    {g' : α → List UInt8 → σ → σ} (h : Fixed x k f g) (h' : ∀ a, Fixed (y a) k' (f' a) (g' a)) :
    Fixed (x >>= y) (k + k') (fun r => f' (f r) (r.drop k))
      (fun r σ => g' (f r) (r.drop k) (g r σ)) := by
  intro s b s'
  rw [reads_bind]
  constructor
  · rintro ⟨a, m, hx, hy⟩
    obtain ⟨hk, rfl, rfl⟩ := h.reads.mp hx
    obtain ⟨hk', rfl, rfl⟩ := (h' _).reads.mp hy
    rw [List.length_drop] at hk'
    exact ⟨by omega, rfl, by rw [List.drop_drop]⟩
  · rintro ⟨hk, rfl, rfl⟩
    refine ⟨_, _, h.reads.mpr ⟨by omega, rfl, rfl⟩, (h' _).reads.mpr ⟨?_, rfl, ?_⟩⟩
    · rw [List.length_drop]
      omega
    · rw [List.drop_drop]

theorem Fixed.times (h : Fixed x k f g) (n : Nat) :
    Fixed (x.times n) (n * k) (fun r => (List.range n).map fun i => f (r.drop (i * k)))
      (fun r σ => (List.range n).foldl (fun σ i => g (r.drop (i * k)) σ) σ) := by
  induction n with
  | zero =>
    intro s a s'
    simp [Reader.times]
  | succ n ih =>
    have hstep : Fixed (x.times n >>= fun as => x >>= fun a => pure (as ++ [a])) _ _ _ :=
      ih.bind fun as => h.bind fun a => fixed_pure
    simpa only [Reader.times, Nat.succ_mul, Nat.add_zero, List.range_succ, List.map_append,
      List.map_cons, List.map_nil, List.foldl_append, List.foldl_cons, List.foldl_nil] using hstep

/-! ### Readers of a written text -/

/-- Takes `bytes` off the front, whatever follows: the result is `a`, and the state changes
by `g`. -/
def Undoes (x : Reader σ ε α) (bytes : List UInt8) (a : α) (g : σ → σ) : Prop :=
  ∀ rest state, Reads x ⟨bytes ++ rest, state⟩ a ⟨rest, g state⟩

variable {bytes bytes' : List UInt8} {g g' : σ → σ}

theorem undoes_pure : Undoes (pure a : Reader σ ε α) [] a fun state => state := by
  intro rest state
  simp

theorem undoes_modify {f : σ → σ} : Undoes (modify f : Reader σ ε Unit) [] () f := by
  intro rest state
  simp

theorem undoes_read {n : Nat} (h : bytes.length = n) :
    Undoes (read n e : Reader σ ε _) bytes bytes fun state => state := by
  intro rest state
  simp [← h]

theorem Undoes.bind {y : α → Reader σ ε β} {b : β} (h : Undoes x bytes a g)
    (h' : Undoes (y a) bytes' b g') :
    Undoes (x >>= y) (bytes ++ bytes') b fun state => g' (g state) := by
  intro rest state
  rw [reads_bind, List.append_assoc]
  exact ⟨a, _, h _ state, h' rest _⟩

/-- A last step that reads nothing. -/
theorem Undoes.map {f : α → β} (h : Undoes x bytes a g) :
    Undoes (x >>= fun a => pure (f a)) bytes (f a) g := by
  simpa using h.bind (y := fun a => pure (f a)) undoes_pure

/-- A list written one after another, read back by as many runs. -/
theorem Undoes.times {enc : ι → List UInt8} {val : ι → α} {step : ι → σ → σ} {l : List ι}
    (h : ∀ i ∈ l, Undoes x (enc i) (val i) (step i)) :
    Undoes (x.times l.length) (l.flatMap enc) (l.map val)
      (fun state => l.foldl (fun state i => step i state) state) := by
  -- the loop's last run is the list's last element, so the induction is on the reversed list
  generalize hr : l.reverse = r
  induction r generalizing l with
  | nil =>
    rw [List.reverse_eq_nil_iff.mp hr]
    exact undoes_pure
  | cons i r ih =>
    obtain rfl : l = r.reverse ++ [i] := by rw [← List.reverse_cons, ← hr, List.reverse_reverse]
    have hall := ih (fun j hj => h j (List.mem_append_left _ hj)) (List.reverse_reverse r)
    have hlast := (h i (by simp)).map (f := fun a => r.reverse.map val ++ [a])
    have hboth := hall.bind (y := fun as => x >>= fun a => pure (as ++ [a])) hlast
    rw [List.length_append, List.length_singleton, Reader.times]
    simpa using hboth

end Reader
end Leanet

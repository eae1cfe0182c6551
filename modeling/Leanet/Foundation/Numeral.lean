import Mathlib.Data.Nat.Digits.Lemmas
import Mathlib.Tactic.Ring
import Mathlib.Tactic.Tauto

/-! Numerals.

A numeral is a row of digits, the first one worth most. Every number has one that is written
without leading zeros, and only one (`Canonical.eq_numeral`). `numeral_eq` is how a loop that
divides comes by it, from the last digit on. A text spells a numeral digit by digit in some
alphabet, and is read back by any reader of single digits that inverts it (`parse_spell`). -/
namespace Leanet.Numeral
variable {b n k : Nat} {l : List Nat}

/-- What a row of digits is worth. -/
def value (b : Nat) (l : List Nat) : Nat := l.foldl (fun v d => b * v + d) 0

/-- Digits of the base, at least one, and no zero in front of others. -/
structure Canonical (b : Nat) (l : List Nat) : Prop where
  digits : ∀ d ∈ l, d < b
  nonempty : l ≠ []
  leading : l.head? = some 0 → l = [0]

/-- The numeral of `n`. -/
def numeral (b n : Nat) : List Nat := if n = 0 then [0] else (b.digits n).reverse

theorem value_append_singleton (b : Nat) (l : List Nat) (d : Nat) :
    value b (l ++ [d]) = b * value b l + d := by
  simp [value]

theorem value_eq_ofDigits (b : Nat) (l : List Nat) : value b l = Nat.ofDigits b l.reverse := by
  induction l using List.reverseRecOn with
  | nil => rfl
  | append_singleton l d ih =>
    rw [value_append_singleton, List.reverse_append, ih]
    simp [Nat.ofDigits_cons, Nat.add_comm]

@[simp] theorem value_numeral (b n : Nat) : value b (numeral b n) = n := by
  unfold numeral
  split
  · next hn => simp [value, hn]
  · rw [value_eq_ofDigits, List.reverse_reverse, Nat.ofDigits_digits]

theorem numeral_ne_nil (b n : Nat) : numeral b n ≠ [] := by
  unfold numeral
  split
  · exact List.cons_ne_nil 0 []
  · next hn => exact mt List.reverse_eq_nil_iff.mp (Nat.digits_ne_nil_iff_ne_zero.mpr hn)

theorem numeral_lt (hb : 1 < b) {d : Nat} (hd : d ∈ numeral b n) : d < b := by
  unfold numeral at hd
  split at hd
  · rw [List.mem_singleton.mp hd]
    exact Nat.zero_lt_of_lt hb
  · exact Nat.digits_lt_base hb (List.mem_reverse.mp hd)

theorem canonical_numeral (hb : 1 < b) (n : Nat) : Canonical b (numeral b n) := by
  refine ⟨fun d hd => numeral_lt hb hd, numeral_ne_nil b n, fun hzero => ?_⟩
  unfold numeral at hzero ⊢
  split
  · rfl
  · next hn =>
    rw [if_neg hn, List.head?_reverse, List.getLast?_eq_some_getLast
      (Nat.digits_ne_nil_iff_ne_zero.mpr hn)] at hzero
    exact absurd (Option.some.inj hzero) (Nat.getLast_digit_ne_zero b hn)

/-- **A number has one canonical numeral.** -/
theorem Canonical.eq_numeral (hb : 1 < b) (h : Canonical b l) : l = numeral b (value b l) := by
  by_cases hzero : l.head? = some 0
  · rw [h.leading hzero]
    simp [numeral, value]
  · have hdigits : b.digits (value b l) = l.reverse := by
      rw [value_eq_ofDigits]
      refine Nat.digits_ofDigits b hb _ (fun d hd => h.digits d (List.mem_reverse.mp hd))
        fun hne => ?_
      rw [List.getLast_reverse]
      intro hhead
      exact hzero (by rw [List.head?_eq_some_head h.nonempty, hhead])
    have hvalue : value b l ≠ 0 := by
      rw [← Nat.digits_ne_nil_iff_ne_zero (b := b), hdigits]
      simpa using h.nonempty
    rw [numeral, if_neg hvalue, hdigits, List.reverse_reverse]

/-- The last digit is the remainder, the others are the numeral of the quotient. -/
theorem numeral_eq (hb : 1 < b) (n : Nat) :
    numeral b n = (if n / b = 0 then [] else numeral b (n / b)) ++ [n % b] := by
  by_cases hn : n = 0
  · simp [numeral, hn]
  · rw [numeral, if_neg hn, Nat.digits_def' hb (Nat.pos_of_ne_zero hn), List.reverse_cons, numeral]
    split
    · next hq => rw [hq, Nat.digits_zero, List.reverse_nil]
    · rfl

theorem length_numeral_le (hb : 1 < b) (hk : 0 < k) (hn : n < b ^ k) :
    (numeral b n).length ≤ k := by
  unfold numeral
  split
  · exact hk
  · rw [List.length_reverse]
    exact (Nat.digits_length_le_iff hb n).mpr hn

theorem lt_length_numeral (hb : 1 < b) (hn : b ^ k ≤ n) : k < (numeral b n).length := by
  have hpos : 0 < n := Nat.lt_of_lt_of_le (Nat.pow_pos (Nat.zero_lt_of_lt hb)) hn
  rw [numeral, if_neg hpos.ne', List.length_reverse]
  exact Nat.lt_of_not_le fun hle => Nat.not_lt.mpr hn ((Nat.digits_length_le_iff hb n).mp hle)

/-! ### Leading zeros -/

/-- A row of at least `k` digits. -/
def padded (k : Nat) (l : List Nat) : List Nat := List.replicate (k - l.length) 0 ++ l

theorem length_padded (h : l.length ≤ k) : (padded k l).length = k := by
  rw [padded, List.length_append, List.length_replicate, Nat.sub_add_cancel h]

theorem value_replicate_append (b m : Nat) (l : List Nat) :
    value b (List.replicate m 0 ++ l) = value b l := by
  induction m with
  | zero => rfl
  | succ m ih => simpa [value, List.replicate_succ] using ih

theorem value_padded (b k : Nat) (l : List Nat) : value b (padded k l) = value b l :=
  value_replicate_append b (k - l.length) l

/-! ### Spelling and reading -/

variable {α : Type*} {spell : Nat → α} {read : α → Option Nat}

/-- The value of a text, if it has at least one letter and all of them are digits. -/
def parse (b : Nat) (read : α → Option Nat) (text : List α) : Option Nat :=
  if text.isEmpty then none else (text.mapM read).map (value b)

theorem mapM_spell (h : ∀ d < b, read (spell d) = some d) (hl : ∀ d ∈ l, d < b) :
    (l.map spell).mapM read = some l := by
  induction l with
  | nil => rfl
  | cons d l ih =>
    obtain ⟨hd, hl⟩ := List.forall_mem_cons.mp hl
    simp [h d hd, ih hl]

theorem eq_of_spell {l' : List Nat} (h : ∀ d < b, read (spell d) = some d) (hl : ∀ d ∈ l, d < b)
    (hl' : ∀ d ∈ l', d < b) (heq : l.map spell = l'.map spell) : l = l' := by
  have hread := congrArg (List.mapM read) heq
  rw [mapM_spell h hl, mapM_spell h hl'] at hread
  exact Option.some.inj hread

theorem parse_spell (h : ∀ d < b, read (spell d) = some d) (hl : Canonical b l) :
    parse b read (l.map spell) = some (value b l) := by
  rw [parse, if_neg (by simpa using hl.nonempty), mapM_spell h hl.digits]
  rfl

/-! ### Order

Texts are compared letter by letter. Of rows of one length, the one that comes first is worth
less. -/

theorem foldl_value (b v : Nat) (l : List Nat) :
    l.foldl (fun v d => b * v + d) v = v * b ^ l.length + value b l := by
  induction l generalizing v with
  | nil => simp [value]
  | cons d l ih =>
    rw [value, List.foldl_cons, List.foldl_cons, ih, ih, List.length_cons, pow_succ]
    ring

theorem value_cons (b d : Nat) (l : List Nat) : value b (d :: l) = d * b ^ l.length + value b l := by
  rw [value, List.foldl_cons, foldl_value, Nat.mul_zero, Nat.zero_add]

theorem value_lt (hb : 1 < b) (hl : ∀ d ∈ l, d < b) : value b l < b ^ l.length := by
  rw [value_eq_ofDigits, ← List.length_reverse]
  exact Nat.ofDigits_lt_base_pow_length hb fun d hd => hl d (List.mem_reverse.mp hd)

theorem lt_iff_value_lt {l' : List Nat} (hb : 1 < b) (hl : ∀ d ∈ l, d < b)
    (hl' : ∀ d ∈ l', d < b) (h : l.length = l'.length) : l < l' ↔ value b l < value b l' := by
  induction l generalizing l' with
  | nil =>
    obtain rfl := List.length_eq_zero_iff.mp h.symm
    simp
  | cons d l ih =>
    obtain _ | ⟨d', l'⟩ := l'
    · cases h
    obtain ⟨hd, hl⟩ := List.forall_mem_cons.mp hl
    obtain ⟨hd', hl'⟩ := List.forall_mem_cons.mp hl'
    have hlength : l.length = l'.length := Nat.succ.inj h
    have hrest := value_lt hb hl
    have hrest' := value_lt hb hl'
    rw [hlength] at hrest
    rw [List.cons_lt_cons_iff, ih hl hl' hlength, value_cons, value_cons, hlength]
    rcases Nat.lt_trichotomy d d' with hlt | rfl | hgt
    · have hstep : (d + 1) * b ^ l'.length ≤ d' * b ^ l'.length := Nat.mul_le_mul_right _ hlt
      rw [Nat.succ_mul] at hstep
      exact iff_of_true (.inl hlt) (by omega)
    · simp
    · have hstep : (d' + 1) * b ^ l'.length ≤ d * b ^ l'.length := Nat.mul_le_mul_right _ hgt
      rw [Nat.succ_mul] at hstep
      exact iff_of_false (by omega) (by omega)

/-- An alphabet that is written in order keeps the order of the rows. -/
theorem spell_lt_iff [LT α] {l' : List Nat} (hread : ∀ d < b, read (spell d) = some d)
    (hspell : ∀ d < b, ∀ d' < b, spell d < spell d' ↔ d < d') (hl : ∀ d ∈ l, d < b)
    (hl' : ∀ d ∈ l', d < b) : l.map spell < l'.map spell ↔ l < l' := by
  induction l generalizing l' with
  | nil => cases l' <;> simp
  | cons d l ih =>
    obtain _ | ⟨d', l'⟩ := l'
    · simp
    obtain ⟨hd, hl⟩ := List.forall_mem_cons.mp hl
    obtain ⟨hd', hl'⟩ := List.forall_mem_cons.mp hl'
    have hinj : spell d = spell d' ↔ d = d' :=
      ⟨fun h => Option.some.inj (by rw [← hread d hd, h, hread d' hd']), congrArg spell⟩
    rw [List.map_cons, List.map_cons, List.cons_lt_cons_iff, List.cons_lt_cons_iff,
      hspell d hd d' hd', hinj, ih hl hl']

/-- What follows counts only where the letters before it agree. -/
theorem append_lt_append_iff [LT α] {s s' t t' : List α} (h : s.length = s'.length) :
    s ++ t < s' ++ t' ↔ s < s' ∨ s = s' ∧ t < t' := by
  induction s generalizing s' with
  | nil =>
    obtain rfl := List.length_eq_zero_iff.mp h.symm
    simp
  | cons a s ih =>
    obtain _ | ⟨a', s'⟩ := s'
    · cases h
    rw [List.cons_append, List.cons_append, List.cons_lt_cons_iff, ih (Nat.succ.inj h),
      List.cons_lt_cons_iff, List.cons.injEq]
    tauto

end Leanet.Numeral

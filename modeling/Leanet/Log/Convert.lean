import Leanet.Foundation.Numeral
import Leanet.Log.LogStream
import Mathlib.Tactic.IntervalCases

/-! `convert` and `convertHex`, write by write.

Both put the digits into `buf` from the last one on and reverse what they have put there. The
loop divides the value as it is, so below zero its remainders are negative and the digits are
looked up in a table that runs both ways. Whatever `T` cannot hold, and every index outside of
a table or of `buf`, is an error here (`Stray`); there is none as long as `buf` has
`kMaxNumericSize` bytes (`convert_numeral`). What the stream inserts is the same text
(`text_eq_decimal`, `textHex_eq`). -/
namespace Leanet.detail
open Numeral

/-- The types `convert` is instantiated for. -/
inductive IntegerType where
  | int
  | unsignedInt
  | long
  | unsignedLong
  | longLong
  | unsignedLongLong
  deriving DecidableEq, Repr

namespace IntegerType

def signed : IntegerType → Bool
  | int | long | longLong => true
  | unsignedInt | unsignedLong | unsignedLongLong => false

def bits : IntegerType → Nat
  | int | unsignedInt => 32
  | long | unsignedLong | longLong | unsignedLongLong => 64

def min (T : IntegerType) : Int := if T.signed then -2 ^ (T.bits - 1) else 0

def max (T : IntegerType) : Int := if T.signed then 2 ^ (T.bits - 1) - 1 else 2 ^ T.bits - 1

/-- The values of the type. -/
def Holds (T : IntegerType) (v : Int) : Prop := T.min ≤ v ∧ v ≤ T.max

instance (T : IntegerType) (v : Int) : Decidable (T.Holds v) := inferInstanceAs (Decidable (_ ∧ _))

end IntegerType

inductive Stray where
  /-- A result that the type does not hold. -/
  | overflow
  /-- An index outside of the digits. -/
  | digit
  /-- A write outside of `buf`. -/
  | text
  deriving DecidableEq, Repr

def check (p : Prop) [Decidable p] (e : Stray) : Except Stray Unit := if p then .ok () else .error e

/-- `table[i]`; `convertHex` asserts that its index is not negative. -/
def lookup (table : List UInt8) (i : Int) : Except Stray UInt8 := do
  check (0 ≤ i ∧ i < table.length) .digit
  pure (table.getD i.toNat 0)

/-- `*p = c`, where `p` is `buf + pos`. -/
def put (buf : List UInt8) (pos : Nat) (c : UInt8) : Except Stray (List UInt8) := do
  check (pos < buf.length) .text
  pure (buf.set pos c)

/-- The `do` loop; `digit` is the table with its origin. -/
def loop (T : IntegerType) (base : Nat) (hbase : 1 < base) (digit : Int → Except Stray UInt8)
    (buf : List UInt8) (p : Nat) (i : Int) : Except Stray (List UInt8 × Nat) := do
  let lsd := i.tmod base
  check (T.Holds lsd ∧ IntegerType.int.Holds lsd) .overflow
  let quotient := i.tdiv base
  check (T.Holds quotient) .overflow
  let c ← digit lsd
  let buf ← put buf p c
  if _h : quotient ≠ 0 then loop T base hbase digit buf (p + 1) quotient else pure (buf, p + 1)
termination_by i.natAbs
decreasing_by
  have hi : i.natAbs ≠ 0 := by
    intro hi
    rw [Int.natAbs_eq_zero] at hi
    simp [quotient, hi] at _h
  rw [Int.natAbs_tdiv, Int.natAbs_natCast]
  exact Nat.div_lt_self (Nat.pos_of_ne_zero hi) hbase

/-- `std::reverse(buf, buf + p)`. -/
def reverse (buf : List UInt8) (p : Nat) : List UInt8 := (buf.take p).reverse ++ buf.drop p

/-- What `convert` returns, and `buf` as it leaves it. -/
def convert (T : IntegerType) (buf : List UInt8) (value : Int) :
    Except Stray (Nat × List UInt8) := do
  let (buf, p) ← loop T 10 (by decide) (fun lsd => lookup digits (9 + lsd)) buf 0 value
  let (buf, p) ←
    if value < 0 then do
      let buf ← put buf p 45
      pure (buf, p + 1)
    else pure (buf, p)
  let buf ← put buf p 0
  pure (p, reverse buf p)

/-- The same for `convertHex`; `uintptr_t` is `unsigned long`. -/
def convertHex (buf : List UInt8) (value : Int) : Except Stray (Nat × List UInt8) := do
  let (buf, p) ← loop .unsignedLong 16 (by decide) (lookup digitsHex) buf 0 value
  let buf ← put buf p 0
  pure (p, reverse buf p)

/-! ### The texts -/

def spellDecimal (d : Nat) : UInt8 := .ofNat (48 + d)

def spellHex (d : Nat) : UInt8 := if d < 10 then .ofNat (48 + d) else .ofNat (55 + d)

def readDecimal (c : UInt8) : Option Nat :=
  if 48 ≤ c ∧ c ≤ 57 then some (c.toNat - 48) else none

def readHex (c : UInt8) : Option Nat :=
  if 48 ≤ c ∧ c ≤ 57 then some (c.toNat - 48)
  else if 65 ≤ c ∧ c ≤ 70 then some (c.toNat - 55) else none

def decimal (value : Int) : List UInt8 :=
  (if value < 0 then [45] else []) ++ (numeral 10 value.natAbs).map spellDecimal

def hexadecimal (value : Nat) : List UInt8 := (numeral 16 value).map spellHex

/-- The canonical decimal numeral of `value`, with a sign only below zero. -/
def Decimal (text : List UInt8) (value : Int) : Prop :=
  ∃ ds, Canonical 10 ds ∧ Numeral.value 10 ds = value.natAbs ∧
    text = (if value < 0 then [45] else []) ++ ds.map spellDecimal

/-- The canonical hexadecimal numeral, in upper case. -/
def Hexadecimal (text : List UInt8) (value : Int) : Prop :=
  ∃ ds, Canonical 16 ds ∧ Numeral.value 16 ds = value ∧ text = ds.map spellHex

/-- A sign below zero, then a numeral. -/
def parseDecimal : List UInt8 → Option Int
  | 45 :: text => (parse 10 readDecimal text).map fun n : Nat => -(n : Int)
  | text => (parse 10 readDecimal text).map fun n : Nat => (n : Int)

/-! ### The loop -/

variable {T : IntegerType} {base : Nat} {digit : Int → Except Stray UInt8} {spell : Nat → UInt8}
  {i v : Int}

theorem check_ok {p : Prop} [Decidable p] (h : p) (e : Stray) : check p e = .ok () := if_pos h

/-- A type that holds a value holds what is nearer to zero. -/
theorem IntegerType.Holds.toward (h : T.Holds i) (hv : 0 ≤ v ∧ v ≤ i ∨ i ≤ v ∧ v ≤ 0) :
    T.Holds v := by
  have hzero : T.min ≤ 0 ∧ 0 ≤ T.max := by cases T <;> decide
  obtain ⟨hmin, hmax⟩ := h
  rcases hv with hv | hv
  · exact ⟨by omega, by omega⟩
  · exact ⟨by omega, by omega⟩

/-- The remainder and the quotient lie between zero and the value. -/
theorem toward_divide (base : Nat) (i : Int) :
    (0 ≤ i.tmod base ∧ i.tmod base ≤ i ∨ i ≤ i.tmod base ∧ i.tmod base ≤ 0) ∧
    (0 ≤ i.tdiv base ∧ i.tdiv base ≤ i ∨ i ≤ i.tdiv base ∧ i.tdiv base ≤ 0) := by
  obtain ⟨n, rfl | rfl⟩ := i.eq_nat_or_neg
  · rw [← Int.ofNat_tmod, ← Int.ofNat_tdiv]
    have hmod := Nat.mod_le n base
    have hdiv := Nat.div_le_self n base
    generalize n % base = r at hmod ⊢
    generalize n / base = q at hdiv ⊢
    omega
  · rw [Int.neg_tmod, Int.neg_tdiv, ← Int.ofNat_tmod, ← Int.ofNat_tdiv]
    have hmod := Nat.mod_le n base
    have hdiv := Nat.div_le_self n base
    generalize n % base = r at hmod ⊢
    generalize n / base = q at hdiv ⊢
    omega

theorem put_append (text : List UInt8) {rest : List UInt8} (hrest : rest ≠ []) (c : UInt8) :
    put (text ++ rest) text.length c = .ok (text ++ [c] ++ rest.tail) := by
  obtain ⟨d, rest, rfl⟩ := List.exists_cons_of_ne_nil hrest
  rw [put, check_ok (by simp)]
  simp

/-- The digits, from the last one on, behind what is there. -/
theorem loop_eq (hbase : 1 < base) (hsmall : (base : Int) ≤ IntegerType.int.max)
    (hdigit : ∀ d : Int, d.natAbs < base → T.Holds d → digit d = .ok (spell d.natAbs))
    (text rest : List UInt8) (hi : T.Holds i)
    (hroom : (numeral base i.natAbs).length ≤ rest.length) :
    loop T base hbase digit (text ++ rest) text.length i =
      .ok (text ++ ((numeral base i.natAbs).reverse.map spell ++
        rest.drop (numeral base i.natAbs).length),
        text.length + (numeral base i.natAbs).length) := by
  induction hn : i.natAbs using Nat.strong_induction_on generalizing i text rest with
  | _ n ih =>
    subst hn
    obtain ⟨hmod, hdiv⟩ := toward_divide base i
    have hlsd : (i.tmod base).natAbs = i.natAbs % base := by
      rw [Int.natAbs_tmod, Int.natAbs_natCast]
    have hquotient : (i.tdiv base).natAbs = i.natAbs / base := by
      rw [Int.natAbs_tdiv, Int.natAbs_natCast]
      rfl
    have hlt : (i.tmod base).natAbs < base := by
      rw [hlsd]
      exact Nat.mod_lt _ (Nat.zero_lt_of_lt hbase)
    have hint : IntegerType.int.Holds (i.tmod base) := by
      have hmin : IntegerType.int.min = -IntegerType.int.max - 1 := by decide
      exact ⟨by omega, by omega⟩
    have hrest : rest ≠ [] := by
      rintro rfl
      exact numeral_ne_nil base i.natAbs (List.length_eq_zero_iff.mp (Nat.le_zero.mp hroom))
    have hnumeral := numeral_eq hbase i.natAbs
    rw [loop]
    simp only [check_ok (And.intro (hi.toward hmod) hint), check_ok (hi.toward hdiv), ok_bind,
      hdigit _ hlt (hi.toward hmod), put_append text hrest, hlsd]
    split
    · next hne =>
      have hne : i.natAbs / base ≠ 0 := by
        rw [← hquotient]
        exact mt Int.natAbs_eq_zero.mp hne
      have hpos : i.natAbs ≠ 0 := by
        rintro hzero
        exact hne (by rw [hzero, Nat.zero_div])
      rw [if_neg hne] at hnumeral
      rw [hnumeral, List.length_append, List.length_singleton] at hroom
      have hgo := ih (i.tdiv base).natAbs
        (by rw [hquotient]; exact Nat.div_lt_self (Nat.pos_of_ne_zero hpos) hbase)
        (text ++ [spell (i.natAbs % base)]) rest.tail (hi.toward hdiv)
        (by rw [hquotient, List.length_tail]; omega) rfl
      rw [List.length_append, List.length_singleton] at hgo
      rw [hgo, hnumeral, hquotient]
      simp [Nat.add_assoc, Nat.add_comm 1, List.drop_tail]
    · next heq =>
      have heq : i.natAbs / base = 0 := by
        rw [← hquotient]
        exact Int.natAbs_eq_zero.mpr (not_not.mp heq)
      rw [if_pos heq, List.nil_append] at hnumeral
      rw [hnumeral]
      simp

/-! ### The digits -/

theorem lookup_digits {d : Int} (hd : d.natAbs < 10) :
    lookup digits (9 + d) = .ok (spellDecimal d.natAbs) := by
  obtain ⟨n, rfl | rfl⟩ := d.eq_nat_or_neg
  · rw [Int.natAbs_natCast] at hd ⊢
    interval_cases n <;> rfl
  · rw [Int.natAbs_neg, Int.natAbs_natCast] at hd ⊢
    interval_cases n <;> rfl

theorem lookup_digitsHex {d : Int} (hd : d.natAbs < 16) (hpos : 0 ≤ d) :
    lookup digitsHex d = .ok (spellHex d.natAbs) := by
  obtain ⟨n, rfl⟩ := Int.eq_ofNat_of_zero_le hpos
  rw [Int.natAbs_natCast] at hd ⊢
  interval_cases n <;> rfl

theorem read_spellDecimal : ∀ d < 10, readDecimal (spellDecimal d) = some d := by decide

theorem read_spellHex : ∀ d < 16, readHex (spellHex d) = some d := by decide

theorem decimal_spec (value : Int) : Decimal (decimal value) value :=
  ⟨_, canonical_numeral (by decide) _, value_numeral .., rfl⟩

theorem hexadecimal_spec (value : Nat) : Hexadecimal (hexadecimal value) value :=
  ⟨_, canonical_numeral (by decide) _, by rw [value_numeral], rfl⟩

theorem parseDecimal_decimal (value : Int) : parseDecimal (decimal value) = some value := by
  have hparse := parse_spell read_spellDecimal (canonical_numeral (by decide) value.natAbs)
  rw [value_numeral] at hparse
  unfold decimal
  split
  · rw [List.singleton_append, parseDecimal, hparse, Option.map_some]
    congr 1
    omega
  · -- the first letter is a digit, not the sign
    obtain ⟨d, ds, hds⟩ := List.exists_cons_of_ne_nil (numeral_ne_nil 10 value.natAbs)
    have hd : d < 10 := numeral_lt (b := 10) (n := value.natAbs) (by decide)
      (by rw [hds]; exact List.mem_cons_self)
    have hsign : spellDecimal d ≠ 45 := by
      interval_cases d <;> decide
    rw [List.nil_append, hds, List.map_cons, parseDecimal]
    · rw [← List.map_cons, ← hds, hparse, Option.map_some]
      congr 1
      omega
    · intro text htext
      exact hsign (List.cons.inj htext).1

theorem length_decimal_le (h : T.Holds v) : (decimal v).length ≤ 20 := by
  obtain ⟨hmin, hmax⟩ := h
  have hlow : -9223372036854775808 ≤ T.min := by cases T <;> decide
  have hhigh : T.max ≤ 18446744073709551615 := by cases T <;> decide
  rw [decimal, List.length_append, List.length_map]
  split
  · have := length_numeral_le (b := 10) (n := v.natAbs) (k := 19) (by decide) (by decide) (by omega)
    rw [List.length_singleton]
    omega
  · have := length_numeral_le (b := 10) (n := v.natAbs) (k := 20) (by decide) (by decide) (by omega)
    rw [List.length_nil]
    omega

theorem length_hexadecimal_le {n : Nat} (h : IntegerType.unsignedLong.Holds n) :
    (hexadecimal n).length ≤ 16 := by
  have hmax : (n : Int) ≤ 18446744073709551615 := h.2
  rw [hexadecimal, List.length_map]
  exact length_numeral_le (by decide) (by decide) (by omega)

/-! ### The functions -/

theorem reverse_append (text rest : List UInt8) :
    reverse (text ++ rest) text.length = text.reverse ++ rest := by
  rw [reverse, List.take_left, List.drop_left]

/-- From the digits on: the `NUL`, and the text turned round. -/
theorem finish_eq (text : List UInt8) {rest : List UInt8} (hrest : rest ≠ []) :
    (put (text ++ rest) text.length 0 >>= fun buf =>
        Except.ok (text.length, reverse buf text.length)) =
      .ok (text.length, text.reverse ++ 0 :: rest.tail) := by
  rw [put_append text hrest, ok_bind, List.append_assoc, reverse_append]
  rfl

theorem reverse_map_reverse (ds : List Nat) (spell : Nat → UInt8) :
    (ds.reverse.map spell).reverse = ds.map spell := by
  rw [← List.map_reverse, List.reverse_reverse]

theorem convert_eq (hT : T.Holds v) {buf : List UInt8} (hroom : (decimal v).length < buf.length) :
    convert T buf v =
      .ok ((decimal v).length, decimal v ++ 0 :: buf.drop ((decimal v).length + 1)) := by
  have hlen : (decimal v).length = (if v < 0 then 1 else 0) + (numeral 10 v.natAbs).length := by
    rw [decimal, List.length_append, List.length_map]
    split <;> rfl
  have hloop := loop_eq (T := T) (by decide : 1 < 10) (by decide)
    (fun d hd _ => lookup_digits hd) [] buf hT (by omega)
  have hdigits := reverse_map_reverse (numeral 10 v.natAbs) spellDecimal
  have hcount : ((numeral 10 v.natAbs).reverse.map spellDecimal).length =
      (numeral 10 v.natAbs).length := by rw [List.length_map, List.length_reverse]
  simp only [List.nil_append, List.length_nil, Nat.zero_add] at hloop
  rw [convert, hloop, ok_bind, hlen, decimal]
  generalize (numeral 10 v.natAbs).reverse.map spellDecimal = text at hdigits hcount ⊢
  rw [← hdigits, ← hcount]
  rw [← hcount] at hlen
  by_cases hneg : v < 0
  · rw [if_pos hneg] at hlen
    have hrest : buf.drop text.length ≠ [] := mt List.drop_eq_nil_iff.mp (by omega)
    have hrest' : (buf.drop text.length).tail ≠ [] := by
      rw [List.tail_drop]
      exact mt List.drop_eq_nil_iff.mp (by omega)
    have hfinish := finish_eq (text ++ [45]) hrest'
    rw [List.length_append, List.length_singleton] at hfinish
    simp only [if_pos hneg, put_append text hrest, ok_bind, pure_eq_ok]
    rw [hfinish]
    simp [Nat.add_comm 1]
  · rw [if_neg hneg] at hlen
    have hrest : buf.drop text.length ≠ [] := mt List.drop_eq_nil_iff.mp (by omega)
    simp only [if_neg hneg, ok_bind, pure_eq_ok]
    rw [finish_eq text hrest]
    simp

theorem convertHex_eq {n : Nat} (hn : IntegerType.unsignedLong.Holds n) {buf : List UInt8}
    (hroom : (hexadecimal n).length < buf.length) :
    convertHex buf n =
      .ok ((hexadecimal n).length, hexadecimal n ++ 0 :: buf.drop ((hexadecimal n).length + 1)) := by
  rw [hexadecimal, List.length_map] at hroom ⊢
  have hloop := loop_eq (T := .unsignedLong) (by decide : 1 < 16) (by decide)
    (fun d hd hT => lookup_digitsHex hd hT.1) [] buf hn (by rw [Int.natAbs_natCast]; omega)
  have hdigits := reverse_map_reverse (numeral 16 n) spellHex
  have hcount : ((numeral 16 n).reverse.map spellHex).length = (numeral 16 n).length := by
    rw [List.length_map, List.length_reverse]
  simp only [List.nil_append, List.length_nil, Nat.zero_add, Int.natAbs_natCast] at hloop
  rw [convertHex, hloop, ok_bind]
  generalize (numeral 16 n).reverse.map spellHex = text at hdigits hcount ⊢
  rw [← hdigits, ← hcount]
  have hrest : buf.drop text.length ≠ [] := mt List.drop_eq_nil_iff.mp (by omega)
  simp only [pure_eq_ok]
  rw [finish_eq text hrest, List.tail_drop]

/-- **Integers to text and back.** -/
theorem convert_numeral :
    (∀ (T : IntegerType) (value : Int) (buf : List UInt8), T.Holds value → 20 < buf.length →
      ∃ text, Decimal text value ∧
        convert T buf value = .ok (text.length, text ++ 0 :: buf.drop (text.length + 1)) ∧
        text.length ≤ 20 ∧ text.length + 1 ≤ kMaxNumericSize ∧ parseDecimal text = some value) ∧
    ∀ (value : Int) (buf : List UInt8), IntegerType.unsignedLong.Holds value → 16 < buf.length →
      ∃ text, Hexadecimal text value ∧
        convertHex buf value = .ok (text.length, text ++ 0 :: buf.drop (text.length + 1)) ∧
        text.length ≤ 16 ∧ parse 16 readHex text = some value.natAbs := by
  refine ⟨fun T value buf hT hroom => ?_, fun value buf hT hroom => ?_⟩
  · have hlen := length_decimal_le hT
    have hmax : kMaxNumericSize = 32 := rfl
    exact ⟨decimal value, decimal_spec value, convert_eq hT (by omega), hlen, by omega,
      parseDecimal_decimal value⟩
  · obtain ⟨n, rfl⟩ := Int.eq_ofNat_of_zero_le hT.1
    have hlen := length_hexadecimal_le hT
    have hparse := parse_spell read_spellHex (canonical_numeral (by decide) n)
    rw [value_numeral] at hparse
    exact ⟨hexadecimal n, hexadecimal_spec n, convertHex_eq hT (by omega), hlen, hparse⟩

/-- `INT_MIN`, and the greatest address. -/
theorem convert_numeral_extreme :
    convert .int (List.replicate 32 1) (-2147483648) =
      .ok (11, [45, 50, 49, 52, 55, 52, 56, 51, 54, 52, 56, 0] ++ List.replicate 20 1) ∧
    convertHex (List.replicate 30 1) 0xffffffffffffffff =
      .ok (16, List.replicate 16 70 ++ 0 :: List.replicate 13 1) := by
  constructor
  · obtain ⟨text, ⟨ds, hds, hvalue, rfl⟩, hconvert, -⟩ := convert_numeral.1 .int (-2147483648)
      (List.replicate 32 1) (by decide) (by decide)
    obtain rfl : ds = [2, 1, 4, 7, 4, 8, 3, 6, 4, 8] := by
      rw [hds.eq_numeral (by decide), hvalue]
      decide
    exact hconvert
  · obtain ⟨text, ⟨ds, hds, hvalue, rfl⟩, hconvert, -⟩ := convert_numeral.2 0xffffffffffffffff
      (List.replicate 30 1) (by decide) (by decide)
    have hvalue : Numeral.value 16 ds = 0xffffffffffffffff := by exact_mod_cast hvalue
    obtain rfl : ds = List.replicate 16 15 := by
      rw [hds.eq_numeral (by decide), hvalue]
      decide
    exact hconvert

/-! ### What the stream inserts -/

theorem getD_of_lookup {table : List UInt8} {c : UInt8} (h : lookup table i = .ok c) :
    table.getD i.toNat 0 = c := by
  rw [lookup, check] at h
  split at h
  · exact Except.ok.inj h
  · cases h

theorem zero_eq {d : Int} (hd : d.natAbs < 10) : zero d = spellDecimal d.natAbs :=
  getD_of_lookup (lookup_digits hd)

theorem getD_digitsHex {d : Nat} (hd : d < 16) : digitsHex.getD d 0 = spellHex d :=
  getD_of_lookup (lookup_digitsHex (d := d) hd (Int.natCast_nonneg d))

theorem convertLoop_eq (fuel : Nat) (i : Int) (h : i.natAbs < fuel) :
    convertLoop fuel i = (numeral 10 i.natAbs).reverse.map spellDecimal := by
  induction fuel generalizing i with
  | zero => exact absurd h (Nat.not_lt_zero _)
  | succ fuel ih =>
    have hlsd : (i.tmod 10).natAbs = i.natAbs % 10 := Int.natAbs_tmod i 10
    have hquotient : (i.tdiv 10).natAbs = i.natAbs / 10 := Int.natAbs_tdiv i 10
    have hzero := zero_eq (d := i.tmod 10) (by omega)
    rw [convertLoop, numeral_eq (by decide), List.reverse_concat, List.map_cons, hzero, hlsd]
    congr 1
    by_cases hne : i.tdiv 10 = 0
    · rw [if_neg (not_not.mpr hne), if_pos (by rw [← hquotient, hne]; rfl)]
      rfl
    · rw [if_pos hne, if_neg (by rwa [← hquotient, Int.natAbs_eq_zero]), ih _ (by omega), hquotient]

theorem convertHexLoop_eq (fuel n : Nat) (h : n < fuel) :
    convertHexLoop fuel n = (numeral 16 n).reverse.map spellHex := by
  induction fuel generalizing n with
  | zero => exact absurd h (Nat.not_lt_zero _)
  | succ fuel ih =>
    have hdigit := getD_digitsHex (Nat.mod_lt n (by decide : 0 < 16))
    rw [convertHexLoop, numeral_eq (by decide), List.reverse_concat, List.map_cons, hdigit]
    congr 1
    by_cases hne : n / 16 = 0
    · rw [if_neg (not_not.mpr hne), if_pos hne]
      rfl
    · rw [if_pos hne, if_neg hne, ih _ (by omega)]

theorem text_eq_decimal (value : Int) : Leanet.convert value = decimal value := by
  rw [Leanet.convert, convertLoop_eq _ _ (Nat.lt_succ_self _), decimal,
    ← reverse_map_reverse (numeral 10 value.natAbs)]
  split
  · rw [List.reverse_concat]
    rfl
  · rfl

theorem textHex_eq (value : Nat) : Leanet.convertHex value = hexadecimal value := by
  rw [Leanet.convertHex, convertHexLoop_eq _ _ (Nat.lt_succ_self _), reverse_map_reverse]
  rfl

end Leanet.detail

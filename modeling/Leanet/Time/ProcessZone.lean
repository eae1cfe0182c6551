import Leanet.Time.LocalTime

/-! The time zone of the process.

`fromLocalTime` reads a local time with `mktime`, which subtracts the zone of the process
from what the fields say in UTC. The whole reading moves by that many seconds, and with it
the key that the table is searched for. Two processes agree on every local time only if
their zones do (`fromLocalTime_zoned`): were the zones `d` seconds apart, every step of `d`
seconds would have to change the offset found by `d`, and offsets are `int`s. -/
namespace Leanet.TimeZone
open Posix (civil gmtime_r)

variable {data : Data}

/-- No bounded offset makes up for a step. -/
theorem no_constant_step {off : Int → Int} {c d : Int}
    (hoff : ∀ y, -2147483648 ≤ off y ∧ off y ≤ 2147483647) (hd : 0 < d) :
    ∃ m : Nat, m * d ≤ 4294967296 ∧
      c + m * d + d - off (c + m * d + d) ≠ c + m * d - off (c + m * d) := by
  by_contra hall
  have hstep : ∀ m : Nat, m * d ≤ 4294967296 →
      off (c + m * d + d) = off (c + m * d) + d := by
    intro m hm
    by_contra hne
    exact hall ⟨m, hm, by omega⟩
  have hrun : ∀ n : Nat, n * d ≤ 4294967296 + d → off (c + n * d) = off c + n * d := by
    intro n
    induction n with
    | zero => simp
    | succ n ih =>
      intro hn
      rw [Nat.cast_succ, Int.add_mul, Int.one_mul] at hn ⊢
      rw [← Int.add_assoc, hstep n (by omega), ih (by omega), Int.add_assoc]
  obtain ⟨n, hn⟩ := Int.eq_ofNat_of_zero_le (show 0 ≤ 4294967296 / d by positivity)
  have hquot := Int.mul_ediv_add_emod 4294967296 d
  have hrem := Int.emod_lt_of_pos 4294967296 hd
  have hrem' := Int.emod_nonneg 4294967296 hd.ne'
  rw [hn, Int.mul_comm] at hquot
  have hlast : ((n + 1 : Nat) : Int) * d = n * d + d := by
    rw [Nat.cast_succ, Int.add_mul, Int.one_mul]
  have hsum := hrun (n + 1) (by omega)
  have hlow := hoff c
  have hhigh := hoff (c + (n + 1 : Nat) * d)
  change 4294967296 / d = (n : Int) at hn
  clear hstep hrun hall
  omega

/-- Outside summer time a local time is read at the offset that its key finds. -/
theorem fromLocalTime_civil (h : data.InRange) : ∃ off : Int → Int,
    (∀ y, ∃ l ∈ data.localtimes, off y = l.gmtOffset) ∧
    ∀ P x, fromLocalTime (Libc.zoned P) ⟨some data⟩ (civil x) = .ok (x - P - off (x - P)) := by
  choose found hmem hfound using fun y : Int => h.findLocaltime_ok ⟨0, y, 0⟩ ⟨false⟩
  refine ⟨fun y => (found y).gmtOffset, fun y => ⟨_, hmem y, rfl⟩, fun P x => ?_⟩
  have hread : (Libc.zoned P).mktime (civil x) = x - P := by
    show Posix.timegm (civil x) - P = x - P
    rw [Posix.timegm_civil]
  have hisdst : (civil x).tm_isdst = 0 := rfl
  simp [fromLocalTime, hread, hfound, hisdst]

/-- Two processes that read every local time alike are in one zone. -/
theorem zone_eq_of_read (h : data.InRange)
    (hint : ∀ l ∈ data.localtimes, -2147483648 ≤ l.gmtOffset ∧ l.gmtOffset ≤ 2147483647)
    {P Q : Int}
    (hsame : ∀ tm : Tm, tm.Fits → fromLocalTime (Libc.zoned P) ⟨some data⟩ tm =
      fromLocalTime (Libc.zoned Q) ⟨some data⟩ tm) : P ≤ Q := by
  obtain ⟨off, hoff, hread⟩ := fromLocalTime_civil h
  have hbound : ∀ y, -2147483648 ≤ off y ∧ off y ≤ 2147483647 := by
    intro y
    obtain ⟨l, hl, heq⟩ := hoff y
    rw [heq]
    exact hint l hl
  by_contra hlt
  obtain ⟨m, hm, hne⟩ := no_constant_step (c := -P) (d := P - Q) hbound (by omega)
  have hpos : 0 ≤ (m : Int) * (P - Q) := Int.mul_nonneg (Int.natCast_nonneg m) (by omega)
  have hfits := Posix.gmtime_r_fits
    (Posix.gmtime_r_some (x := m * (P - Q)) (Int.le_trans (by decide) hpos) (by omega))
  have heq := hsame _ hfits
  rw [hread, hread] at heq
  have hkey : -P + m * (P - Q) = m * (P - Q) - P := by omega
  have hkey' : -P + m * (P - Q) + (P - Q) = m * (P - Q) - Q := by omega
  rw [hkey', hkey] at hne
  exact hne (Except.ok.inj heq).symm

/-- Local time in a fixed zone and back, off by the zone of the process. -/
theorem fixed_back (P : Int) {east t : Int} {name : List UInt8}
    (hshown : gmtime_r (t + east) ≠ none) :
    ∃ tm, toLocalTime (Libc.zoned P) (fixed east name) t = .ok tm ∧
      fromLocalTime (Libc.zoned P) (fixed east name) tm = .ok (t - P) := by
  obtain ⟨tm, htm⟩ := Option.ne_none_iff_exists'.mp hshown
  have hshow : (Libc.zoned P).gmtime_r (t + east) = some tm := htm
  have hcivil := Posix.gmtime_r_eq htm
  set shown : Tm := { tm with
    tm_isdst := 0, tm_gmtoff := east, tm_zone := name.takeWhile (· ≠ 0) } with hshown'
  have hread : (Libc.zoned P).mktime shown = t + east - P := by
    show Posix.timegm tm - P = t + east - P
    rw [hcivil, Posix.timegm_civil]
  have hisdst : shown.tm_isdst = 0 := rfl
  refine ⟨shown, ?_, ?_⟩
  · simp [toLocalTime, fixed, findLocaltime, hshow, cstring, hshown']
  · simp [fromLocalTime, fixed, findLocaltime, hread, hisdst]
    omega

/-- **Processes agree on local times when their zones do, and only then**; and a fixed
zone takes local time back to the instant in a process in UTC, and only there. -/
theorem fromLocalTime_zoned (h : data.InRange)
    (hint : ∀ l ∈ data.localtimes, -2147483648 ≤ l.gmtOffset ∧ l.gmtOffset ≤ 2147483647)
    (P Q : Int) {east t : Int} (name : List UInt8) (hshown : gmtime_r (t + east) ≠ none) :
    ((∀ tm : Tm, tm.Fits → fromLocalTime (Libc.zoned P) ⟨some data⟩ tm =
        fromLocalTime (Libc.zoned Q) ⟨some data⟩ tm) ↔ P = Q) ∧
    ∃ tm, toLocalTime (Libc.zoned P) (fixed east name) t = .ok tm ∧
      (fromLocalTime (Libc.zoned P) (fixed east name) tm = .ok t ↔ P = 0) := by
  constructor
  · constructor
    · intro hsame
      exact Int.le_antisymm (zone_eq_of_read h hint hsame)
        (zone_eq_of_read h hint fun tm htm => (hsame tm htm).symm)
    · rintro rfl tm -
      rfl
  · obtain ⟨tm, hto, hfrom⟩ := fixed_back P hshown
    refine ⟨tm, hto, ?_⟩
    rw [hfrom, Except.ok.injEq]
    omega

theorem fromLocalTime_zoned_shanghai :
    ((∀ tm : Tm, tm.Fits → fromLocalTime (Libc.zoned 0) (fixed 28800 []) tm =
        fromLocalTime (Libc.zoned 3600) (fixed 28800 []) tm) ↔ (0 : Int) = 3600) ∧
    ∃ tm, toLocalTime (Libc.zoned 0) (fixed 28800 []) 951782400 = .ok tm ∧
      (fromLocalTime (Libc.zoned 0) (fixed 28800 []) tm = .ok 951782400 ↔ (0 : Int) = 0) := by
  refine fromLocalTime_zoned ⟨by decide, by simp, by simp⟩ (by decide) 0 3600 [] ?_
  decide

/-- The local time that a clock eight hours east of UTC shows at the epoch, read in a
process in UTC and in one that is itself eight hours east. -/
theorem fromLocalTime_process :
    let zone := fixed 28800 [67, 83, 84]
    let tm : Tm := ⟨0, 0, 8, 1, 0, 70, 4, 0, 0, 28800, [67, 83, 84]⟩
    toLocalTime (Libc.zoned 28800) zone 0 = .ok tm ∧
      fromLocalTime (Libc.zoned 0) zone tm = .ok 0 ∧
      fromLocalTime (Libc.zoned 28800) zone tm = .ok (-28800) := by
  decide

end Leanet.TimeZone

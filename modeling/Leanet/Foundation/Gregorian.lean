import Mathlib.Tactic.IntervalCases

/-! The proleptic Gregorian calendar.

A date is known by the number of days since 0000-03-01: with years that begin in March
the leap day comes last, so that the days before a year and the days before a month are
both given by one division (`daysBeforeYear`, `daysBeforeMonth`). `toDays` counts,
`ofDays` reads a count back, and on valid dates the two are inverse to each other
(`toDays_ofDays`, `ofDays_toDays`) and keep the order. -/
namespace Leanet.Gregorian

def Leap (year : Int) : Prop := year % 4 = 0 ∧ (year % 100 ≠ 0 ∨ year % 400 = 0)

instance (year : Int) : Decidable (Leap year) := inferInstanceAs (Decidable (_ ∧ _))

def daysOfMonth (year month : Int) : Int :=
  if month = 2 then if Leap year then 29 else 28
  else if month = 4 ∨ month = 6 ∨ month = 9 ∨ month = 11 then 30
  else 31

structure Date where
  year : Int
  month : Int
  day : Int
  deriving DecidableEq, Repr

structure Date.Valid (t : Date) : Prop where
  month : 1 ≤ t.month ∧ t.month ≤ 12
  day : 1 ≤ t.day ∧ t.day ≤ daysOfMonth t.year t.month

instance (t : Date) : Decidable t.Valid :=
  decidable_of_iff ((1 ≤ t.month ∧ t.month ≤ 12) ∧ 1 ≤ t.day ∧ t.day ≤ daysOfMonth t.year t.month)
    ⟨fun h => ⟨h.1, h.2⟩, fun h => ⟨h.month, h.day⟩⟩

/-- Earlier in the calendar. -/
instance : LT Date where
  lt s t := s.year < t.year ∨
    s.year = t.year ∧ (s.month < t.month ∨ s.month = t.month ∧ s.day < t.day)

instance : LE Date where
  le s t := s < t ∨ s = t

theorem Date.lt_def {s t : Date} : s < t ↔ s.year < t.year ∨
    s.year = t.year ∧ (s.month < t.month ∨ s.month = t.month ∧ s.day < t.day) := Iff.rfl

instance (s t : Date) : Decidable (s < t) := decidable_of_iff _ Date.lt_def.symm

instance (s t : Date) : Decidable (s ≤ t) := inferInstanceAs (Decidable (s < t ∨ s = t))

theorem Date.lt_trichotomy (s t : Date) : s < t ∨ s = t ∨ t < s := by
  obtain ⟨y, m, d⟩ := s
  obtain ⟨y', m', d'⟩ := t
  simp only [Date.lt_def, Date.mk.injEq]
  omega

/-! ### Years from March to February -/

/-- January and February belong to the year before. -/
def Date.marchYear (t : Date) : Int := if t.month ≤ 2 then t.year - 1 else t.year

/-- March is 0, February 11. -/
def Date.marchMonth (t : Date) : Int := if t.month ≤ 2 then t.month + 9 else t.month - 3

def daysBeforeYear (y : Int) : Int := 365 * y + y / 4 - y / 100 + y / 400

def daysBeforeMonth (m : Int) : Int := (153 * m + 2) / 5

def Date.dayOfYear (t : Date) : Int := daysBeforeMonth t.marchMonth + (t.day - 1)

/-- Days since 0000-03-01. -/
def toDays (t : Date) : Int := daysBeforeYear t.marchYear + t.dayOfYear

def ofDays (n : Int) : Date :=
  let b := (4 * n + 3) / 146097
  let c := n - 146097 * b / 4
  let d := (4 * c + 3) / 1461
  let e := c - 1461 * d / 4
  let m := (5 * e + 2) / 153
  ⟨100 * b + d + m / 10, m + 3 - 12 * (m / 10), e - daysBeforeMonth m + 1⟩

/-! ### A year and its days -/

variable {s t : Date} {y m e n : Int}

/-- A year is as long as the February it ends with makes it. -/
theorem daysBeforeYear_succ (y : Int) :
    daysBeforeYear (y + 1) = daysBeforeYear y + 337 + daysOfMonth (y + 1) 2 := by
  by_cases h : Leap (y + 1)
  · rw [daysOfMonth, if_pos rfl, if_pos h]
    unfold daysBeforeYear
    unfold Leap at h
    omega
  · rw [daysOfMonth, if_pos rfl, if_neg h]
    unfold daysBeforeYear
    unfold Leap at h
    omega

theorem daysBeforeYear_mono (h : y < n) : daysBeforeYear (y + 1) ≤ daysBeforeYear n := by
  unfold daysBeforeYear
  omega

/-- The month of a March-based year that ends where the next one begins. -/
theorem daysBeforeMonth_succ (h : 0 ≤ m) (h' : m ≤ 10) (year : Int) :
    daysBeforeMonth (m + 1) = daysBeforeMonth m + daysOfMonth year (m + 3 - 12 * (m / 10)) := by
  interval_cases m <;> simp [daysBeforeMonth, daysOfMonth]

theorem daysBeforeMonth_nonneg (h : 0 ≤ m) : 0 ≤ daysBeforeMonth m := by
  unfold daysBeforeMonth
  omega

theorem daysBeforeMonth_mono (h : m < n) : daysBeforeMonth (m + 1) ≤ daysBeforeMonth n := by
  unfold daysBeforeMonth
  omega

/-- A valid date, read from March on. -/
theorem Date.Valid.march (h : t.Valid) : 0 ≤ t.marchMonth ∧ t.marchMonth ≤ 11 ∧
    t.month = t.marchMonth + 3 - 12 * (t.marchMonth / 10) ∧
    t.year = t.marchYear + t.marchMonth / 10 := by
  obtain ⟨hlow, hhigh⟩ := h.month
  unfold marchMonth marchYear
  split <;> omega

/-- A date lies in its month, counted in days of the year. -/
theorem Date.Valid.dayOfYear_lt (h : t.Valid) : daysBeforeMonth t.marchMonth ≤ t.dayOfYear ∧
    (t.marchMonth ≤ 10 → t.dayOfYear < daysBeforeMonth (t.marchMonth + 1)) ∧
    t.dayOfYear < 337 + daysOfMonth (t.marchYear + 1) 2 := by
  obtain ⟨hlow, hhigh, hmonth, hyear⟩ := h.march
  obtain ⟨hday, hday'⟩ := h.day
  unfold dayOfYear
  refine ⟨by omega, fun hm => ?_, ?_⟩
  · rw [daysBeforeMonth_succ hlow hm t.year, ← hmonth]
    omega
  · by_cases hm : t.marchMonth ≤ 10
    · have hnext := daysBeforeMonth_succ hlow hm t.year
      have hfeb : 28 ≤ daysOfMonth (t.marchYear + 1) 2 := by
        unfold daysOfMonth
        split <;> split <;> omega
      have hlast : daysBeforeMonth (t.marchMonth + 1) ≤ 337 := by
        unfold daysBeforeMonth
        omega
      rw [← hmonth] at hnext
      omega
    · have h11 : t.marchMonth = 11 := by omega
      rw [h11] at hmonth hyear
      norm_num at hmonth hyear
      rw [hmonth, hyear] at hday'
      rw [h11, show daysBeforeMonth 11 = 337 from rfl]
      omega

/-- A date lies in its year. -/
theorem Date.Valid.toDays_bounds (h : t.Valid) :
    daysBeforeYear t.marchYear ≤ toDays t ∧ toDays t < daysBeforeYear (t.marchYear + 1) := by
  obtain ⟨hlow, -, hhigh⟩ := h.dayOfYear_lt
  have hpos := daysBeforeMonth_nonneg h.march.1
  rw [daysBeforeYear_succ]
  unfold toDays
  omega

/-- The count keeps the order. -/
theorem toDays_lt (hs : s.Valid) (ht : t.Valid) (h : s < t) : toDays s < toDays t := by
  obtain ⟨hs₀, hs₁, hsm, hsy⟩ := hs.march
  obtain ⟨ht₀, ht₁, htm, hty⟩ := ht.march
  obtain ⟨-, hsnext, hsend⟩ := hs.dayOfYear_lt
  obtain ⟨htlow, -, -⟩ := ht.dayOfYear_lt
  have horder : s.marchYear < t.marchYear ∨ s.marchYear = t.marchYear ∧
      (s.marchMonth < t.marchMonth ∨ s.marchMonth = t.marchMonth ∧ s.day < t.day) := by
    rw [Date.lt_def] at h
    omega
  have hpos := daysBeforeMonth_nonneg ht₀
  unfold toDays
  rcases horder with hy | ⟨hy, hm | ⟨hm, hd⟩⟩
  · have hmono := daysBeforeYear_mono hy
    rw [daysBeforeYear_succ] at hmono
    omega
  · have hmono := daysBeforeMonth_mono hm
    have := hsnext (by omega)
    rw [hy]
    omega
  · unfold Date.dayOfYear
    rw [hy, hm]
    omega

theorem toDays_le (hs : s.Valid) (ht : t.Valid) (h : s ≤ t) : toDays s ≤ toDays t := by
  rcases h with h | rfl
  · exact (toDays_lt hs ht h).le
  · exact le_rfl

theorem toDays_injective (hs : s.Valid) (ht : t.Valid) (h : toDays s = toDays t) : s = t := by
  rcases Date.lt_trichotomy s t with hlt | heq | hlt
  · exact absurd h (toDays_lt hs ht hlt).ne
  · exact heq
  · exact absurd h (toDays_lt ht hs hlt).ne'

/-! ### Reading a count back -/

theorem century_days (b : Int) : 146097 * b / 4 = 36524 * b + b / 4 := by omega

theorem year_days (d : Int) : 1461 * d / 4 = 365 * d + d / 4 := by omega

/-- A day falls in its century. -/
theorem century_bounds {b c : Int} (hb : b = (4 * n + 3) / 146097) (hc : c = n - 146097 * b / 4) :
    0 ≤ c ∧ c ≤ 36524 ∧ (c = 36524 → b % 4 = 3) := by
  rw [century_days] at hc
  have hdiv : 146097 * b ≤ 4 * n + 3 ∧ 4 * n + 3 < 146097 * b + 146097 := by
    clear hc
    omega
  clear hb
  refine ⟨by omega, by omega, fun h => by omega⟩

/-- A day of a century falls in its year. -/
theorem year_bounds {c d : Int} (h : 0 ≤ c) (h' : c ≤ 36524) (hd : d = (4 * c + 3) / 1461)
    (he : e = c - 1461 * d / 4) :
    0 ≤ d ∧ d ≤ 99 ∧ 0 ≤ e ∧ e ≤ 365 ∧ (e = 365 → d % 4 = 3) ∧ (e = 365 → d = 99 → c = 36524) := by
  rw [year_days] at he
  have hdiv : 1461 * d ≤ 4 * c + 3 ∧ 4 * c + 3 < 1461 * d + 1461 := by
    clear he
    omega
  clear hd
  refine ⟨by omega, by omega, by omega, by omega, fun h => by omega, fun h h'' => by omega⟩

/-- A day of a year falls in its month. -/
theorem month_bounds (h : 0 ≤ e) (h' : e ≤ 365) (hm : m = (5 * e + 2) / 153) :
    0 ≤ m ∧ m ≤ 11 ∧ daysBeforeMonth m ≤ e ∧ e < daysBeforeMonth (m + 1) := by
  unfold daysBeforeMonth
  refine ⟨by omega, by omega, by omega, by omega⟩

theorem month_valid (h : 0 ≤ m) (h' : m ≤ 11) :
    1 ≤ m + 3 - 12 * (m / 10) ∧ m + 3 - 12 * (m / 10) ≤ 12 := by
  omega

/-- The last day of a long year is a leap day. -/
theorem leap_of_last {b d : Int} (hd : 0 ≤ d) (hd' : d ≤ 99) (hfour : d % 4 = 3)
    (hcentury : d = 99 → b % 4 = 3) : Leap (100 * b + d + 1) := by
  unfold Leap
  omega

/-- Centuries and years of a century make years. -/
theorem daysBeforeYear_century {b d : Int} (hd : 0 ≤ d) (hd' : d ≤ 99) :
    daysBeforeYear (100 * b + d) = 146097 * b / 4 + 1461 * d / 4 := by
  have hfour : (100 * b + d) / 4 = 25 * b + d / 4 := by omega
  have hcentury : (100 * b + d) / 100 = b := by omega
  have hlong : (100 * b + d) / 400 = b / 4 := by omega
  rw [daysBeforeYear, hfour, hcentury, hlong, century_days, year_days]
  omega

/-- The date read back from a count is valid and is the date counted. -/
theorem ofDays_spec (n : Int) : (ofDays n).Valid ∧ toDays (ofDays n) = n := by
  simp only [ofDays]
  generalize hb : (4 * n + 3) / 146097 = b
  generalize hc : n - 146097 * b / 4 = c
  generalize hd : (4 * c + 3) / 1461 = d
  generalize he : c - 1461 * d / 4 = e
  generalize hm : (5 * e + 2) / 153 = m
  obtain ⟨hc₀, hc₁, hcentury⟩ := century_bounds hb.symm hc.symm
  obtain ⟨hd₀, hd₁, he₀, he₁, hfour, hlast⟩ := year_bounds hc₀ hc₁ hd.symm he.symm
  obtain ⟨hm₀, hm₁, hlow, hhigh⟩ := month_bounds he₀ he₁ hm.symm
  refine ⟨⟨month_valid hm₀ hm₁, ?_⟩, ?_⟩
  · dsimp only
    refine ⟨by omega, ?_⟩
    by_cases hmarch : m ≤ 10
    · have := daysBeforeMonth_succ hm₀ hmarch (100 * b + d + m / 10)
      omega
    · obtain rfl : m = 11 := by omega
      have hstart : daysBeforeMonth 11 = 337 := rfl
      have hfeb : (11 : Int) + 3 - 12 * (11 / 10) = 2 := rfl
      have hyear : 100 * b + d + 11 / 10 = 100 * b + d + 1 := rfl
      rw [hstart, hfeb, hyear, daysOfMonth, if_pos rfl]
      split
      · omega
      · next hshort =>
        have : e ≠ 365 := fun h => hshort
          (leap_of_last hd₀ hd₁ (hfour h) fun h99 => hcentury (hlast h h99))
        omega
  · have hyear : (⟨100 * b + d + m / 10, m + 3 - 12 * (m / 10), e - daysBeforeMonth m + 1⟩ :
        Date).marchYear = 100 * b + d := by
      unfold Date.marchYear
      dsimp only
      split <;> omega
    have hmonth : (⟨100 * b + d + m / 10, m + 3 - 12 * (m / 10), e - daysBeforeMonth m + 1⟩ :
        Date).marchMonth = m := by
      unfold Date.marchMonth
      dsimp only
      split <;> omega
    rw [toDays, Date.dayOfYear, hyear, hmonth, daysBeforeYear_century hd₀ hd₁]
    dsimp only
    omega

theorem ofDays_valid (n : Int) : (ofDays n).Valid := (ofDays_spec n).1

theorem toDays_ofDays (n : Int) : toDays (ofDays n) = n := (ofDays_spec n).2

theorem ofDays_toDays (h : t.Valid) : ofDays (toDays t) = t :=
  toDays_injective (ofDays_valid _) h (toDays_ofDays _)

theorem toDays_lt_iff (hs : s.Valid) (ht : t.Valid) : toDays s < toDays t ↔ s < t := by
  refine ⟨fun h => ?_, toDays_lt hs ht⟩
  rcases Date.lt_trichotomy s t with hlt | rfl | hlt
  · exact hlt
  · exact absurd h (lt_irrefl _)
  · exact absurd (toDays_lt ht hs hlt) h.asymm

/-! ### The day after -/

/-- The next day of the month, else the first of the next month, else of the next year. -/
def Date.next (t : Date) : Date :=
  if t.day < daysOfMonth t.year t.month then { t with day := t.day + 1 }
  else if t.month < 12 then ⟨t.year, t.month + 1, 1⟩
  else ⟨t.year + 1, 1, 1⟩

theorem daysOfMonth_pos (year month : Int) : 1 ≤ daysOfMonth year month := by
  unfold daysOfMonth
  split_ifs <;> decide

theorem Date.Valid.next (h : t.Valid) : t.next.Valid := by
  obtain ⟨⟨hm, hm'⟩, hd, hd'⟩ := h
  unfold Date.next
  split
  · next hday => exact ⟨⟨hm, hm'⟩, by dsimp only; omega, by dsimp only; omega⟩
  · split
    · next hmonth => exact ⟨⟨by dsimp only; omega, by dsimp only; omega⟩, le_rfl, daysOfMonth_pos _ _⟩
    · exact ⟨⟨le_rfl, (by decide : (1 : Int) ≤ 12)⟩, le_rfl, daysOfMonth_pos _ _⟩

theorem Date.lt_next (t : Date) : t < t.next := by
  rw [Date.lt_def, Date.next]
  split
  · exact .inr ⟨rfl, .inr ⟨rfl, Int.lt_succ _⟩⟩
  · split
    · exact .inr ⟨rfl, .inl (Int.lt_succ _)⟩
    · exact .inl (Int.lt_succ _)

/-- No valid date lies between. -/
theorem Date.Valid.next_le (hs : s.Valid) (ht : t.Valid) (h : s < t) : s.next ≤ t := by
  obtain ⟨⟨hm, hm'⟩, hd, hd'⟩ := hs
  obtain ⟨⟨ht₁, ht₂⟩, ht₃, ht₄⟩ := ht
  obtain ⟨y, m, d⟩ := s
  obtain ⟨y', m', d'⟩ := t
  show _ < _ ∨ _ = _
  rw [Date.lt_def] at h
  rw [Date.lt_def, Date.next]
  dsimp only at *
  have hmonth : y = y' → m = m' → d' ≤ daysOfMonth y m := by
    rintro rfl rfl
    exact ht₄
  split
  · simp only [Date.mk.injEq]
    omega
  · split
    · simp only [Date.mk.injEq]
      omega
    · simp only [Date.mk.injEq]
      omega

/-- **The count goes up by one each day.** -/
theorem toDays_next (h : t.Valid) : toDays t.next = toDays t + 1 := by
  have hvalid := ofDays_valid (toDays t + 1)
  have hcount := toDays_ofDays (toDays t + 1)
  have hlt := toDays_lt h h.next t.lt_next
  have hafter : t < ofDays (toDays t + 1) := (toDays_lt_iff h hvalid).mp (by omega)
  have hle := toDays_le h.next hvalid (h.next_le hvalid hafter)
  omega

/-! ### Days of the week -/

/-- Sunday is 0; 0000-03-01 is a Wednesday. -/
def weekday (t : Date) : Int := (toDays t + 3) % 7

/-- What names the days of the week: 1970-01-01 is a Thursday, and from one day to the next the
name goes on by one. -/
structure DaysOfWeek (w : Date → Int) : Prop where
  bounds : ∀ t : Date, t.Valid → 0 ≤ w t ∧ w t ≤ 6
  thursday : w ⟨1970, 1, 1⟩ = 4
  next : ∀ t : Date, t.Valid → w t.next = (w t + 1) % 7

theorem weekday_daysOfWeek : DaysOfWeek weekday where
  bounds t _ := by
    unfold weekday
    omega
  thursday := rfl
  next t h := by
    unfold weekday
    rw [toDays_next h]
    omega

theorem next_ofDays (n : Int) : (ofDays n).next = ofDays (n + 1) :=
  toDays_injective (ofDays_valid n).next (ofDays_valid _)
    (by rw [toDays_next (ofDays_valid n), toDays_ofDays, toDays_ofDays])

/-- **There is one way to name them.** -/
theorem DaysOfWeek.eq {w : Date → Int} (hw : DaysOfWeek w) (h : t.Valid) : w t = weekday t := by
  suffices ∀ k, w (ofDays (719468 + k)) = (719468 + k + 3) % 7 by
    have hday := this (toDays t - 719468)
    rwa [add_sub_cancel, ofDays_toDays h] at hday
  intro k
  induction k using Int.induction_on with
  | zero => exact hw.thursday
  | succ k ih =>
    have hnext := hw.next _ (ofDays_valid (719468 + k))
    rw [next_ofDays, ih] at hnext
    rw [← add_assoc, hnext]
    omega
  | pred k ih =>
    have hvalid := ofDays_valid (719468 + (-k - 1))
    have hnext := hw.next _ hvalid
    have hsame : 719468 + (-(k : Int) - 1) + 1 = 719468 + -k := by omega
    rw [next_ofDays, hsame, ih] at hnext
    have hbounds := hw.bounds _ hvalid
    omega

end Leanet.Gregorian

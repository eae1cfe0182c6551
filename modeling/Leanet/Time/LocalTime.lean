import Leanet.Time.TimeZone

/-! Local time and back.

Before the first transition a zone shows its first type of local time, after the `k`-th
the one that transition switches to: `Data.period` numbers these periods. In a sorted table
`findLocaltime` finds the period of its key (`findLocaltime_eq`), which is what a scan of the
whole table finds (`findLocaltime_scan`).

Where the clock is set back an hour is shown twice. There the search by local key finds
the period after the transition for both, and the retry with `tm_isdst` is what tells the
first from the second: the round trip (`fromLocalTime_toLocalTime`) is that argument for
every instant of a zone that is set back from summer time only, and by an hour. -/
namespace Leanet
open LowerBound

/-- The key of a search. -/
def Comp.key (comp : Comp) (t : Transition) : Int :=
  if comp.compareGmt then t.gmtime else t.localtime

theorem Comp.less_iff {comp : Comp} {a b : Transition} :
    comp.less a b = true ↔ comp.key a < comp.key b := by
  unfold less key
  split <;> exact decide_eq_true_iff

theorem Comp.equal_iff {comp : Comp} {a b : Transition} :
    comp.equal a b = true ↔ comp.key a = comp.key b := by
  unfold equal key
  split <;> exact beq_iff_eq

namespace Data

/-- The type of local time after `k` transitions. -/
def period (data : Data) : Nat → Option Localtime
  | 0 => data.localtimes.head?
  | k + 1 => data.transitions[k]?.bind fun t => data.localtimes[t.localtimeIdx]?

/-- What the indices refer to is there. -/
structure InRange (data : Data) : Prop where
  nonempty : data.localtimes ≠ []
  localtimeIdx : ∀ t ∈ data.transitions, t.localtimeIdx < data.localtimes.length
  arrbIdx : ∀ l ∈ data.localtimes, l.arrbIdx ≤ data.abbreviation.length

def Sorted (data : Data) (comp : Comp) : Prop :=
  ∀ (i j : Nat) (a b : Transition), i < j → data.transitions[i]? = some a →
    data.transitions[j]? = some b → comp.key a < comp.key b

/-- `x` lies in the `k`-th period: at or after `k` transitions, before the others. -/
structure Within (data : Data) (comp : Comp) (x : Int) (k : Nat) : Prop where
  bound : k ≤ data.transitions.length
  past : ∀ (i : Nat) (t : Transition), data.transitions[i]? = some t →
    (i < k ↔ comp.key t ≤ x)

variable {data : Data} {comp : Comp} {sentry : Transition} {x : Int} {k : Nat}

theorem Within.unique {k' : Nat} (h : data.Within comp x k) (h' : data.Within comp x k') :
    k = k' := by
  have hsame : ∀ i < data.transitions.length, i < k ↔ i < k' := fun i hi =>
    (h.past i _ (List.getElem?_eq_getElem hi)).trans
      (h'.past i _ (List.getElem?_eq_getElem hi)).symm
  have hk := h.bound
  have hk' := h'.bound
  rcases Nat.lt_trichotomy k k' with hlt | heq | hgt
  · have := hsame k (by omega)
    omega
  · exact heq
  · have := hsame k' (by omega)
    omega

/-- What a period refers to is there. -/
theorem exists_period (hne : data.localtimes ≠ [])
    (hidx : ∀ t ∈ data.transitions, t.localtimeIdx < data.localtimes.length)
    (hk : k ≤ data.transitions.length) : ∃ l ∈ data.localtimes, data.period k = some l := by
  cases k with
  | zero =>
    obtain ⟨l, rest, hl⟩ := List.exists_cons_of_ne_nil hne
    exact ⟨l, by simp [hl], by simp [Data.period, hl]⟩
  | succ k =>
    have hlt : k < data.transitions.length := hk
    have hin := hidx _ (List.getElem_mem hlt)
    exact ⟨_, List.getElem_mem hin, by simp [Data.period, hlt, hin]⟩

theorem InRange.period_some (h : data.InRange) (hk : k ≤ data.transitions.length) :
    ∃ l ∈ data.localtimes, data.period k = some l :=
  exists_period h.nonempty h.localtimeIdx hk

/-- In a sorted table the neighbours decide. -/
theorem Sorted.within_succ (h : data.Sorted comp) {a : Transition}
    (ha : data.transitions[k]? = some a) (hpast : comp.key a ≤ x)
    (hnext : ∀ b, data.transitions[k + 1]? = some b → x < comp.key b) :
    data.Within comp x (k + 1) := by
  refine ⟨(List.getElem?_eq_some_iff.mp ha).1, fun i t ht => ?_⟩
  rcases Nat.lt_trichotomy i k with hlt | rfl | hgt
  · have := h i k t a hlt ht ha
    omega
  · obtain rfl := Option.some.inj (ha.symm.trans ht)
    omega
  · rcases Nat.eq_or_lt_of_le (show k + 1 ≤ i from hgt) with rfl | hgt'
    · have := hnext t ht
      omega
    · have hlt : k + 1 < data.transitions.length := by
        have := (List.getElem?_eq_some_iff.mp ht).1
        omega
      have := hnext _ (List.getElem?_eq_getElem hlt)
      have := h (k + 1) i _ t hgt' (List.getElem?_eq_getElem hlt) ht
      omega

/-! ### The search -/

/-- In range, the search finds a type of local time, whatever the order of the table. -/
theorem InRange.findLocaltime_ok (h : data.InRange) (sentry : Transition) (comp : Comp) :
    ∃ l ∈ data.localtimes, findLocaltime data sentry comp = .ok l := by
  have hindex : ∀ t ∈ data.transitions, ∃ l ∈ data.localtimes,
      deref data.localtimes[t.localtimeIdx]? = .ok l := by
    intro t ht
    have hidx := h.localtimeIdx t ht
    exact ⟨_, List.getElem_mem hidx, by rw [List.getElem?_eq_getElem hidx, deref_some]⟩
  obtain ⟨first, hmem, hfirst⟩ := h.period_some (Nat.zero_le _)
  have hfront : deref data.localtimes.head? = .ok first := by
    rw [show data.localtimes.head? = some first from hfirst, deref_some]
  unfold findLocaltime
  cases hhead : data.transitions.head? with
  | none => exact ⟨first, hmem, hfront⟩
  | some front =>
    dsimp only
    by_cases hless : comp.less sentry front = true
    · exact ⟨first, hmem, by rw [if_pos hless, hfront]⟩
    rw [if_neg hless]
    obtain ⟨hle, hlow, hhigh⟩ := lowerBound_spec data.transitions fun t => comp.less t sentry
    generalize lowerBound data.transitions (fun t => comp.less t sentry) = iter at hle hlow hhigh ⊢
    cases hget : data.transitions[iter]? with
    | none =>
      have hne : data.transitions ≠ [] := List.ne_nil_of_mem (List.mem_of_head? hhead)
      simp only [List.getLast?_eq_some_getLast hne, deref_some, ok_bind]
      exact hindex _ (List.getLast_mem hne)
    | some t =>
      dsimp only
      by_cases hequal : comp.equal sentry t = true
      · simp only [hequal, Bool.not_true, Bool.false_eq_true, if_false]
        exact hindex t (List.mem_of_getElem? hget)
      · -- at the first transition neither would be less, and the keys equal
        have hpos : iter ≠ 0 := by
          rintro rfl
          rw [← List.head?_eq_getElem?, hhead] at hget
          obtain rfl := Option.some.inj hget
          obtain hend | ⟨a, ha, hnot⟩ := hhigh
          · simp [List.eq_nil_of_length_eq_zero hend.symm] at hhead
          · rw [← List.head?_eq_getElem?, hhead] at ha
            obtain rfl := Option.some.inj ha
            rw [Comp.equal_iff] at hequal
            rw [Comp.less_iff] at hless
            have := Comp.less_iff.not.mp (by simpa using hnot)
            omega
        have hlt : iter - 1 < data.transitions.length := by omega
        simp only [hequal, Bool.not_false, if_true, assert_holds hpos, ok_bind,
          List.getElem?_eq_getElem hlt, deref_some]
        exact hindex _ (List.getElem_mem hlt)

/-- After the whole table. -/
theorem findLocaltime_after (h : ∀ t ∈ data.transitions, comp.key t < comp.key sentry) :
    findLocaltime data sentry comp = deref (data.period data.transitions.length) := by
  unfold findLocaltime
  cases hhead : data.transitions.head? with
  | none =>
    have hnil : data.transitions = [] := List.head?_eq_none_iff.mp hhead
    simp [hnil, Data.period]
  | some front =>
    have hfront := h front (List.mem_of_head? hhead)
    have hend : lowerBound data.transitions (fun t => comp.less t sentry) =
        data.transitions.length := by
      obtain ⟨-, -, hend | ⟨a, ha, hnot⟩⟩ :=
        lowerBound_spec data.transitions fun t => comp.less t sentry
      · exact hend
      · exact absurd (Comp.less_iff.mpr (h a (List.mem_of_getElem? ha))) (by simpa using hnot)
    obtain ⟨n, hn⟩ : ∃ n, data.transitions.length = n + 1 := by
      have := List.length_pos_of_mem (List.mem_of_head? hhead)
      exact ⟨_, (Nat.sub_add_cancel this).symm⟩
    have hless : ¬ comp.less sentry front = true := by
      rw [Comp.less_iff]
      omega
    dsimp only
    rw [if_neg hless, hend, List.getElem?_eq_none (Nat.le_refl _), List.getLast?_eq_getElem?, hn]
    rw [Data.period, Nat.add_sub_cancel, List.getElem?_eq_getElem (by omega)]
    rfl

/-- In a sorted table the first key is the least. -/
theorem Sorted.front_le (h : data.Sorted comp) {front t : Transition} {i : Nat}
    (hfront : data.transitions[0]? = some front) (ht : data.transitions[i]? = some t) :
    comp.key front ≤ comp.key t := by
  rcases Nat.eq_zero_or_pos i with rfl | hpos
  · rw [Option.some.inj (hfront.symm.trans ht)]
  · exact (h 0 i front t hpos hfront ht).le

/-- In a sorted table the bound parts the smaller keys from the others. -/
theorem Sorted.lt_lowerBound (h : data.Sorted comp) {sentry t : Transition} {i : Nat}
    (ht : data.transitions[i]? = some t) :
    i < lowerBound data.transitions (fun t => comp.less t sentry) ↔
      comp.key t < comp.key sentry := by
  rw [lt_lowerBound_iff ?_ ht, Comp.less_iff]
  intro i j a b hij ha hb hless
  rw [Comp.less_iff] at hless ⊢
  rcases Nat.eq_or_lt_of_le hij with rfl | hlt
  · rwa [Option.some.inj (ha.symm.trans hb)]
  · exact (h i j a b hlt ha hb).trans hless

/-- In a sorted table the search finds the period of its key. -/
theorem findLocaltime_eq (h : data.Sorted comp) (sentry : Transition) :
    ∃ k, data.Within comp (comp.key sentry) k ∧
      findLocaltime data sentry comp = deref (data.period k) := by
  unfold findLocaltime
  cases hhead : data.transitions.head? with
  | none =>
    have hnil : data.transitions = [] := List.head?_eq_none_iff.mp hhead
    exact ⟨0, ⟨Nat.zero_le _, by simp [hnil]⟩, rfl⟩
  | some front =>
    have hfront : data.transitions[0]? = some front := by rw [← hhead, List.head?_eq_getElem?]
    by_cases hless : comp.less sentry front = true
    · refine ⟨0, ⟨Nat.zero_le _, fun i t ht => ?_⟩, if_pos hless⟩
      have := h.front_le hfront ht
      rw [Comp.less_iff] at hless
      omega
    dsimp only
    rw [if_neg hless]
    rw [Comp.less_iff] at hless
    have hbelow (i : Nat) (t : Transition) (ht : data.transitions[i]? = some t) :
        i < lowerBound data.transitions (fun t => comp.less t sentry) ↔
          comp.key t < comp.key sentry := h.lt_lowerBound ht
    have hle := (lowerBound_spec data.transitions fun t => comp.less t sentry).1
    generalize hiter : lowerBound data.transitions (fun t => comp.less t sentry) = iter at hbelow hle
    cases hget : data.transitions[iter]? with
    | none =>
      obtain rfl : iter = data.transitions.length :=
        Nat.le_antisymm hle (List.getElem?_eq_none_iff.mp hget)
      have hall : ∀ t ∈ data.transitions, comp.key t < comp.key sentry := by
        intro t ht
        obtain ⟨i, hi, rfl⟩ := List.getElem_of_mem ht
        exact (hbelow i _ (List.getElem?_eq_getElem hi)).mp hi
      refine ⟨_, ⟨Nat.le_refl _, fun i t ht => ?_⟩, ?_⟩
      · exact iff_of_true (List.getElem?_eq_some_iff.mp ht).1
          (hall t (List.mem_of_getElem? ht)).le
      · have hafter := findLocaltime_after hall
        rw [findLocaltime, hhead] at hafter
        simp only [Comp.less_iff.not.mpr hless, hiter, hget] at hafter
        exact hafter
    | some t =>
      by_cases hequal : comp.equal sentry t = true
      · have heq : comp.key sentry = comp.key t := Comp.equal_iff.mp hequal
        refine ⟨iter + 1, h.within_succ hget heq.ge fun b hb => ?_, ?_⟩
        · rw [heq]
          exact h iter (iter + 1) t b (Nat.lt_succ_self iter) hget hb
        · simp [hequal, Data.period, hget]
      · have hne : comp.key sentry ≠ comp.key t := Comp.equal_iff.not.mp hequal
        have hge : comp.key sentry ≤ comp.key t := by
          have := hbelow iter t hget
          omega
        -- the first transition is not after the key, so one lies before the bound
        have hpos : iter ≠ 0 := by
          rintro rfl
          obtain rfl := Option.some.inj (hfront.symm.trans hget)
          omega
        obtain ⟨n, rfl⟩ := Nat.exists_eq_succ_of_ne_zero hpos
        have hn : n < data.transitions.length := hle
        have hlast := List.getElem?_eq_getElem hn
        have hbefore := (hbelow n _ hlast).mp (Nat.lt_succ_self n)
        refine ⟨n + 1, h.within_succ hlast hbefore.le fun b hb => ?_, ?_⟩
        · obtain rfl := Option.some.inj (hget.symm.trans hb)
          omega
        · simp [hequal, Data.period, hn]

theorem Within.findLocaltime_eq {s : Transition} (hk : data.Within comp (comp.key s) k)
    (h : data.Sorted comp) : findLocaltime data s comp = deref (data.period k) := by
  obtain ⟨k', hk', hfind⟩ := Data.findLocaltime_eq h s
  rw [hfind, hk.unique hk']

/-! ### The scan -/

/-- The type of the last transition at or before `x`, found by looking at all of them. -/
def scan (data : Data) (comp : Comp) (x : Int) : Option Localtime :=
  match (data.transitions.filter fun t => comp.key t ≤ x).getLast? with
  | some t => data.localtimes[t.localtimeIdx]?
  | none => data.localtimes.head?

/-- The transitions at or before `x` are those the period counts. -/
theorem Within.filter_eq (h : data.Within comp x k) :
    data.transitions.filter (fun t => comp.key t ≤ x) = data.transitions.take k := by
  have hpast (i : Nat) (hi : i < data.transitions.length) :
      i < k ↔ comp.key data.transitions[i] ≤ x := h.past i _ (List.getElem?_eq_getElem hi)
  have hkept : (data.transitions.take k).filter (fun t => comp.key t ≤ x) =
      data.transitions.take k := by
    refine List.filter_eq_self.mpr fun t ht => ?_
    obtain ⟨i, hi, rfl⟩ := List.getElem_of_mem ht
    rw [List.length_take] at hi
    rw [List.getElem_take]
    exact decide_eq_true ((hpast i (by omega)).mp (by omega))
  have hgone : (data.transitions.drop k).filter (fun t => comp.key t ≤ x) = [] := by
    refine List.filter_eq_nil_iff.mpr fun t ht => ?_
    obtain ⟨i, hi, rfl⟩ := List.getElem_of_mem ht
    rw [List.length_drop] at hi
    rw [List.getElem_drop, decide_eq_true_iff]
    exact (hpast (k + i) (by omega)).not.mp (by omega)
  conv_lhs => rw [← List.take_append_drop k data.transitions]
  rw [List.filter_append, hkept, hgone, List.append_nil]

theorem Within.scan_eq (h : data.Within comp x k) : data.scan comp x = data.period k := by
  rw [scan, h.filter_eq]
  cases k with
  | zero => rw [List.take_zero, List.getLast?_nil, period]
  | succ k =>
    have hk : k < data.transitions.length := h.bound
    rw [period, List.getLast?_eq_getElem?, List.length_take, Nat.min_eq_left h.bound,
      Nat.add_sub_cancel, List.getElem?_take_of_lt (Nat.lt_succ_self k), List.getElem?_eq_getElem hk]
    rfl

/-- **The search finds what the scan finds**, and does not fault, by either key and for every
sentry. -/
theorem findLocaltime_scan (hne : data.localtimes ≠ [])
    (hidx : ∀ t ∈ data.transitions, t.localtimeIdx < data.localtimes.length)
    (h : data.Sorted comp) (sentry : Transition) :
    ∃ l, data.scan comp (comp.key sentry) = some l ∧ findLocaltime data sentry comp = .ok l := by
  obtain ⟨k, hk, hfind⟩ := findLocaltime_eq h sentry
  obtain ⟨l, -, hl⟩ := exists_period hne hidx hk.bound
  exact ⟨l, by rw [hk.scan_eq, hl], by rw [hfind, hl, deref_some]⟩

/-- Before the first transition, on one and after the last, by the local key. -/
theorem findLocaltime_scan_summer :
    let zone : Data := ⟨[⟨1000000, 1007200, 1⟩, ⟨2000000, 2003600, 0⟩],
      [⟨3600, false, 0⟩, ⟨7200, true, 4⟩], []⟩
    [1007199, 1007200, 2003599, 2003600].map (zone.scan ⟨false⟩) =
        [some ⟨3600, false, 0⟩, some ⟨7200, true, 4⟩, some ⟨7200, true, 4⟩, some ⟨3600, false, 0⟩] ∧
      findLocaltime zone ⟨0, 1007200, 0⟩ ⟨false⟩ = .ok ⟨7200, true, 4⟩ := by
  intro zone
  have hsorted : zone.Sorted ⟨false⟩ := by
    intro i j a b hij ha hb
    have hj : j < 2 := (List.getElem?_eq_some_iff.mp hb).1
    obtain ⟨rfl, rfl⟩ : i = 0 ∧ j = 1 := by omega
    obtain rfl := Option.some.inj ha
    obtain rfl := Option.some.inj hb
    decide
  obtain ⟨l, hscan, hfind⟩ :=
    findLocaltime_scan (by decide) (by decide) hsorted ⟨0, 1007200, 0⟩
  have hsame : zone.scan ⟨false⟩ 1007200 = some ⟨7200, true, 4⟩ := by decide
  obtain rfl := Option.some.inj (hscan.symm.trans hsame)
  exact ⟨by decide, hfind⟩

/-! ### Zones set back from summer time -/

/-- Transitions lie an hour apart by either key, and the clock is only ever set back from
summer time, by an hour. -/
structure Regular (data : Data) : Prop extends data.InRange where
  localtime : ∀ t ∈ data.transitions, ∀ l : Localtime,
    data.localtimes[t.localtimeIdx]? = some l → t.localtime = t.gmtime + l.gmtOffset
  gap : ∀ (i : Nat) (a b : Transition), data.transitions[i]? = some a →
    data.transitions[i + 1]? = some b →
    a.gmtime + 3600 ≤ b.gmtime ∧ a.localtime + 3600 ≤ b.localtime
  back : ∀ (k : Nat) (a b : Localtime), data.period k = some a → data.period (k + 1) = some b →
    b.gmtOffset < a.gmtOffset →
    a.isDst = true ∧ b.isDst = false ∧ b.gmtOffset = a.gmtOffset - 3600

theorem Regular.gap_key (h : data.Regular) (comp : Comp) {i : Nat} {a b : Transition}
    (ha : data.transitions[i]? = some a) (hb : data.transitions[i + 1]? = some b) :
    comp.key a + 3600 ≤ comp.key b := by
  obtain ⟨hgmt, hlocal⟩ := h.gap i a b ha hb
  unfold Comp.key
  split
  · exact hgmt
  · exact hlocal

theorem Regular.sorted (h : data.Regular) (comp : Comp) : data.Sorted comp := by
  intro i j a b hij ha hb
  obtain ⟨n, rfl⟩ := Nat.exists_eq_add_of_lt hij
  clear hij
  induction n generalizing b with
  | zero =>
    have := h.gap_key comp ha hb
    omega
  | succ n ih =>
    have hlt : i + n + 1 < data.transitions.length := by
      have := (List.getElem?_eq_some_iff.mp hb).1
      omega
    have hprev := ih _ (List.getElem?_eq_getElem hlt)
    have := h.gap_key comp (List.getElem?_eq_getElem hlt) hb
    omega

/-- The local key of a transition, by the period it opens. -/
theorem Regular.localtime_eq (h : data.Regular) {t : Transition} {l : Localtime}
    (ht : data.transitions[k]? = some t) (hl : data.period (k + 1) = some l) :
    t.localtime = t.gmtime + l.gmtOffset := by
  refine h.localtime t (List.mem_of_getElem? ht) l ?_
  simpa [Data.period, ht] using hl

/-- The local key of an instant lies in its own period, or in the next one: then the
instant is in the first showing of a repeated hour. -/
theorem Regular.within_local (h : data.Regular) {t : Int} {k j : Nat} {l : Localtime}
    (hk : data.Within ⟨true⟩ t k) (hl : data.period k = some l)
    (hj : data.Within ⟨false⟩ (t + l.gmtOffset) j) :
    j = k ∨ j = k + 1 ∧ l.isDst = true ∧ data.Within ⟨true⟩ (t + 3600) (k + 1) ∧
      ∃ l', data.period (k + 1) = some l' ∧ l'.isDst = false ∧
        l'.gmtOffset = l.gmtOffset - 3600 := by
  have hbound := hj.bound
  have hlower : k ≤ j := by
    cases k with
    | zero => exact Nat.zero_le _
    | succ n =>
      have hn := List.getElem?_eq_getElem hk.bound
      have hpast := (hk.past n _ hn).mp (Nat.lt_succ_self n)
      have hlocal := h.localtime_eq hn hl
      refine (hj.past n _ hn).mpr ?_
      simp only [Comp.key, if_true, Bool.false_eq_true, if_false] at hpast ⊢
      omega
  rcases Nat.eq_or_lt_of_le hlower with rfl | hupper
  · exact .inl rfl
  -- the next transition is past by its local key, though not by the instant
  obtain ⟨c, hc⟩ : ∃ c, data.transitions[k]? = some c :=
    ⟨_, List.getElem?_eq_getElem (Nat.lt_of_lt_of_le hupper hbound)⟩
  obtain ⟨l', -, hl'⟩ := h.toInRange.period_some (Nat.lt_of_lt_of_le hupper hbound)
  have hlocal := h.localtime_eq hc hl'
  have hnot := (hk.past k _ hc).not.mp (Nat.lt_irrefl k)
  have hpast := (hj.past k _ hc).mp hupper
  simp only [Comp.key, if_true, Bool.false_eq_true, if_false] at hnot hpast
  obtain ⟨hdst, hstd, hoffset⟩ := h.back k l l' hl hl' (by omega)
  have hlater : data.Within ⟨true⟩ (t + 3600) (k + 1) := by
    refine (h.sorted _).within_succ hc ?_ fun d hd => ?_
    · show c.gmtime ≤ t + 3600
      omega
    · show t + 3600 < d.gmtime
      have := h.gap k c d hc hd
      omega
  have hlocal' : data.Within ⟨false⟩ (t + l.gmtOffset) (k + 1) := by
    refine (h.sorted _).within_succ hc hpast fun d hd => ?_
    show t + l.gmtOffset < d.localtime
    have := h.gap k c d hc hd
    omega
  exact .inr ⟨hj.unique hlocal', hdst, hlater, l', hl', hstd, hoffset⟩

/-! ### The round trip -/

end Data

namespace TimeZone

variable {libc : Libc} {data : Data} {l : Localtime} {t x : Int} {k : Nat} {tm : Tm}

/-- An instant is shown by the clock of its period. -/
theorem toLocalTime_eq (h : data.Sorted ⟨true⟩) (hrange : data.InRange)
    (hk : data.Within ⟨true⟩ t k) (hl : data.period k = some l)
    (htm : libc.gmtime_r (t + l.gmtOffset) = some tm) :
    ∃ zone, toLocalTime libc ⟨some data⟩ t = .ok { tm with
      tm_isdst := if l.isDst then 1 else 0
      tm_gmtoff := l.gmtOffset
      tm_zone := zone } := by
  obtain ⟨l', hmem, hl'⟩ := hrange.period_some hk.bound
  obtain rfl : l' = l := Option.some.inj (hl'.symm.trans hl)
  have hfind := hk.findLocaltime_eq (s := ⟨t, 0, 0⟩) h
  refine ⟨(data.abbreviation.drop l'.arrbIdx).takeWhile (· ≠ 0), ?_⟩
  simp [toLocalTime, hfind, hl, htm, cstring, hrange.arrbIdx l' hmem]

/-- A local time outside summer time is read by the clock of its period. -/
theorem fromLocalTime_standard (h : data.Sorted ⟨false⟩)
    (hk : data.Within ⟨false⟩ (libc.mktime tm) k) (hl : data.period k = some l)
    (hisdst : tm.tm_isdst = 0) :
    fromLocalTime libc ⟨some data⟩ tm = .ok (libc.mktime tm - l.gmtOffset) := by
  have hfind := hk.findLocaltime_eq (s := ⟨0, libc.mktime tm, 0⟩) h
  simp [fromLocalTime, hfind, hl, hisdst]

/-- One in summer time is tried with that clock, and moved an hour back where the clock
shows the same minute outside summer time. -/
theorem fromLocalTime_summer (h : data.Sorted ⟨false⟩)
    (hk : data.Within ⟨false⟩ (libc.mktime tm) k) (hl : data.period k = some l)
    (hisdst : tm.tm_isdst ≠ 0) :
    fromLocalTime libc ⟨some data⟩ tm =
      toLocalTime libc ⟨some data⟩ (libc.mktime tm - l.gmtOffset) >>= fun tryTm =>
        .ok (if tryTm.tm_isdst = 0 ∧ tryTm.tm_hour = tm.tm_hour ∧ tryTm.tm_min = tm.tm_min then
          libc.mktime tm - 3600 - l.gmtOffset else libc.mktime tm - l.gmtOffset) := by
  have hfind := hk.findLocaltime_eq (s := ⟨0, libc.mktime tm, 0⟩) h
  simp only [fromLocalTime, ne_eq, reduceCtorEq, not_false_eq_true, assert_holds, ok_bind,
    deref_some, hfind, hl, if_pos hisdst, pure_eq_ok]
  congr 1
  funext tryTm
  split <;> rfl

/-- **Local time and back is the instant**, in a regular zone and for every instant that
`gmtime_r` can show at all of its offsets. -/
theorem fromLocalTime_toLocalTime (hlibc : libc.Exact) (h : data.Regular)
    (hshown : ∀ l ∈ data.localtimes, libc.gmtime_r (t + l.gmtOffset) ≠ none) :
    ∃ tm, toLocalTime libc ⟨some data⟩ t = .ok tm ∧
      fromLocalTime libc ⟨some data⟩ tm = .ok t := by
  obtain ⟨k, hk, -⟩ := Data.findLocaltime_eq (h.sorted ⟨true⟩) ⟨t, 0, 0⟩
  change data.Within ⟨true⟩ t k at hk
  obtain ⟨l, hmem, hl⟩ := h.toInRange.period_some hk.bound
  obtain ⟨tm, htm⟩ := Option.ne_none_iff_exists'.mp (hshown l hmem)
  obtain ⟨zone, hto⟩ := toLocalTime_eq (h.sorted _) h.toInRange hk hl htm
  refine ⟨_, hto, ?_⟩
  set shown : Tm := { tm with
    tm_isdst := if l.isDst then 1 else 0, tm_gmtoff := l.gmtOffset, tm_zone := zone } with hshown'
  have hread : libc.mktime shown = t + l.gmtOffset := by
    rw [hshown', hlibc.ignores, hlibc.inverse _ _ htm]
  obtain ⟨j, hj, -⟩ := Data.findLocaltime_eq (h.sorted ⟨false⟩) ⟨0, t + l.gmtOffset, 0⟩
  change data.Within ⟨false⟩ (t + l.gmtOffset) j at hj
  have hcases := h.within_local hk hl hj
  rw [← hread] at hj
  obtain rfl | ⟨rfl, hdst, hlater, l', hl', hstd, hoffset⟩ := hcases
  · -- the same period: the retry shows the instant as it was shown
    by_cases hisdst : shown.tm_isdst = 0
    · rw [fromLocalTime_standard (h.sorted _) hj hl hisdst, hread, Int.add_sub_cancel]
    · rw [fromLocalTime_summer (h.sorted _) hj hl hisdst, hread, Int.add_sub_cancel, hto,
        ok_bind, if_neg fun hretry => hisdst hretry.1]
  · -- the hour is shown again in the next period, and the retry finds the second showing
    have hisdst : shown.tm_isdst ≠ 0 := by simp [hshown', hdst]
    have hretry : t + l.gmtOffset - l'.gmtOffset = t + 3600 := by omega
    have hsame : t + 3600 + l'.gmtOffset = t + l.gmtOffset := by omega
    obtain ⟨zone', hto'⟩ :=
      toLocalTime_eq (h.sorted _) h.toInRange hlater hl' (hsame.symm ▸ htm)
    rw [fromLocalTime_summer (h.sorted _) hj hl' hisdst, hread, hretry, hto', ok_bind, hstd]
    rw [if_pos ⟨rfl, rfl, rfl⟩]
    congr 1
    omega

/-- Summer time from the millionth second to the two millionth, an hour ahead. -/
def summer : Data where
  transitions := [⟨1000000, 1007200, 1⟩, ⟨2000000, 2003600, 0⟩]
  localtimes := [⟨3600, false, 0⟩, ⟨7200, true, 4⟩]
  abbreviation := [67, 69, 84, 0, 67, 69, 83, 84, 0]

theorem summer_regular : summer.Regular where
  nonempty := by decide
  localtimeIdx := by decide
  arrbIdx := by decide
  localtime := by decide
  gap i a b ha hb := by
    match i with
    | 0 =>
      obtain rfl := Option.some.inj ha
      obtain rfl := Option.some.inj hb
      decide
    | i + 1 => exact absurd hb (by simp [summer])
  back k a b ha hb hless := by
    match k with
    | 0 =>
      obtain rfl := Option.some.inj ha
      obtain rfl := Option.some.inj hb
      exact absurd hless (by decide)
    | 1 =>
      obtain rfl := Option.some.inj ha
      obtain rfl := Option.some.inj hb
      decide
    | k + 2 => exact absurd hb (by simp [summer, Data.period])

/-- The instant is shown again an hour later. -/
theorem fromLocalTime_toLocalTime_fold :
    ∃ tm, toLocalTime (Libc.zoned 0) ⟨some summer⟩ 1999000 = .ok tm ∧
      fromLocalTime (Libc.zoned 0) ⟨some summer⟩ tm = .ok 1999000 := by
  refine fromLocalTime_toLocalTime Libc.zoned_exact summer_regular ?_
  decide

end TimeZone
end Leanet

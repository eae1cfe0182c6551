import Leanet.Server.Affinity
import Mathlib.Data.Int.CardIntervalMod

/-! The pool's loops in turn.

`getNextLoop` hands out the loops of the pool one after the other and begins again after the last.
So the `k`-th call is answered by the `k`-th loop, counted round, and no loop has been handed out two
times more than another (`loops_in_turn`). A pool without threads hands out the base loop.

The initialization callback has been called once on each loop that is handed out; only where the
number of threads is negative nothing is started and nothing is called, and the base loop is handed
out all the same. -/
namespace Leanet.TcpServer.EventLoopThreadPool
variable {T : Type} [DecidableEq T]

structure State (T : Type) where
  pool : EventLoopThreadPool T
  /-- The loops that `cb` has been called on. -/
  prepared : List T
  /-- The number of threads when `start` was called; no variable of the source. -/
  asked : Option Int
  deriving DecidableEq

inductive Call (T : Type) where
  | setThreadNum (numThreads : Int)
  /-- On thread `t`, with a callback. -/
  | start (t : T) (startLoop : Nat → T)
  | getNextLoop (t : T)

def initial (baseLoop : T) : State T := ⟨new baseLoop, [], none⟩

/-- The loops that `start` makes. -/
def startedLoops (pool : EventLoopThreadPool T) (startLoop : Nat → T) : List T :=
  (List.range pool.numThreads.toNat).map startLoop

/-- Every loop is new. -/
def may (s : State T) : Call T → Prop
  | .start _ startLoop =>
    (startedLoops s.pool startLoop).Nodup ∧ s.pool.baseLoop ∉ startedLoops s.pool startLoop
  | _ => True

/-- `threadFunc` calls `cb` on its loop before `startLoop` returns it; `start` calls it on the base
loop if there are to be no threads. -/
def step (build : Build) (s : State T) : Call T → Except Abort (Option T × State T)
  | .setThreadNum numThreads => pure (none, { s with pool := s.pool.setThreadNum numThreads })
  | .start t startLoop => do
    let pool ← s.pool.start build t startLoop
    pure (none,
      { pool
        prepared := s.prepared ++ startedLoops s.pool startLoop ++
          if s.pool.numThreads = 0 then [s.pool.baseLoop] else []
        asked := some s.pool.numThreads })
  | .getNextLoop t => do
    let (loop, pool) ← s.pool.getNextLoop build t
    pure (some loop, { s with pool })

def machine (build : Build) : Machine (State T) (Call T) (Option T) Abort where
  may := may
  step := step build

instance (s : State T) : (l : Call T) → Decidable (may s l)
  | .start .. => inferInstanceAs (Decidable (_ ∧ _))
  | .setThreadNum _ => inferInstanceAs (Decidable True)
  | .getNextLoop _ => inferInstanceAs (Decidable True)

instance (build : Build) (s : State T) (l : Call T) : Decidable ((machine build).may s l) :=
  inferInstanceAs (Decidable (may s l))

/-- What the calls of `getNextLoop` have returned. -/
def handed (tr : List (Call T × Option T)) : List T := tr.filterMap Prod.snd

/-- The answer to the `k`-th call. -/
def turn (pool : EventLoopThreadPool T) (k : Nat) : T :=
  pool.loops.getD (k % pool.loops.length) pool.baseLoop

/-! ### The steps -/

variable {base : T} {s s' : State T} {l : Call T} {o : Option T} {tr : List (Call T × Option T)}
  {pool pool' : EventLoopThreadPool T} {t loop : T} {k : Nat}

omit [DecidableEq T] in
theorem turn_of_lt {i : Nat} (hi : i < pool.loops.length) (h : k % pool.loops.length = i) :
    pool.turn k = pool.loops[i] := by
  rw [turn, h, List.getD_eq_getElem?_getD, List.getElem?_eq_getElem hi, Option.getD_some]

theorem onThread_eq_ok (h : assertInLoopThread loop t = .ok ()) : t = loop := by
  unfold assertInLoopThread at h
  split at h
  · assumption
  · cases h

theorem debug_eq_ok {p : Prop} [Decidable p]
    (h : (liftM (Build.debug.assert p) : Except Abort Unit) = .ok ()) : p := by
  have hassert := lift_eq_ok.mp h
  unfold Build.assert at hassert
  split at hassert
  · next hp => exact hp.resolve_left (by decide)
  · cases hassert

theorem start_eq_ok {startLoop : Nat → T} (h : pool.start .debug t startLoop = .ok pool') :
    t = pool.baseLoop ∧ pool.started = false ∧ pool' = { pool with
      started := true, loops := pool.loops ++ startedLoops pool startLoop } := by
  obtain ⟨_, hstarted, h⟩ := bind_eq_ok.mp h
  obtain ⟨_, ht, h⟩ := bind_eq_ok.mp h
  cases h
  exact ⟨onThread_eq_ok ht, debug_eq_ok hstarted, rfl⟩

theorem getNextLoop_eq_ok (h : pool.getNextLoop .debug t = .ok (loop, pool')) :
    t = pool.baseLoop ∧ pool.started = true ∧
      (pool.loops = [] ∧ loop = pool.baseLoop ∧ pool' = pool ∨
        ∃ hi : pool.next < pool.loops.length, loop = pool.loops[pool.next] ∧ pool' = { pool with
          next := if pool.loops.length ≤ pool.next + 1 then 0 else pool.next + 1 }) := by
  obtain ⟨_, ht, h⟩ := bind_eq_ok.mp h
  obtain ⟨_, hstarted, h⟩ := bind_eq_ok.mp h
  refine ⟨onThread_eq_ok ht, debug_eq_ok hstarted, ?_⟩
  split at h
  · obtain ⟨loop', hloop, h⟩ := bind_eq_ok.mp h
    cases h
    obtain ⟨hi, hget⟩ := List.getElem?_eq_some_iff.mp (deref_eq_ok.mp (lift_eq_ok.mp hloop))
    exact .inr ⟨hi, hget.symm, rfl⟩
  · next hempty =>
    cases h
    exact .inl ⟨by simpa using hempty, rfl, rfl⟩

/-- Before the start nothing is handed out; after it the loops are, in turn. -/
structure Sound (base : T) (tr : List (Call T × Option T)) (s : State T) : Prop where
  base : s.pool.baseLoop = base
  waiting : s.pool.started = false →
    handed tr = [] ∧ s.pool.loops = [] ∧ s.pool.next = 0 ∧ s.prepared = []
  turns : handed tr = (List.range (handed tr).length).map s.pool.turn
  next : s.pool.loops ≠ [] → s.pool.next = (handed tr).length % s.pool.loops.length
  fresh : s.pool.loops.Nodup ∧ s.pool.baseLoop ∉ s.pool.loops
  asked : s.pool.started = true → ∃ n, s.asked = some n ∧ s.pool.loops.length = n.toNat ∧
    s.prepared = s.pool.loops ++ if n = 0 then [s.pool.baseLoop] else []

omit [DecidableEq T] in
theorem handed_snoc (tr : List (Call T × Option T)) (l : Call T) (o : Option T) :
    handed (tr ++ [(l, o)]) = handed tr ++ o.toList := by
  cases o <;> simp [handed]

theorem sound_step (h : Sound base tr s) (hm : may s l) (hs : step .debug s l = .ok (o, s')) :
    Sound base (tr ++ [(l, o)]) s' := by
  cases l with
  | setThreadNum numThreads =>
    cases hs
    have hsame : handed (tr ++ [(Call.setThreadNum numThreads, none)]) = handed tr := by
      simp [handed_snoc]
    refine ⟨h.base, fun hstarted => ?_, ?_, ?_, h.fresh, h.asked⟩
    · rw [hsame]
      exact h.waiting hstarted
    · rw [hsame]
      exact h.turns
    · rw [hsame]
      exact h.next
  | start t startLoop =>
    obtain ⟨pool', hstart, hs⟩ := bind_eq_ok.mp hs
    cases hs
    obtain ⟨-, hnot, rfl⟩ := start_eq_ok hstart
    obtain ⟨hnone, hloops, hnext, hprepared⟩ := h.waiting hnot
    have hsame : handed (tr ++ [(Call.start t startLoop, none)]) = [] := by
      rw [handed_snoc, hnone]
      rfl
    refine ⟨h.base, nofun, by rw [hsame]; rfl, ?_, ?_, fun _ => ⟨_, rfl, ?_, ?_⟩⟩
    · intro _
      rw [hsame]
      simp [hnext]
    · rw [hloops]
      exact hm
    · simp [hloops, startedLoops]
    · simp [hloops, hprepared]
  | getNextLoop t =>
    obtain ⟨⟨loop, pool'⟩, hget, hs⟩ := bind_eq_ok.mp hs
    cases hs
    obtain ⟨-, hstarted, hnext⟩ := getNextLoop_eq_ok hget
    have hsnoc : handed (tr ++ [(Call.getNextLoop t, some loop)]) = handed tr ++ [loop] :=
      handed_snoc _ _ _
    have hmore (p : EventLoopThreadPool T) (hturn : p.turn = s.pool.turn)
        (hloop : loop = p.turn (handed tr).length) :
        handed tr ++ [loop] = (List.range (handed tr ++ [loop]).length).map p.turn := by
      rw [List.length_append, List.length_singleton, List.range_succ, List.map_append, hturn,
        ← h.turns, hloop, hturn]
      rfl
    obtain ⟨hnil, rfl, rfl⟩ | ⟨hi, rfl, rfl⟩ := hnext
    · refine ⟨h.base, fun hnot => ?_, ?_, ?_, h.fresh, h.asked⟩
      · rw [hstarted] at hnot
        cases hnot
      · rw [hsnoc]
        exact hmore _ rfl (by simp [turn, hnil])
      · exact fun hne => absurd hnil hne
    · have hne : s.pool.loops ≠ [] := List.ne_nil_of_length_pos (Nat.zero_lt_of_lt hi)
      have hnext := h.next hne
      refine ⟨h.base, fun hnot => ?_, ?_, fun _ => ?_, h.fresh, h.asked⟩
      · rw [hstarted] at hnot
        cases hnot
      · rw [hsnoc]
        exact hmore _ rfl (turn_of_lt hi hnext.symm).symm
      · rw [hsnoc, List.length_append, List.length_singleton, ← Nat.mod_add_mod, ← hnext]
        dsimp only
        split
        · next hlast =>
          rw [Nat.le_antisymm hlast hi, Nat.mod_self]
        · next hmore => exact (Nat.mod_eq_of_lt (Nat.lt_of_not_le hmore)).symm

theorem sound_run (h : (machine .debug).Run (initial base) tr s) : Sound base tr s :=
  h.snoc_induction
    { base := rfl
      waiting := fun _ => ⟨rfl, rfl, rfl, rfl⟩
      turns := rfl
      next := fun hne => absurd rfl hne
      fresh := ⟨List.nodup_nil, List.not_mem_nil⟩
      asked := nofun }
    fun _ _ _ _ _ _ ih hm hs => sound_step ih hm hs

/-! ### How often -/

/-- The calls that a loop has answered: those of its turn. -/
theorem count_turns {i m : Nat} (hnodup : pool.loops.Nodup) (hi : i < pool.loops.length) :
    ((List.range m).map pool.turn).count pool.loops[i] = m.count (· ≡ i [MOD pool.loops.length]) := by
  rw [List.count, List.countP_map, Nat.count]
  refine List.countP_congr fun k _ => ?_
  have hk : k % pool.loops.length < pool.loops.length := Nat.mod_lt _ (Nat.zero_lt_of_lt hi)
  rw [Function.comp_apply, turn_of_lt hk rfl, beq_iff_eq, hnodup.getElem_inj_iff, decide_eq_true_iff,
    Nat.ModEq, Nat.mod_eq_of_lt hi]

/-- The calls are spread evenly. -/
theorem count_turns_le {i j m : Nat} (hnodup : pool.loops.Nodup) (hi : i < pool.loops.length)
    (hj : j < pool.loops.length) :
    ((List.range m).map pool.turn).count pool.loops[i] ≤
      ((List.range m).map pool.turn).count pool.loops[j] + 1 := by
  have hpos : 0 < pool.loops.length := Nat.zero_lt_of_lt hi
  rw [count_turns hnodup hi, count_turns hnodup hj, Nat.count_modEq_card m hpos,
    Nat.count_modEq_card m hpos]
  split_ifs <;> omega

/-- **The loops are handed out in turn, evenly, and initialized once each.** A negative number of
threads leaves the base loop as it is. -/
theorem loops_in_turn (h : (machine .debug).Run (initial base) tr s) :
    (∀ k loop, (handed tr)[k]? = some loop →
      loop = s.pool.loops.getD (k % s.pool.loops.length) base) ∧
    (∀ loop ∈ s.pool.loops, ∀ loop' ∈ s.pool.loops,
      (handed tr).count loop ≤ (handed tr).count loop' + 1) ∧
    ∀ loop ∈ handed tr, ∃ n, s.asked = some n ∧ s.prepared.count loop = if n < 0 then 0 else 1 := by
  have hs := sound_run h
  refine ⟨fun k loop hk => ?_, fun loop hl loop' hl' => ?_, fun loop hl => ?_⟩
  · rw [hs.turns, List.getElem?_map] at hk
    obtain ⟨k', hk', rfl⟩ := Option.map_eq_some_iff.mp hk
    obtain ⟨-, rfl⟩ := List.getElem?_eq_some_iff.mp hk'
    rw [List.getElem_range, turn, hs.base]
  · obtain ⟨i, hi, rfl⟩ := List.mem_iff_getElem.mp hl
    obtain ⟨j, hj, rfl⟩ := List.mem_iff_getElem.mp hl'
    rw [hs.turns]
    exact count_turns_le hs.fresh.1 hi hj
  · have hstarted : s.pool.started = true := by
      by_contra hnot
      rw [(hs.waiting (Bool.eq_false_of_not_eq_true hnot)).1] at hl
      cases hl
    obtain ⟨n, hasked, hlength, hprepared⟩ := hs.asked hstarted
    rw [hs.turns] at hl
    obtain ⟨k, -, rfl⟩ := List.mem_map.mp hl
    refine ⟨n, hasked, ?_⟩
    rw [hprepared]
    by_cases hnil : s.pool.loops = []
    · have hturn : s.pool.turn k = s.pool.baseLoop := by simp [turn, hnil]
      have hle : n ≤ 0 := Int.toNat_eq_zero.mp (by rw [← hlength, hnil, List.length_nil])
      rw [hnil, hturn, List.nil_append]
      rcases hle.lt_or_eq with hneg | rfl
      · rw [if_neg hneg.ne, if_pos hneg, List.count_nil]
      · simp
    · have hpos : 0 < s.pool.loops.length := List.length_pos_iff.mpr hnil
      have hk : k % s.pool.loops.length < s.pool.loops.length := Nat.mod_lt _ hpos
      rw [if_neg (by omega), if_neg (by omega), List.append_nil, turn_of_lt hk rfl]
      exact List.count_eq_one_of_mem hs.fresh.1 (List.getElem_mem hk)

/-- Three calls on two loops, `1` and `2`. -/
theorem loops_in_turn_two : ∃ tr s, (machine .debug).Run (initial 0) tr s ∧ handed tr = [1, 2, 1] ∧
    (∀ k loop, (handed tr)[k]? = some loop →
      loop = s.pool.loops.getD (k % s.pool.loops.length) 0) ∧
    (∀ loop ∈ s.pool.loops, ∀ loop' ∈ s.pool.loops,
      (handed tr).count loop ≤ (handed tr).count loop' + 1) ∧
    ∀ loop ∈ handed tr, ∃ n, s.asked = some n ∧ s.prepared.count loop = if n < 0 then 0 else 1 := by
  obtain ⟨tr, s, h, -, hhanded⟩ := (machine .debug).exists_run_of_replay
    (s := initial 0) (P := fun tr _ => handed tr = [1, 2, 1])
    [.setThreadNum 2, .start 0 (· + 1), .getNextLoop 0, .getNextLoop 0, .getNextLoop 0]
    (by decide +kernel)
  exact ⟨tr, s, h, hhanded, loops_in_turn h⟩

end Leanet.TcpServer.EventLoopThreadPool

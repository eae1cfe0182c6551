import Leanet.Foundation.Fault
import Leanet.Foundation.Monitor

/-! The blocking queues, bounded and unbounded.

`put` and `get` are calls of one monitor; the unbounded queue is the bounded one without the
bound. What is removed was put, in order, the bound holds, and no wakeup is lost.

What `get` returns is another matter. It takes a reference to the first element, removes the
element and copies it out of the reference: at that moment no element is there any more.
A deque is modelled with the places of its elements so that this can be seen, and every
`get` that returns has copied from a place that is gone (`blockingQueue_delivery`). -/
namespace Leanet.BlockingQueue

/-- `std::deque`; an element stays in its place until it is removed, and the first element
is in the place that counts the removed ones. -/
structure Deque (α : Type) where
  popped : Nat
  elems : List α
  deriving DecidableEq, Repr

namespace Deque
variable {α : Type}

def empty : Deque α := ⟨0, []⟩

def push_back (q : Deque α) (x : α) : Deque α := { q with elems := q.elems ++ [x] }

/-- The place of the first element. -/
def front (q : Deque α) : Nat := q.popped

def pop_front (q : Deque α) : Deque α := ⟨q.popped + 1, q.elems.tail⟩

/-- The element in a place, if there is one. -/
def load (q : Deque α) (place : Nat) : Option α :=
  if q.popped ≤ place then q.elems[place - q.popped]? else none

theorem load_front (q : Deque α) : q.load q.front = q.elems.head? := by
  rw [load, front, if_pos (Nat.le_refl _), Nat.sub_self, List.head?_eq_getElem?]

/-- The first place is empty after a removal. -/
theorem load_front_pop (q : Deque α) : q.pop_front.load q.front = none :=
  if_neg (Nat.not_succ_le_self _)

end Deque

inductive Condition where
  | notEmpty
  | notFull
  deriving DecidableEq, Repr

inductive Call (α : Type) where
  | put (x : α)
  | get
  deriving DecidableEq, Repr

/-- What a call has done when it returns; a `get` has removed an element, and copied what
was in the place it referred to. -/
inductive Event (α : Type) where
  | put (x : α)
  | got (removed : α) (copied : Option α)
  deriving DecidableEq, Repr

variable {T α : Type} [DecidableEq T] {build : Build} {maxCapacity : Option Nat}

/-- `queue_.size() >= maxCapacity_`; an unbounded queue is never full. -/
def isFull (maxCapacity : Option Nat) (q : Deque α) : Bool :=
  maxCapacity.any (· ≤ q.elems.length)

def put (build : Build) (maxCapacity : Option Nat) (q : Deque α) (x : α) :
    Except Fault (Event α × Deque α × List Condition) := do
  build.assert (!isFull maxCapacity q)
  pure (.put x, q.push_back x, [.notEmpty])

def get (build : Build) (maxCapacity : Option Nat) (q : Deque α) :
    Except Fault (Event α × Deque α × List Condition) := do
  build.assert (0 < q.elems.length)
  let x := q.front
  let removed ← deref (q.load x)
  let q := q.pop_front
  -- `return x`, after the removal
  pure (.got removed (q.load x), q, if maxCapacity.isSome then [.notFull] else [])

/-- One monitor for both: a `BoundedBlockingQueue` with its capacity, a `BlockingQueue`
with none. -/
def monitor (α : Type) (build : Build) (maxCapacity : Option Nat) :
    Monitor (Deque α) (Call α) Condition (Event α) Fault where
  waits
    | .put _, q => if isFull maxCapacity q then some .notFull else none
    | .get, q => if q.elems.isEmpty then some .notEmpty else none
  body
    | .put x, q => put build maxCapacity q x
    | .get, q => get build maxCapacity q

def boundedBlockingQueue (α : Type) (build : Build) (maxCapacity : Nat) :
    Monitor (Deque α) (Call α) Condition (Event α) Fault := monitor α build (some maxCapacity)

def blockingQueue (α : Type) (build : Build) :
    Monitor (Deque α) (Call α) Condition (Event α) Fault := monitor α build none

abbrev State (T α : Type) := Monitor.State T (Deque α) (Call α) Condition

abbrev Trace (T α : Type) := List (Monitor.Act T (Call α) × Option (Event α))

/-- An empty queue, no thread in a call. -/
def initial : State T α := ⟨.empty, fun _ => .outside⟩

def Event.put? : Event α → Option α
  | .put x => some x
  | .got _ _ => none

def Event.removed? : Event α → Option α
  | .put _ => none
  | .got x _ => some x

def Event.copied? : Event α → Option (Option α)
  | .put _ => none
  | .got _ copied => some copied

/-- The values put. -/
def puts (tr : Trace T α) : List α := tr.filterMap fun e => e.2.bind Event.put?

/-- The elements removed by `get`. -/
def removed (tr : Trace T α) : List α := tr.filterMap fun e => e.2.bind Event.removed?

/-- What `get` returned: a copy of an element in the deque, or of none. -/
def returned (tr : Trace T α) : List (Option α) := tr.filterMap fun e => e.2.bind Event.copied?

/-- What is returned and what is left are what was put, in order. -/
def Delivers (tr : Trace T α) (s : State T α) : Prop :=
  returned tr ++ s.shared.elems.map some = (puts tr).map some

/-! ### What a step does to the queue -/

inductive Change (maxCapacity : Option Nat) : Deque α → Option (Event α) → Deque α → Prop where
  | quiet (q : Deque α) : Change maxCapacity q none q
  | put (q : Deque α) (x : α) : isFull maxCapacity q = false →
      Change maxCapacity q (some (.put x)) (q.push_back x)
  | got (popped : Nat) (x : α) (rest : List α) :
      Change maxCapacity ⟨popped, x :: rest⟩ (some (.got x none)) ⟨popped + 1, rest⟩

/-- A producer waits for room, a consumer for an element. -/
theorem waits_put {x : α} {q : Deque α} {k : Condition} :
    (monitor α build maxCapacity).waits (.put x) q = some k ↔
      isFull maxCapacity q = true ∧ k = .notFull := Monitor.waits_ite

theorem waits_get {q : Deque α} {k : Condition} :
    (monitor α build maxCapacity).waits .get q = some k ↔ q.elems = [] ∧ k = .notEmpty := by
  show (if q.elems.isEmpty then some .notEmpty else none) = some k ↔ _
  rw [Monitor.waits_ite, List.isEmpty_iff]

theorem put_eq {q : Deque α} {x : α} (h : isFull maxCapacity q = false) :
    put build maxCapacity q x = .ok (.put x, q.push_back x, [.notEmpty]) := by
  have hroom : (!isFull maxCapacity q) = true := by rw [h]; rfl
  rw [put, Build.assert, if_pos (.inr hroom)]
  rfl

/-- The copy is taken from a place that is gone. -/
theorem get_eq (popped : Nat) (x : α) (rest : List α) :
    get build maxCapacity ⟨popped, x :: rest⟩ =
      .ok (.got x none, ⟨popped + 1, rest⟩, if maxCapacity.isSome then [.notFull] else []) := by
  have hsome : 0 < (⟨popped, x :: rest⟩ : Deque α).elems.length := Nat.succ_pos _
  have hassert : build.assert (0 < (⟨popped, x :: rest⟩ : Deque α).elems.length) = .ok () := by
    rw [Build.assert, if_pos (.inr hsome)]
  simp only [get, hassert, Deque.load_front, Deque.load_front_pop, ok_bind, List.head?_cons,
    deref_some, pure_eq_ok]
  rfl

/-- A call whose loop lets it go on returns. -/
theorem body_change {c : Call α} {q : Deque α} (hw : (monitor α build maxCapacity).waits c q = none) :
    ∃ event q' cs, (monitor α build maxCapacity).body c q = .ok (event, q', cs) ∧
      Change maxCapacity q (some event) q' := by
  cases c with
  | put x =>
    have hroom : isFull maxCapacity q = false := by simpa [monitor] using hw
    exact ⟨_, _, _, put_eq hroom, .put q x hroom⟩
  | get =>
    obtain ⟨popped, _ | ⟨x, rest⟩⟩ := q
    · cases hw
    · exact ⟨_, _, _, get_eq popped x rest, .got popped x rest⟩

variable {s s' : State T α} {l : Monitor.Act T (Call α)} {o : Option (Event α)}

theorem step_change (hs : (monitor α build maxCapacity).step s l = .ok (o, s')) :
    Change maxCapacity s.shared o s'.shared := by
  rcases Monitor.step_shared hs with ⟨rfl, hsame⟩ | ⟨t, c, -, -, hw, event, cs, rfl, hb⟩
  · rw [hsame]
    exact .quiet _
  · obtain ⟨_, _, _, hb', hchange⟩ := body_change hw
    cases hb.symm.trans hb'
    exact hchange

theorem step_ok (s : State T α) (l : Monitor.Act T (Call α)) :
    ∃ o s', (monitor α build maxCapacity).step s l = .ok (o, s') := by
  refine Monitor.step_ok (fun c q hw => ?_) s l
  obtain ⟨event, q', cs, hb, -⟩ := body_change hw
  exact ⟨_, hb⟩

/-! ### Wakeups -/

/-- Who makes room wakes the producers, who puts wakes the consumers. -/
theorem attentive : (monitor α build maxCapacity).Attentive := by
  intro c q event q' cs hb c' k hw hk
  cases c with
  | put x =>
    obtain ⟨_, -, h⟩ := bind_eq_ok.mp hb
    cases h
    cases c' with
    | put y =>
      obtain ⟨hfull, rfl⟩ := waits_put.mp hw
      refine waits_put.mpr ⟨?_, rfl⟩
      rcases maxCapacity with _ | n
      · cases hfull
      · simp only [isFull, Option.any_some, decide_eq_true_eq, Deque.push_back,
          List.length_append] at hfull ⊢
        omega
    | get =>
      obtain ⟨-, rfl⟩ := waits_get.mp hw
      exact absurd List.mem_cons_self hk
  | get =>
    obtain ⟨popped, _ | ⟨x, rest⟩⟩ := q
    · -- nothing is there to refer to
      obtain ⟨_, -, h⟩ := bind_eq_ok.mp hb
      simp [Deque.load_front, deref] at h
    · cases (get_eq popped x rest).symm.trans hb
      cases c' with
      | put y =>
        obtain ⟨hfull, rfl⟩ := waits_put.mp hw
        rcases maxCapacity with _ | n
        · cases hfull
        · exact absurd List.mem_cons_self hk
      | get => cases (waits_get.mp hw).1

/-! ### Every run -/

theorem Change.log {q q' : Deque α} (h : Change maxCapacity q o q') :
    (o.bind Event.removed?).toList ++ q'.elems = q.elems ++ (o.bind Event.put?).toList := by
  cases h with
  | quiet => simp
  | put _ x => rfl
  | got popped x rest => simp [Event.removed?, Event.put?]

theorem Change.bounded {q q' : Deque α} (h : Change maxCapacity q o q') {n : Nat}
    (hn : maxCapacity = some n) (hq : q.elems.length ≤ n) : q'.elems.length ≤ n := by
  subst hn
  cases h with
  | quiet => exact hq
  | put _ x hroom =>
    have hlt : q.elems.length < n := by simpa [isFull] using hroom
    simpa [Deque.push_back] using Nat.succ_le_of_lt hlt
  | got popped x rest => exact Nat.le_of_succ_le hq

/-- A `get` returns a copy of nothing. -/
theorem Change.copied {q q' : Deque α} (h : Change maxCapacity q o q') :
    o.bind Event.copied? = (o.bind Event.removed?).map fun _ => none := by
  cases h <;> rfl

/-- What holds after every run. -/
structure Kept (build : Build) (maxCapacity : Option Nat) (tr : Trace T α) (s : State T α) : Prop where
  log : removed tr ++ s.shared.elems = puts tr
  copied : returned tr = (removed tr).map fun _ => none
  bounded : ∀ n, maxCapacity = some n → s.shared.elems.length ≤ n
  waits : (monitor α build maxCapacity).Waits s

theorem kept_run {tr : Trace T α}
    (h : ((monitor α build maxCapacity).machine T).Run initial tr s) :
    Kept build maxCapacity tr s := by
  refine h.snoc_induction (P := Kept build maxCapacity) ?_ fun tr s l o s' _ ih _ hs => ?_
  · exact ⟨rfl, rfl, fun _ _ => Nat.zero_le _, Monitor.waits_outside⟩
  · have hchange := step_change hs
    refine ⟨?_, ?_, fun n hn => hchange.bounded hn (ih.bounded n hn), ih.waits.step attentive hs⟩
    · have hremoved : removed (tr ++ [(l, o)]) = removed tr ++ (o.bind Event.removed?).toList := by
        cases h : o.bind Event.removed? <;> simp [removed, h]
      have hputs : puts (tr ++ [(l, o)]) = puts tr ++ (o.bind Event.put?).toList := by
        cases h : o.bind Event.put? <;> simp [puts, h]
      rw [hremoved, hputs, ← ih.log, List.append_assoc, List.append_assoc]
      exact congrArg _ hchange.log
    · have hcopied := hchange.copied
      have hreturned := ih.copied
      cases h : o.bind Event.removed? <;> simp_all [returned, removed]

/-- **What `get` removes was put, in order, what it returns was not**: the first holds of every
run, with the bound and the wakeups, the second as soon as one `get` has returned. -/
theorem blockingQueue_delivery {tr : Trace T α}
    (h : ((monitor α build maxCapacity).machine T).Run initial tr s) :
    removed tr ++ s.shared.elems = puts tr ∧
    (∀ n, maxCapacity = some n → s.shared.elems.length ≤ n) ∧
    (∀ t c, s.phase t = .waiting c .notEmpty → s.shared.elems = []) ∧
    (∀ t c, s.phase t = .waiting c .notFull → isFull maxCapacity s.shared = true) ∧
    (∀ l, ∃ o s', (monitor α build maxCapacity).step s l = .ok (o, s')) ∧
    (Delivers tr s ↔ returned tr = []) := by
  have hkept := kept_run h
  refine ⟨hkept.log, hkept.bounded, fun t c hc => ?_, fun t c hc => ?_, step_ok s, ?_⟩
  · have hw := hkept.waits t c _ hc
    cases c with
    | put x => cases (waits_put.mp hw).2
    | get => exact (waits_get.mp hw).1
  · have hw := hkept.waits t c _ hc
    cases c with
    | put x => exact (waits_put.mp hw).1
    | get => cases (waits_get.mp hw).2
  · rw [Delivers, ← hkept.log, hkept.copied, List.map_append, List.append_cancel_right_eq]
    cases removed tr <;> simp

instance (m : Monitor (Deque α) (Call α) Condition (Event α) Fault) [DecidableEq α] (s : State T α) :
    (l : Monitor.Act T (Call α)) → Decidable ((m.machine T).may s l)
  | .call t _ => inferInstanceAs (Decidable (s.phase t = .outside))
  | .enter t => inferInstanceAs (Decidable (∃ r, s.phase t = .entering r))
  | .wake t => inferInstanceAs (Decidable (∃ r c, s.phase t = .waiting r c))

/-- One value through a queue with room for one, the consumer first. -/
theorem blockingQueue_delivery_one : ∃ tr s,
    ((boundedBlockingQueue Nat .release 1).machine (Fin 2)).Run initial tr s ∧
      tr.map Prod.fst = [.call 1 .get, .enter 1, .call 0 (.put 7), .enter 0, .enter 1] ∧
      removed tr ++ s.shared.elems = puts tr := by
  obtain ⟨tr, s, h, hacts, -⟩ :=
    ((boundedBlockingQueue Nat .release 1).machine (Fin 2)).exists_run_of_replay
      (s := initial) (P := fun _ _ => True)
      [.call 1 .get, .enter 1, .call 0 (.put 7), .enter 0, .enter 1] (by decide +kernel)
  exact ⟨tr, s, h, hacts, (blockingQueue_delivery h).1⟩

/-- `get` on a queue that holds one value: the copy is of nothing. -/
theorem blockingQueue_misdelivery : ∃ tr s,
    ((boundedBlockingQueue Nat .release 1).machine (Fin 2)).Run initial tr s ∧
      tr.map Prod.fst = [.call 0 (.put 7), .enter 0, .call 1 .get, .enter 1] ∧
      tr.map Prod.snd = [none, some (.put 7), none, some (.got 7 none)] ∧ ¬ Delivers tr s := by
  obtain ⟨tr, s, h, hacts, hevents⟩ :=
    ((boundedBlockingQueue Nat .release 1).machine (Fin 2)).exists_run_of_replay
      (s := initial) (P := fun tr s =>
        tr.map Prod.snd = [none, some (.put 7), none, some (.got 7 none)] ∧
          ¬ returned tr ++ s.shared.elems.map some = (puts tr).map some)
      [.call 0 (.put 7), .enter 0, .call 1 .get, .enter 1] (by decide +kernel)
  exact ⟨tr, s, h, hacts, hevents⟩

end Leanet.BlockingQueue

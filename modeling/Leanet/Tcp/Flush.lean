import Leanet.Tcp.Handover

/-! Sent before `shutdown`, written before the half-close.

One call of `shutdown`, any number of sends, from any threads, on memory that nobody changes;
write(2) takes what it takes and does not fail. Beside the connection stands a ledger: the
sends that have returned, whose functor each waiting one is, and whose byte is each one handed
over, in the order in which the connection got them. What write(2) accepted is the front of it.

`shutdown` on the loop's thread does not wait for the functors of other threads' sends, and
neither does `handleWrite`, which half-closes as soon as the output queue is empty; and
`shutdownInLoop` takes a channel that `handleClose` has disabled for one with nothing left to
write. Those are the only ways for a byte to be late (`flushed_iff`). -/
namespace Leanet.Flush
open TcpConnection
open Shared (Action Functor Succeeds Steady)

structure State where
  base : Shared.State
  /-- What each send that has returned was given, in the order in which they returned; a send on
  another thread counts as soon as its functor is queued. -/
  sends : List (List UInt8)
  /-- How many had returned when `shutdown` was called. -/
  early : Option Nat
  /-- The functors in the loop's queue, with the number of sends returned before. -/
  waiting : List (Nat × Functor)
  /-- Which send each byte is of. -/
  stream : List (Nat × UInt8)
  /-- What write(2) has taken. -/
  accepted : List UInt8

def initial (sockfd : Nat) (memory : Memory) : State :=
  ⟨Shared.initial sockfd memory, [], none, [], [], []⟩

def tagged (i : Nat) (data : List UInt8) : List (Nat × UInt8) := data.map (i, ·)

/-- The bytes of the `i`-th send. -/
def bytesOf (i : Nat) (stream : List (Nat × UInt8)) : List UInt8 :=
  (stream.filter (·.1 == i)).map Prod.snd

/-- Memory is left alone, write(2) does not fail, and `shutdown` is called once. -/
def may (s : State) (l : Action) : Prop :=
  Shared.may s.base l ∧ Succeeds s.base l ∧
    match l with
    | .store _ _ => False
    | .shutdown | .checkShutdown => s.early = none
    | _ => True

/-- The ledger. -/
def State.record (s : State) : Action → State
  | .send argument _ =>
    match s.base.conn.connected, s.base.memory.load argument.message argument.len with
    | true, .ok data => { s with
        sends := s.sends ++ [data]
        stream := s.stream ++ tagged s.sends.length data }
    | _, _ => s
  | .pushSend message => { s with
      sends := s.sends ++ [message.held]
      waiting := s.waiting ++ [(s.sends.length, .sendInLoop message)] }
  | .pushShutdown => { s with waiting := s.waiting ++ [(s.sends.length, .shutdownInLoop)] }
  | .removeConnection => { s with waiting := s.waiting ++ [(s.sends.length, .connectDestroyed)] }
  | .shutdown | .checkShutdown => { s with early := some s.sends.length }
  | .functor _ =>
    match s.waiting with
    | (i, .sendInLoop message) :: waiting =>
      { s with waiting, stream := s.stream ++ tagged i message.held }
    | _ :: waiting => { s with waiting }
    | [] => s
  | _ => s

def step (build : Build) (s : State) (l : Action) : Except Fault (List Effect × State) := do
  let (e, base) ← Shared.step build s.base l
  pure (e, { s.record l with base, accepted := s.accepted ++ taken e })

def machine (build : Build) : Machine State Action (List Effect) Fault where
  may := may
  step := step build

instance (s : State) : (l : Action) → Decidable (may s l)
  | .store _ _ => .isFalse fun h => h.2.2
  | .shutdown | .checkShutdown => inferInstanceAs (Decidable (_ ∧ _ ∧ s.early = none))
  | .callback _ | .functor _ | .send _ _ | .setCloseCallback _ | .setWriteCompleteCallback _
  | .setHighWaterMarkCallback _ _ | .removeConnection | .connectEstablished | .handleEvent _
  | .doPendingFunctors | .checkSend _ _ | .pushSend _ | .storeShutdown | .pushShutdown =>
    inferInstanceAs (Decidable (_ ∧ _ ∧ True))

instance (build : Build) (s : State) (l : Action) : Decidable ((machine build).may s l) :=
  inferInstanceAs (Decidable (may s l))

/-- What write(2) has taken of the `i`-th send. -/
def State.acceptedOf (s : State) (i : Nat) : List UInt8 :=
  bytesOf i (s.stream.take s.accepted.length)

/-- Whose bytes the output queue holds. -/
def State.pending (s : State) : List (Nat × UInt8) := s.stream.drop s.accepted.length

/-- Every send that had returned before `shutdown` was called is written to its last byte. -/
def State.Flushed (s : State) : Prop :=
  ∀ i < s.early.getD 0, s.sends[i]? = some (s.acceptedOf i)

instance (s : State) : Decidable s.Flushed := inferInstanceAs (Decidable (∀ i < _, _))

/-- The functor of the `i`-th send has not run. -/
def State.Waits (s : State) (i : Nat) : Prop := ∃ m, (i, Functor.sendInLoop m) ∈ s.waiting

/-- Before a step that half-closes: on the loop's thread `shutdown` finds no send of another
thread in the queue, nor does `handleWrite` one from before the call, and `shutdownInLoop` finds
no byte from before it in the output queue of a closed connection. -/
def Prompt (s : State) : Action → Prop
  | .shutdown => ∀ i, s.Waits i → s.sends[i]? = some []
  | .callback _ => ∀ i < s.early.getD 0, s.Waits i → s.sends[i]? = some []
  | .functor _ => s.base.closed = true → ∀ x ∈ s.pending, ¬ x.1 < s.early.getD 0
  | _ => True

variable {build : Build} {s s' : State} {l : Action} {e : List Effect}

/-! ### Bytes and whose they are -/

theorem map_snd_tagged (i : Nat) (data : List UInt8) : (tagged i data).map Prod.snd = data := by
  simp [tagged, Function.comp_def]

theorem bytesOf_append (i : Nat) (a b : List (Nat × UInt8)) :
    bytesOf i (a ++ b) = bytesOf i a ++ bytesOf i b := by
  simp [bytesOf]

theorem bytesOf_tagged (i : Nat) (data : List UInt8) : bytesOf i (tagged i data) = data := by
  have hall : (tagged i data).filter (·.1 == i) = tagged i data :=
    List.filter_eq_self.mpr fun x hx => by
      obtain ⟨b, -, rfl⟩ := List.mem_map.mp hx
      exact beq_self_eq_true i
  rw [bytesOf, hall, map_snd_tagged]

theorem bytesOf_eq_nil {i : Nat} {stream : List (Nat × UInt8)} :
    bytesOf i stream = [] ↔ ∀ x ∈ stream, x.1 ≠ i := by
  simp [bytesOf, List.filter_eq_nil_iff]

theorem bytesOf_tagged_ne {i j : Nat} (h : i ≠ j) (data : List UInt8) :
    bytesOf i (tagged j data) = [] :=
  bytesOf_eq_nil.mpr fun x hx => by
    obtain ⟨b, -, rfl⟩ := List.mem_map.mp hx
    exact h.symm

/-! ### The ledger is in order -/

structure Booked (s : State) : Prop where
  /-- The functor of a send comes before all that was sent later. -/
  order : s.waiting.Pairwise fun a b => a.1 ≤ b.1 ∧ (a.2.message?.isSome = true → a.1 < b.1)
  numbered : ∀ x ∈ s.waiting, x.1 ≤ s.sends.length
  held : ∀ i m, (i, Functor.sendInLoop m) ∈ s.waiting → s.sends[i]? = some m.held
  tags : ∀ x ∈ s.stream, x.1 < s.sends.length
  /-- A send is in the stream exactly when its functor has run. -/
  bytes : ∀ i data, s.sends[i]? = some data →
    s.Waits i ∧ bytesOf i s.stream = [] ∨ ¬ s.Waits i ∧ bytesOf i s.stream = data
  early : ∀ n, s.early = some n → n ≤ s.sends.length
  /-- What was sent before `shutdown` is before its functor. -/
  behind : ∀ i, (i, Functor.shutdownInLoop) ∈ s.waiting → ∃ n, s.early = some n ∧ n ≤ i

theorem Booked.waits_lt (h : Booked s) {i : Nat} (hi : s.Waits i) : i < s.sends.length := by
  obtain ⟨m, hm⟩ := hi
  exact (List.getElem?_eq_some_iff.mp (h.held i m hm)).1

/-- Around a ledger that is as it was. -/
theorem Booked.congr (h : Booked s) (hsends : s'.sends = s.sends) (hearly : s'.early = s.early)
    (hwaiting : s'.waiting = s.waiting) (hstream : s'.stream = s.stream) : Booked s' := by
  obtain ⟨base, sends, early, waiting, stream, accepted⟩ := s'
  dsimp only at hsends hearly hwaiting hstream
  subst hsends hearly hwaiting hstream
  exact ⟨h.order, h.numbered, h.held, h.tags, h.bytes, h.early, h.behind⟩

/-- Pushed at the back of the queue. -/
theorem Booked.order_push (h : Booked s) (f : Functor) :
    (s.waiting ++ [(s.sends.length, f)]).Pairwise
      fun a b => a.1 ≤ b.1 ∧ (a.2.message?.isSome = true → a.1 < b.1) := by
  refine List.pairwise_append.mpr ⟨h.order, List.pairwise_singleton .., fun x hx y hy => ?_⟩
  obtain rfl := List.mem_singleton.mp hy
  refine ⟨h.numbered x hx, fun hsend => ?_⟩
  obtain ⟨i, f⟩ := x
  cases f with
  | sendInLoop m => exact h.waits_lt ⟨m, hx⟩
  | shutdownInLoop | connectDestroyed => cases hsend

/-- A functor that sends nothing is queued. -/
theorem Booked.push (h : Booked s) {f : Functor} (hf : f.message? = none)
    (hcalled : f = .shutdownInLoop → ∃ n, s.early = some n) :
    Booked { s with waiting := s.waiting ++ [(s.sends.length, f)] } := by
  have hwaits (i : Nat) :
      { s with waiting := s.waiting ++ [(s.sends.length, f)] }.Waits i ↔ s.Waits i := by
    refine exists_congr fun m => ?_
    rw [List.mem_append, List.mem_singleton, Prod.mk.injEq, or_iff_left]
    rintro ⟨-, rfl⟩
    cases hf
  refine ⟨h.order_push f, fun x hx => ?_, fun i m hm => ?_, h.tags, fun i data hi => ?_, h.early,
    fun i hi => ?_⟩
  · rcases List.mem_append.mp hx with hx | hx
    · exact h.numbered x hx
    · obtain rfl := List.mem_singleton.mp hx
      exact Nat.le_refl _
  · rcases List.mem_append.mp hm with hm | hm
    · exact h.held i m hm
    · cases (Prod.mk.inj (List.mem_singleton.mp hm)).2 ▸ hf
  · rw [hwaits]
    exact h.bytes i data hi
  · rcases List.mem_append.mp hi with hi | hi
    · exact h.behind i hi
    · obtain ⟨rfl, hshut⟩ := Prod.mk.inj (List.mem_singleton.mp hi)
      obtain ⟨n, hn⟩ := hcalled hshut.symm
      exact ⟨n, hn, h.early n hn⟩

theorem getElem?_snoc {sends : List (List UInt8)} {data new : List UInt8} {i : Nat}
    (h : (sends ++ [new])[i]? = some data) :
    sends[i]? = some data ∨ i = sends.length ∧ data = new := by
  rcases Nat.lt_trichotomy i sends.length with hlt | rfl | hgt
  · rw [List.getElem?_append_left hlt] at h
    exact .inl h
  · rw [List.getElem?_append_right (Nat.le_refl _), Nat.sub_self] at h
    exact .inr ⟨rfl, (Option.some.inj h).symm⟩
  · rw [List.getElem?_eq_none (by rw [List.length_append, List.length_singleton]; omega)] at h
    cases h

theorem getElem?_grown {sends : List (List UInt8)} {data : List UInt8} {i : Nat}
    (h : sends[i]? = some data) (new : List UInt8) : (sends ++ [new])[i]? = some data := by
  rw [List.getElem?_append_left (List.getElem?_eq_some_iff.mp h).1, h]

theorem Booked.fresh (h : Booked s) : bytesOf s.sends.length s.stream = [] :=
  bytesOf_eq_nil.mpr fun x hx => Nat.ne_of_lt (h.tags x hx)

/-- A send of another thread is queued. -/
theorem Booked.pushSend (h : Booked s) (m : Shared.Message) :
    Booked { s with
      sends := s.sends ++ [m.held]
      waiting := s.waiting ++ [(s.sends.length, .sendInLoop m)] } := by
  have hgrow : s.sends.length ≤ (s.sends ++ [m.held]).length := by
    rw [List.length_append]
    exact Nat.le_add_right ..
  refine ⟨h.order_push _, fun x hx => ?_, fun i m' hm => ?_,
    fun x hx => Nat.lt_of_lt_of_le (h.tags x hx) hgrow, fun i data hi => ?_,
    fun n hn => Nat.le_trans (h.early n hn) hgrow, fun i hi => ?_⟩
  · rcases List.mem_append.mp hx with hx | hx
    · exact Nat.le_trans (h.numbered x hx) hgrow
    · rw [List.mem_singleton.mp hx]
      exact hgrow
  · rcases List.mem_append.mp hm with hm | hm
    · exact getElem?_grown (h.held i m' hm) _
    · obtain ⟨rfl, hsend⟩ := Prod.mk.inj (List.mem_singleton.mp hm)
      cases hsend
      exact (List.getElem?_append_right (Nat.le_refl _)).trans (by rw [Nat.sub_self]; rfl)
  · rcases getElem?_snoc hi with hold | ⟨rfl, rfl⟩
    · have hne : i ≠ s.sends.length := Nat.ne_of_lt (List.getElem?_eq_some_iff.mp hold).1
      have hwaits : { s with
          sends := s.sends ++ [m.held]
          waiting := s.waiting ++ [(s.sends.length, Functor.sendInLoop m)] }.Waits i ↔
          s.Waits i := by
        refine exists_congr fun m' => ?_
        rw [List.mem_append, List.mem_singleton, Prod.mk.injEq, or_iff_left (fun heq => hne heq.1)]
      rw [hwaits]
      exact h.bytes i data hold
    · exact .inl ⟨⟨m, List.mem_append_right _ (List.mem_singleton_self _)⟩, h.fresh⟩
  · rcases List.mem_append.mp hi with hi | hi
    · exact h.behind i hi
    · cases (Prod.mk.inj (List.mem_singleton.mp hi)).2

/-- A send on the loop's thread. -/
theorem Booked.send (h : Booked s) (data : List UInt8) :
    Booked { s with
      sends := s.sends ++ [data]
      stream := s.stream ++ tagged s.sends.length data } := by
  have hgrow : s.sends.length ≤ (s.sends ++ [data]).length := by
    rw [List.length_append]
    exact Nat.le_add_right ..
  refine ⟨h.order, fun x hx => Nat.le_trans (h.numbered x hx) hgrow,
    fun i m hm => getElem?_grown (h.held i m hm) _, fun x hx => ?_, fun i old hi => ?_,
    fun n hn => Nat.le_trans (h.early n hn) hgrow, h.behind⟩
  · rcases List.mem_append.mp hx with hx | hx
    · exact Nat.lt_of_lt_of_le (h.tags x hx) hgrow
    · obtain ⟨b, -, rfl⟩ := List.mem_map.mp hx
      simp
  · rcases getElem?_snoc hi with hold | ⟨rfl, rfl⟩
    · have hne : i ≠ s.sends.length := Nat.ne_of_lt (List.getElem?_eq_some_iff.mp hold).1
      rw [bytesOf_append, bytesOf_tagged_ne hne, List.append_nil]
      exact h.bytes i old hold
    · refine .inr ⟨fun hw => Nat.lt_irrefl _ (h.waits_lt hw), ?_⟩
      rw [bytesOf_append, h.fresh, bytesOf_tagged, List.nil_append]

/-- The functor at the head has run; a send's bytes are in the stream now. -/
theorem Booked.pop (h : Booked s) {i : Nat} {f : Functor} {rest : List (Nat × Functor)}
    (hwaiting : s.waiting = (i, f) :: rest) :
    Booked { s with
      waiting := rest
      stream := s.stream ++ (f.message?.elim [] fun m => tagged i m.held) } := by
  have hmem {x : Nat × Functor} (hx : x ∈ rest) : x ∈ s.waiting := by
    rw [hwaiting]
    exact List.mem_cons_of_mem _ hx
  have horder := h.order
  rw [hwaiting, List.pairwise_cons] at horder
  have hhead : (i, f) ∈ s.waiting := hwaiting ▸ List.mem_cons_self
  refine ⟨horder.2, fun x hx => h.numbered x (hmem hx), fun j m hm => h.held j m (hmem hm),
    fun x hx => ?_, fun j data hj => ?_, h.early, fun j hj => h.behind j (hmem hj)⟩
  · rcases List.mem_append.mp hx with hx | hx
    · exact h.tags x hx
    · cases f with
      | sendInLoop m =>
        obtain ⟨b, -, rfl⟩ := List.mem_map.mp hx
        exact h.waits_lt ⟨m, hhead⟩
      | shutdownInLoop | connectDestroyed => cases hx
  · have hbefore := h.bytes j data hj
    -- the head is the only functor of its send
    have hwaits : s.Waits j ↔ (∃ m, (j, Functor.sendInLoop m) ∈ rest) ∨
        i = j ∧ f.message?.isSome = true := by
      simp only [State.Waits, hwaiting, List.mem_cons, Prod.mk.injEq, exists_or]
      rw [or_comm, or_congr_right]
      constructor
      · rintro ⟨m, rfl, rfl⟩
        exact ⟨rfl, rfl⟩
      · rintro ⟨rfl, hsome⟩
        cases f with
        | sendInLoop m => exact ⟨m, rfl, rfl⟩
        | shutdownInLoop | connectDestroyed => cases hsome
    rw [bytesOf_append]
    cases f with
    | shutdownInLoop | connectDestroyed =>
      rw [hwaits.trans (or_iff_left fun heq => by cases heq.2)] at hbefore
      show _ ∧ bytesOf j s.stream ++ [] = [] ∨ _ ∧ bytesOf j s.stream ++ [] = data
      rw [List.append_nil]
      exact hbefore
    | sendInLoop m =>
      simp only [Shared.Functor.message?, Option.elim_some]
      by_cases hij : i = j
      · subst hij
        have hdata : data = m.held := Option.some.inj (hj.symm.trans (h.held i m hhead))
        have hgone : ¬ ∃ m, (i, Functor.sendInLoop m) ∈ rest := by
          rintro ⟨m', hm'⟩
          exact Nat.lt_irrefl _ ((horder.1 _ hm').2 rfl)
        rcases hbefore with ⟨-, hnil⟩ | ⟨hnot, -⟩
        · refine .inr ⟨hgone, ?_⟩
          rw [hnil, bytesOf_tagged, List.nil_append, hdata]
        · exact absurd ⟨m, hhead⟩ hnot
      · rw [hwaits.trans (or_iff_left fun heq => hij heq.1)] at hbefore
        rw [bytesOf_tagged_ne (Ne.symm hij), List.append_nil]
        exact hbefore

/-! ### The ledger and the connection -/

/-- The invariant: the ledger is in order and says what the connection does. -/
structure Kept (s : State) : Prop where
  base : Steady s.base
  booked : Booked s
  queue : s.waiting.map Prod.snd = s.base.batch ++ s.base.pendingFunctors
  flow : s.accepted ++ s.base.conn.outputBuffer.content = s.stream.map Prod.snd
  called : 0 < s.base.checked + s.base.stored → ∃ n, s.early = some n

theorem kept_initial (sockfd : Nat) (memory : Memory) : Kept (initial sockfd memory) where
  base := ⟨Shared.sound_initial sockfd memory, by nofun, fun _ => Shared.stream_new sockfd⟩
  booked := ⟨List.Pairwise.nil, by nofun, by nofun, by nofun, by nofun, by nofun, by nofun⟩
  queue := rfl
  flow := Buffer.initial_content Buffer.kInitialSize
  called := by nofun

/-- The functor that runs next is the one the ledger has next. -/
theorem Kept.head (h : Kept s) {f : Functor} (hhead : s.base.batch.head? = some f) :
    ∃ i rest, s.waiting = (i, f) :: rest := by
  have hqueue := h.queue
  obtain ⟨batch, hbatch⟩ := List.head?_eq_some_iff.mp hhead
  rw [hbatch, List.cons_append, List.map_eq_cons_iff] at hqueue
  obtain ⟨⟨i, g⟩, rest, hwaiting, rfl, -⟩ := hqueue
  exact ⟨i, rest, hwaiting⟩

theorem record_functor {i : Nat} {f : Functor} {rest : List (Nat × Functor)} {write : Transfer}
    (h : s.waiting = (i, f) :: rest) : s.record (.functor write) = { s with
      waiting := rest
      stream := s.stream ++ (f.message?.elim [] fun m => tagged i m.held) } := by
  cases f <;> simp [State.record, h, Shared.Functor.message?]

theorem booked_record (h : Kept s) (hm : may s l) : Booked (s.record l) := by
  cases l with
  | setCloseCallback | setWriteCompleteCallback | setHighWaterMarkCallback | handleEvent
  | connectEstablished | callback | doPendingFunctors | checkSend | storeShutdown | store =>
    exact h.booked
  | removeConnection => exact h.booked.push rfl (by nofun)
  | pushShutdown =>
    exact h.booked.push rfl fun _ => h.called (Nat.add_pos_right _ hm.1.2)
  | pushSend message => exact h.booked.pushSend message
  | send argument write =>
    simp only [State.record]
    split
    · exact h.booked.send _
    · exact h.booked
  | shutdown | checkShutdown =>
    have hbefore (i : Nat) (hi : (i, Functor.shutdownInLoop) ∈ s.waiting) : False := by
      obtain ⟨n, hn, -⟩ := h.booked.behind i hi
      rw [show s.early = none from hm.2.2] at hn
      cases hn
    exact ⟨h.booked.order, h.booked.numbered, h.booked.held, h.booked.tags, h.booked.bytes,
      fun n hn => Nat.le_of_eq (Option.some.inj hn).symm, fun i hi => (hbefore i hi).elim⟩
  | functor write =>
    obtain ⟨f, hf, -⟩ := hm.1.2.2
    obtain ⟨i, rest, hwaiting⟩ := h.head (Option.mem_def.mp hf)
    rw [record_functor hwaiting]
    exact h.booked.pop hwaiting

/-- What the step hands over goes to the back of the stream. -/
theorem record_stream (h : Kept s) (hm : may s l) :
    (s.record l).stream.map Prod.snd = s.stream.map Prod.snd ++ Shared.handed s.base l := by
  cases l with
  | setCloseCallback | setWriteCompleteCallback | setHighWaterMarkCallback | handleEvent
  | connectEstablished | callback | doPendingFunctors | checkSend | storeShutdown | store
  | removeConnection | pushShutdown | pushSend | shutdown | checkShutdown =>
    exact (List.append_nil _).symm
  | send argument write =>
    simp only [State.record, Shared.handed]
    cases s.base.conn.connected with
    | false => exact (List.append_nil _).symm
    | true =>
      cases s.base.memory.load argument.message argument.len with
      | error fault => exact (List.append_nil _).symm
      | ok data => simp only [List.map_append, map_snd_tagged]
  | functor write =>
    obtain ⟨f, hf, -⟩ := hm.1.2.2
    have hhead := Option.mem_def.mp hf
    obtain ⟨i, rest, hwaiting⟩ := h.head hhead
    rw [record_functor hwaiting, List.map_append]
    simp only [Shared.handed, hhead]
    cases f with
    | sendInLoop m => rw [Shared.Functor.message?, Option.elim_some, map_snd_tagged]
    | shutdownInLoop | connectDestroyed => rfl

theorem record_queue (h : Kept s) (hm : may s l) {base : Shared.State}
    (hs : Shared.step build s.base l = .ok (e, base)) :
    (s.record l).waiting.map Prod.snd = base.batch ++ base.pendingFunctors := by
  have hqueue := h.queue
  cases l with
  | setCloseCallback | setWriteCompleteCallback | setHighWaterMarkCallback | handleEvent | checkSend
  | storeShutdown | store | shutdown | checkShutdown =>
    cases hs
    exact hqueue
  | connectEstablished =>
    obtain ⟨r, -, hs⟩ := bind_eq_ok.mp hs
    cases hs
    exact hqueue
  | callback transfer =>
    obtain ⟨callback, r, -, -, heq⟩ := Shared.callback_runs hm.1 hs
    cases heq
    exact hqueue
  | doPendingFunctors =>
    cases hs
    rw [show s.base.batch = [] from hm.1.2.2, List.nil_append] at hqueue
    exact hqueue.trans (List.append_nil _).symm
  | removeConnection | pushShutdown | pushSend =>
    cases hs
    simp [State.record, hqueue]
  | send argument write =>
    have hsame : (s.record (.send argument write)).waiting = s.waiting := by
      simp only [State.record]
      split <;> rfl
    rw [hsame, hqueue]
    obtain ⟨-, data, r, -, -, heq⟩ | ⟨-, heq⟩ := Shared.send_runs hs
    · cases heq
      rfl
    · cases heq
      rfl
  | functor write =>
    obtain ⟨f, r, hhead, -, -, heq⟩ := Shared.functor_runs hm.1 hs
    cases heq
    obtain ⟨i, rest, hwaiting⟩ := h.head hhead
    obtain ⟨batch, hbatch⟩ := List.head?_eq_some_iff.mp hhead
    rw [hwaiting, hbatch] at hqueue
    rw [record_functor hwaiting]
    simp only [hbatch, List.tail_cons]
    exact (List.cons.inj hqueue).2

/-- Only a call of `shutdown` goes on to its store and its push. -/
theorem record_called (h : Kept s) (hm : may s l) {base : Shared.State}
    (hs : Shared.step build s.base l = .ok (e, base)) (hpos : 0 < base.checked + base.stored) :
    ∃ n, (s.record l).early = some n := by
  cases l with
  | setCloseCallback | setWriteCompleteCallback | setHighWaterMarkCallback | handleEvent | checkSend
  | doPendingFunctors | store | removeConnection | pushSend =>
    cases hs
    exact h.called hpos
  | connectEstablished =>
    obtain ⟨r, -, hs⟩ := bind_eq_ok.mp hs
    cases hs
    exact h.called hpos
  | callback transfer =>
    obtain ⟨callback, r, -, -, heq⟩ := Shared.callback_runs hm.1 hs
    cases heq
    exact h.called hpos
  | storeShutdown => exact h.called (Nat.add_pos_left hm.1.2 _)
  | pushShutdown => exact h.called (Nat.add_pos_right _ hm.1.2)
  | shutdown | checkShutdown => exact ⟨_, rfl⟩
  | send argument write =>
    have hsame : (s.record (.send argument write)).early = s.early := by
      simp only [State.record]
      split <;> rfl
    rw [hsame]
    obtain ⟨-, data, r, -, -, heq⟩ | ⟨-, heq⟩ := Shared.send_runs hs
    · cases heq
      exact h.called hpos
    · cases heq
      exact h.called hpos
  | functor write =>
    obtain ⟨f, r, hhead, -, -, heq⟩ := Shared.functor_runs hm.1 hs
    cases heq
    obtain ⟨i, rest, hwaiting⟩ := h.head hhead
    rw [record_functor hwaiting]
    exact h.called hpos

theorem step_base (hs : step build s l = .ok (e, s')) :
    ∃ base, Shared.step build s.base l = .ok (e, base) ∧
      s' = { s.record l with base, accepted := s.accepted ++ taken e } := by
  obtain ⟨⟨e', base⟩, hbase, hs⟩ := bind_eq_ok.mp hs
  cases hs
  exact ⟨base, hbase, rfl⟩

theorem untouched (hm : may s l) : Shared.Untouched s.base l := by
  cases l with
  | store => exact hm.2.2.elim
  | _ => trivial

theorem kept_step (h : Kept s) (hm : may s l) (hs : step build s l = .ok (e, s')) : Kept s' := by
  obtain ⟨base, hbase, rfl⟩ := step_base hs
  refine ⟨Shared.steady_step h.base hm.1 hm.2.1 (untouched hm) hbase,
    (booked_record h hm).congr rfl rfl rfl rfl, record_queue h hm hbase, ?_,
    record_called h hm hbase⟩
  have hhands := Shared.hands_step h.base hm.1 hm.2.1 hbase
  show s.accepted ++ taken e ++ base.conn.outputBuffer.content = (s.record l).stream.map Prod.snd
  rw [record_stream h hm, List.append_assoc, hhands, ← List.append_assoc, h.flow]

theorem kept_run {sockfd : Nat} {memory : Memory} {tr : List (Action × List Effect)}
    (h : (machine build).Run (initial sockfd memory) tr s) : Kept s :=
  h.preserves (fun _ _ _ _ hk hm hs => kept_step hk hm hs) (kept_initial sockfd memory)

/-! ### At a half-close -/

/-- What is accepted is the front of the stream, what is buffered the rest. -/
theorem Kept.split (h : Kept s) :
    s.accepted = (s.stream.take s.accepted.length).map Prod.snd ∧
      s.base.conn.outputBuffer.content = s.pending.map Prod.snd := by
  have htake := congrArg (List.take s.accepted.length) h.flow
  have hdrop := congrArg (List.drop s.accepted.length) h.flow
  rw [List.take_left, ← List.map_take] at htake
  rw [List.drop_left, ← List.map_drop] at hdrop
  exact ⟨htake, hdrop⟩

theorem Kept.pending_eq_nil (h : Kept s) (hnil : s.base.conn.outputBuffer.content = []) :
    s.pending = [] :=
  List.map_eq_nil_iff.mp (h.split.2.symm.trans hnil)

/-- All is written that was sent before, if none of it is queued or buffered. -/
theorem Kept.flushed_iff (h : Kept s) : s.Flushed ↔
    (∀ i < s.early.getD 0, s.Waits i → s.sends[i]? = some []) ∧
      ∀ x ∈ s.pending, ¬ x.1 < s.early.getD 0 := by
  have hparts (i : Nat) : s.acceptedOf i ++ bytesOf i s.pending = bytesOf i s.stream := by
    rw [State.acceptedOf, ← bytesOf_append, State.pending, List.take_append_drop]
  have hsent (i : Nat) (hi : i < s.early.getD 0) : ∃ data, s.sends[i]? = some data := by
    cases he : s.early with
    | none =>
      rw [he] at hi
      exact absurd hi (Nat.not_lt_zero i)
    | some n =>
      rw [he] at hi
      exact ⟨_, List.getElem?_eq_getElem (Nat.lt_of_lt_of_le hi (h.booked.early n he))⟩
  constructor
  · intro hall
    refine ⟨fun i hi hw => ?_, fun x hx hlt => ?_⟩
    · rcases h.booked.bytes i _ (hall i hi) with ⟨-, hnil⟩ | ⟨hnot, -⟩
      · rw [hall i hi, (List.append_eq_nil_iff.mp ((hparts i).trans hnil)).1]
      · exact absurd hw hnot
    · have hbuffered : bytesOf x.1 s.pending ≠ [] := fun hnil => bytesOf_eq_nil.mp hnil x hx rfl
      rcases h.booked.bytes _ _ (hall _ hlt) with ⟨-, hnil⟩ | ⟨-, hdata⟩
      · exact hbuffered (List.append_eq_nil_iff.mp ((hparts _).trans hnil)).2
      · exact hbuffered (List.append_cancel_left
          (((hparts _).trans hdata).trans (List.append_nil _).symm))
  · rintro ⟨hqueued, hbuffered⟩ i hi
    obtain ⟨data, hdata⟩ := hsent i hi
    have hnone : bytesOf i s.pending = [] :=
      bytesOf_eq_nil.mpr fun x hx heq => hbuffered x hx (heq ▸ hi)
    have hall := hparts i
    rw [hnone, List.append_nil] at hall
    rcases h.booked.bytes i data hdata with ⟨hw, hnil⟩ | ⟨-, heq⟩
    · rw [hqueued i hi hw, hall, hnil]
    · rw [hdata, hall, heq]

/-- Whatever waits behind the functor of `shutdown` was sent after the call. -/
theorem Kept.sent_later (h : Kept s) {i : Nat} {rest : List (Nat × Functor)}
    (hwaiting : s.waiting = (i, .shutdownInLoop) :: rest) {j : Nat} (hj : j < s.early.getD 0)
    (m : Shared.Message) : (j, Functor.sendInLoop m) ∉ rest := by
  intro hm
  have horder := h.booked.order
  obtain ⟨n, hn, hle⟩ := h.booked.behind i (hwaiting ▸ List.mem_cons_self)
  rw [hwaiting, List.pairwise_cons] at horder
  have hij := (horder.1 _ hm).1
  rw [hn] at hj
  exact absurd (Nat.lt_of_lt_of_le hj (Nat.le_trans hle hij)) (Nat.lt_irrefl j)

theorem shutdownInLoop_taken {base base' : Shared.State} {write : Transfer}
    (hm : Shared.may base (.functor write))
    (hs : Shared.step build base (.functor write) = .ok (e, base'))
    (hhead : base.batch.head? = some .shutdownInLoop) : taken e = [] := by
  obtain ⟨f, r, hf, -, hr, heq⟩ := Shared.functor_runs hm hs
  cases heq
  obtain rfl := Option.some.inj (hhead.symm.trans hf)
  cases hr
  exact (Shared.shutdownInLoop_hands base.conn).1

/-- **Sent before `shutdown`, written before the half-close?** What write(2) has taken is the
front of what was handed over; and at a half-close, in any run, every send that had returned
before `shutdown` was called has been written to its last byte exactly if the step that
half-closes is prompt. -/
theorem halfClose_flushed_iff {sockfd : Nat} {memory : Memory} {tr : List (Action × List Effect)}
    (h : (machine build).Run (initial sockfd memory) tr s) (hm : (machine build).may s l)
    (hs : (machine build).step s l = .ok (e, s')) (hhalf : .shutdownWrite ∈ e) :
    s'.accepted = (s'.stream.take s'.accepted.length).map Prod.snd ∧ (s'.Flushed ↔ Prompt s l) := by
  have hkept := kept_run h
  have hkept' := kept_step hkept hm hs
  refine ⟨hkept'.split.1, ?_⟩
  rw [hkept'.flushed_iff]
  obtain ⟨base, hbase, rfl⟩ := step_base hs
  cases Shared.halfCloses_step hkept.base hm.1 hbase hhalf with
  | shutdown hnil =>
    rw [hkept'.pending_eq_nil hnil]
    refine Iff.trans (and_iff_left (by simp)) ⟨fun hall i hw => ?_, fun hall i _ hw => hall i hw⟩
    exact hall i (hkept.booked.waits_lt hw) hw
  | handleWrite transfer hnil =>
    rw [hkept'.pending_eq_nil hnil]
    exact and_iff_left (by simp)
  | shutdownInLoop write hhead hnil =>
    obtain ⟨i, rest, hwaiting⟩ := hkept.head hhead
    have hpending : (s.record (.functor write)).stream.drop (s.accepted ++ taken e).length =
        s.pending := by
      rw [record_functor hwaiting, shutdownInLoop_taken hm.1 hbase hhead, List.append_nil]
      exact congrArg _ (List.append_nil _)
    have hearly : (s.record (.functor write)).early = s.early := by rw [record_functor hwaiting]
    refine Iff.trans (and_iff_right ?_) ?_
    · rintro j hj ⟨m, hm⟩
      dsimp only at hj hm
      rw [hearly] at hj
      rw [record_functor hwaiting] at hm
      exact absurd hm (hkept.sent_later hwaiting hj m)
    · show (∀ x ∈ (s.record (.functor write)).stream.drop (s.accepted ++ taken e).length,
        ¬ x.1 < (s.record (.functor write)).early.getD 0) ↔ _
      rw [hpending, hearly]
      refine ⟨fun hall _ => hall, fun hall => ?_⟩
      by_cases hclosed : s.base.closed = true
      · exact hall hclosed
      · rw [hkept.pending_eq_nil (hnil (by simpa using hclosed))]
        simp

/-- Half of a send is buffered when `shutdown` is called, and `handleWrite` writes it first. -/
theorem halfClose_flushed_iff_buffered : ∃ tr s e s',
    (machine .debug).Run (initial 5 fun _ => some 65) tr s ∧
    (machine .debug).step s (.callback (.ok 1)) = .ok (e, s') ∧ .shutdownWrite ∈ e ∧
    s'.early = some 1 ∧ s'.accepted = [65, 65] ∧ Prompt s (.callback (.ok 1)) := by
  obtain ⟨tr, s, h, -, hm, hafter⟩ :=
    (machine .debug).exists_run_of_replay (s := initial 5 fun _ => some 65)
      (P := fun _ s => may s (.callback (.ok 1)) ∧
        (step .debug s (.callback (.ok 1))).toOption.any (fun r => decide
          (.shutdownWrite ∈ r.1 ∧ r.2.early = some 1 ∧ r.2.accepted = [65, 65] ∧ r.2.Flushed)))
      [.connectEstablished, .checkSend (.pointer 0 2) [65, 65], .pushSend ⟨0, 2, [65, 65]⟩,
        .doPendingFunctors, .functor (.ok 1), .shutdown, .handleEvent POLLOUT] (by decide +kernel)
  cases hs : step .debug s (.callback (.ok 1)) with
  | error fault => simp [hs, Except.toOption] at hafter
  | ok r =>
    obtain ⟨e, s'⟩ := r
    rw [hs] at hafter
    obtain ⟨hhalf, hearly, haccepted, hflushed⟩ := of_decide_eq_true hafter
    exact ⟨tr, s, e, s', h, hs, hhalf, hearly, haccepted,
      (halfClose_flushed_iff h hm hs hhalf).2.mp hflushed⟩

/-- Another thread sends, the loop's thread shuts down before the functor has run, and the peer
is told that nothing more will come. -/
theorem halfClose_unflushed : ∃ tr s, (machine .debug).Run (initial 5 fun _ => some 65) tr s ∧
    tr.map Prod.fst = [.connectEstablished, .checkSend (.pointer 0 2) [65, 65],
      .pushSend ⟨0, 2, [65, 65]⟩, .shutdown] ∧
    tr.map Prod.snd = [[.connectionCallback], [], [], [.shutdownWrite]] ∧
    s.early = some 1 ∧ s.sends = [[65, 65]] ∧ s.accepted = [] ∧ ¬ s.Flushed :=
  (machine .debug).exists_run_of_replay
    (P := fun tr s => tr.map Prod.snd = [[.connectionCallback], [], [], [.shutdownWrite]] ∧
      s.early = some 1 ∧ s.sends = [[65, 65]] ∧ s.accepted = [] ∧ ¬ s.Flushed) _ (by decide +kernel)

end Leanet.Flush

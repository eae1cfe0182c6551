import Leanet.Buffer.Model
import Leanet.Foundation.Machine
import Mathlib.Logic.Function.Basic

/-! The buffer is a queue of bytes.

`Queue` says what a buffer is for, over any type of element: data goes in at the
back, or at the front, and comes out in the same order. A family of buffers of any
initial sizes, driven by any sequence of operations and swaps within their
arguments' ranges, is simulated by a family of queues (`refinement`): the states are
valid, no assertion fails, and what a caller takes out is what the queue holds. -/
namespace Leanet

/-! ### What the component is for -/

namespace Queue

inductive Op (α : Type*) where
  | keep
  | pushBack (data : List α)
  | pushFront (data : List α)
  | drop (n : Nat)
  /-- Drop from the front and hand over what was dropped. -/
  | take (n : Nat)
  | clear
  | takeAll
  | dropBack (n : Nat)

variable {α ι : Type*}

def apply (q : List α) : Op α → Option (List α) × List α
  | .keep => (none, q)
  | .pushBack data => (none, q ++ data)
  | .pushFront data => (none, data ++ q)
  | .drop n => (none, q.drop n)
  | .take n => (some (q.take n), q.drop n)
  | .clear => (none, [])
  | .takeAll => (some q, [])
  | .dropBack n => (none, q.take (q.length - n))

def may (q : List α) : Op α → Prop
  | .drop n | .take n | .dropBack n => n ≤ q.length
  | _ => True

end Queue

/-- A request to a family of objects: an operation on one, or a swap of two. -/
inductive Request (ι κ : Type*) where
  | on (i : ι) (op : κ)
  | swap (i j : ι)

/-- Every object answers for itself; a swap exchanges two. -/
def Queue.machine (ι α : Type*) [DecidableEq ι] :
    Machine (ι → List α) (Request ι (Queue.Op α)) (Option (List α)) Empty where
  may qs
    | .on i op => Queue.may (qs i) op
    | .swap _ _ => True
  step qs
    | .on i op => .ok ((Queue.apply (qs i) op).1, Function.update qs i (Queue.apply (qs i) op).2)
    | .swap i j => .ok (none, Function.update (Function.update qs i (qs j)) j (qs i))

/-! ### The buffer, operation by operation -/

namespace Buffer

inductive Op where
  | append (data : List UInt8) (len : Nat)
  | appendVoid (data : List UInt8) (len : Nat)
  | appendView (view : StringView)
  | appendString (str : List UInt8)
  | prepend (data : List UInt8) (len : Nat)
  | retrieve (len : Nat)
  /-- `retrieveUntil(peek() + len)`. -/
  | retrieveUntil (len : Nat)
  | retrieveAsString (len : Nat)
  | retrieveAll
  | retrieveAllAsString
  | unwrite (len : Nat)
  | ensureWritableBytes (len : Nat)
  /-- The bytes are stored at `beginWrite()`, then `hasWritten(data.length)`. -/
  | hasWritten (data : List UInt8)

/-- A pointer comes with at least `len` bytes; what is taken or dropped is there. -/
def may (b : Buffer) : Op → Prop
  | .append data len | .appendVoid data len => len ≤ data.length
  | .appendView view => view.length ≤ view.data.length
  | .prepend data len => len ≤ data.length ∧ len ≤ b.prependableBytes
  | .retrieve len | .retrieveUntil len | .retrieveAsString len | .unwrite len =>
    len ≤ b.readableBytes
  | .hasWritten data => data.length ≤ b.writableBytes
  | _ => True

instance (b : Buffer) : (op : Op) → Decidable (b.may op)
  | .append .. | .appendVoid .. | .appendView .. | .retrieve _ | .retrieveUntil _
  | .retrieveAsString _ | .unwrite _ | .hasWritten _ => inferInstanceAs (Decidable (_ ≤ _))
  | .prepend .. => inferInstanceAs (Decidable (_ ∧ _))
  | .appendString _ | .retrieveAll | .retrieveAllAsString | .ensureWritableBytes _ =>
    inferInstanceAs (Decidable True)

def apply (b : Buffer) : Op → Except Fault (Option (List UInt8) × Buffer)
  | .append data len => do pure (none, ← b.append data len)
  | .appendVoid data len => do pure (none, ← b.appendVoid data len)
  | .appendView view => do pure (none, ← b.appendView view)
  | .appendString str => do pure (none, ← b.appendString str)
  | .prepend data len => do pure (none, ← b.prepend data len)
  | .retrieve len => do pure (none, ← b.retrieve len)
  | .retrieveUntil len => do pure (none, ← b.retrieveUntil (b.peek + len))
  | .retrieveAsString len => do
    let (str, b) ← b.retrieveAsString len
    pure (some str, b)
  | .retrieveAll => pure (none, b.retrieveAll)
  | .retrieveAllAsString => do
    let (str, b) ← b.retrieveAllAsString
    pure (some str, b)
  | .unwrite len => do pure (none, ← b.unwrite len)
  | .ensureWritableBytes len => do pure (none, ← b.ensureWritableBytes len)
  | .hasWritten data => do
    pure (none, ← { b with buffer := Bytes.store b.buffer b.beginWrite data }.hasWritten data.length)

/-- What the operation is to a queue. -/
def Op.abstract : Op → Queue.Op UInt8
  | .append data len | .appendVoid data len => .pushBack (data.take len)
  | .appendView view => .pushBack (view.data.take view.length)
  | .appendString str => .pushBack str
  | .prepend data len => .pushFront (data.take len)
  | .retrieve len | .retrieveUntil len => .drop len
  | .retrieveAsString len => .take len
  | .retrieveAll => .clear
  | .retrieveAllAsString => .takeAll
  | .unwrite len => .dropBack len
  | .ensureWritableBytes _ => .keep
  | .hasWritten data => .pushBack data

theorem may_abstract {b : Buffer} (h : b.Valid) {op : Op} (hm : b.may op) :
    Queue.may b.content op.abstract := by
  cases op <;> simp only [Op.abstract, Queue.may, length_content h] <;> exact hm

/-- One operation: it answers, the buffer stays valid, and the queue agrees. -/
theorem apply_spec {b : Buffer} (h : b.Valid) {op : Op} (hm : b.may op) :
    ∃ out b', b.apply op = .ok (out, b') ∧ b'.Valid ∧
      Queue.apply b.content op.abstract = (out, b'.content) := by
  cases op with
  | append data len | appendVoid data len =>
    obtain ⟨b', hb, hv, hc⟩ := append_spec h (show len ≤ data.length from hm)
    exact ⟨none, b', by simp [apply, appendVoid, hb], hv, by rw [hc]; rfl⟩
  | appendView view =>
    obtain ⟨b', hb, hv, hc⟩ := append_spec h (show view.length ≤ view.data.length from hm)
    exact ⟨none, b', by simp [apply, appendView, hb], hv, by rw [hc]; rfl⟩
  | appendString str =>
    obtain ⟨b', hb, hv, hc⟩ := append_spec h (Nat.le_refl str.length)
    rw [List.take_length] at hc
    exact ⟨none, b', by simp [apply, appendString, hb], hv, by rw [hc]; rfl⟩
  | prepend data len =>
    obtain ⟨b', hb, hv, hc⟩ := prepend_spec h hm.2 hm.1
    exact ⟨none, b', by simp [apply, hb], hv, by rw [hc]; rfl⟩
  | retrieve len =>
    obtain ⟨b', hb, hv, hc⟩ := retrieve_spec h (show len ≤ b.readableBytes from hm)
    exact ⟨none, b', by simp [apply, hb], hv, by rw [hc]; rfl⟩
  | retrieveUntil len =>
    have hlen : b.readerIndex + len ≤ b.writerIndex := by
      have := h.ordered
      simp only [may, readableBytes] at hm
      omega
    obtain ⟨b', hb, hv, hc⟩ := retrieveUntil_spec h (Nat.le_add_right _ len) hlen
    rw [Nat.add_sub_cancel_left] at hc
    exact ⟨none, b', by simp [apply, peek, hb], hv, by rw [hc]; rfl⟩
  | retrieveAsString len =>
    obtain ⟨b', hb, hv, hc⟩ := retrieveAsString_spec h (show len ≤ b.readableBytes from hm)
    exact ⟨some (b.content.take len), b', by simp [apply, hb], hv, by rw [hc]; rfl⟩
  | retrieveAll => exact ⟨none, _, rfl, retrieveAll_valid h, by rw [retrieveAll_content]; rfl⟩
  | retrieveAllAsString =>
    obtain ⟨b', hb, hv, hc⟩ := retrieveAsString_spec h (Nat.le_refl _)
    rw [← length_content h, List.take_length] at hb
    rw [← length_content h, List.drop_length] at hc
    exact ⟨some b.content, b', by simp [apply, retrieveAllAsString, ← length_content h, hb], hv,
      by rw [hc]; rfl⟩
  | unwrite len =>
    obtain ⟨b', hb, hv, hc⟩ := unwrite_spec h (show len ≤ b.readableBytes from hm)
    exact ⟨none, b', by simp [apply, hb], hv, by rw [hc]; rfl⟩
  | ensureWritableBytes len =>
    obtain ⟨b', hb, hv, hc, _⟩ := ensureWritableBytes_spec h len
    exact ⟨none, b', by simp [apply, hb], hv, by rw [hc]; rfl⟩
  | hasWritten data =>
    obtain ⟨b', hb, hv, hc⟩ := hasWritten_spec h (show data.length ≤ b.writableBytes from hm)
    exact ⟨none, b', by simp [apply, hb], hv, by rw [hc]; rfl⟩

/-! ### Families of buffers -/

section Family
variable {ι : Type} [DecidableEq ι]

def machine (ι : Type) [DecidableEq ι] :
    Machine (ι → Buffer) (Request ι Op) (Option (List UInt8)) Fault where
  may bs
    | .on i op => (bs i).may op
    | .swap _ _ => True
  step bs
    | .on i op => do
      let (out, b) ← (bs i).apply op
      pure (out, Function.update bs i b)
    | .swap i j =>
      let (a, b) := (bs i).swap (bs j)
      pure (none, Function.update (Function.update bs i a) j b)

instance (bs : ι → Buffer) : (req : Request ι Op) → Decidable ((machine ι).may bs req)
  | .on i op => inferInstanceAs (Decidable ((bs i).may op))
  | .swap _ _ => inferInstanceAs (Decidable True)

def abstractRequest : Request ι Op → Request ι (Queue.Op UInt8)
  | .on i op => .on i op.abstract
  | .swap i j => .swap i j

/-- Each buffer valid and holding what its queue does. -/
def Refines (bs : ι → Buffer) (qs : ι → List UInt8) : Prop :=
  ∀ i, (bs i).Valid ∧ (bs i).content = qs i

theorem Refines.update {bs : ι → Buffer} {qs : ι → List UInt8} (h : Refines bs qs) (i : ι)
    {b : Buffer} (hv : b.Valid) :
    Refines (Function.update bs i b) (Function.update qs i b.content) := by
  intro j
  by_cases hj : j = i
  · subst hj
    simpa using hv
  · simpa [hj] using h j

def refinement (ι : Type) [DecidableEq ι] :
    Machine.Simulation (machine ι) (Queue.machine ι UInt8) where
  rel := Refines
  label := abstractRequest
  step := by
    intro bs qs req h hm
    cases req with
    | on i op =>
      obtain ⟨hv, hc⟩ := h i
      obtain ⟨out, b', happly, hv', hq⟩ := apply_spec hv hm
      have hm' := may_abstract hv hm
      rw [hc] at hq hm'
      refine ⟨out, Function.update bs i b', Function.update qs i b'.content, ?_, hm', ?_,
        h.update i hv'⟩
      · simp [machine, happly]
      · simp [Queue.machine, abstractRequest, hq]
    | swap i j =>
      refine ⟨none, _, _, rfl, trivial, rfl, ?_⟩
      have h' := (h.update i (h j).1).update j (h i).1
      rw [(h j).2, (h i).2] at h'
      exact h'

/-- **The buffer refines a byte queue.** Whatever the initial sizes, construction
passes its assertions and leaves empty buffers; after any sequence of operations
within their arguments' ranges every buffer is valid and holds what its queue
holds, the strings handed out being the queues' too; and no next operation fails an
assertion, while `ensureWritableBytes(len)` leaves at least `len` writable bytes. -/
theorem buffer_refines_queue (sizes : ι → Nat) {tr : List (Request ι Op × Option (List UInt8))}
    {bs : ι → Buffer} (h : (machine ι).Run (fun i => initial (sizes i)) tr bs) :
    (∀ i, new (sizes i) = .ok (initial (sizes i))) ∧
    (∀ i, (bs i).readerIndex ≤ (bs i).writerIndex ∧
      (bs i).writerIndex ≤ (bs i).buffer.length ∧ kCheapPrepend ≤ (bs i).buffer.length) ∧
    (Queue.machine ι UInt8).Run (fun _ => []) ((refinement ι).trace tr) (fun i => (bs i).content) ∧
    (∀ req, (machine ι).may bs req → ∃ out bs', (machine ι).step bs req = .ok (out, bs') ∧
      ∀ i len, req = .on i (.ensureWritableBytes len) → len ≤ (bs' i).writableBytes) := by
  have hinit : Refines (fun i : ι => initial (sizes i)) (fun _ => []) :=
    fun i => ⟨initial_valid _, initial_content _⟩
  obtain ⟨qs, hrun, hrel⟩ := (refinement ι).run h hinit
  have hqs : qs = fun i => (bs i).content := funext fun i => (hrel i).2.symm
  subst hqs
  refine ⟨fun i => new_eq _, fun i => ?_, hrun, fun req hm => ?_⟩
  · obtain ⟨hv, _⟩ := hrel i
    exact ⟨hv.ordered, hv.bounded, hv.reserve⟩
  · obtain ⟨out, bs', _, hstep, _⟩ := (refinement ι).step bs _ req hrel hm
    refine ⟨out, bs', hstep, ?_⟩
    rintro i len rfl
    obtain ⟨b', hb, _, _, hw⟩ := ensureWritableBytes_spec (hrel i).1 len
    simp only [machine, apply, hb, ok_bind, pure_eq_ok, Except.ok.injEq, Prod.mk.injEq] at hstep
    rw [← hstep.2, Function.update_self]
    exact hw

/-- Eight bytes in, six out, three more in: the bytes move back to the reserve, then
the buffer changes hands. -/
theorem buffer_refines_queue_compacts : ∃ tr bs,
    (machine Bool).Run (fun _ => initial 8) tr bs ∧
    (Queue.machine Bool UInt8).Run (fun _ => []) ((refinement Bool).trace tr)
      (fun i => (bs i).content) ∧
    (bs false).content = [7, 8, 9, 10, 11] ∧ (bs false).buffer.length = 16 := by
  obtain ⟨tr, bs, h, -, hend⟩ := (machine Bool).exists_run_of_replay (s := fun _ => initial 8)
    (P := fun _ bs => (bs false).content = [7, 8, 9, 10, 11] ∧ (bs false).buffer.length = 16)
    [.on true (.append [1, 2, 3, 4, 5, 6, 7, 8] 8), .on true (.retrieve 6),
      .on true (.appendString [9, 10, 11]), .swap true false] (by decide +kernel)
  exact ⟨tr, bs, h, (buffer_refines_queue (fun _ => 8) h).2.2.1, hend⟩

end Family
end Buffer
end Leanet

import Leanet.Buffer.Circular
import Leanet.Buffer.Queue

/-! The circular buffer is a queue of bytes, and so agrees with the linear one.

A family of circular buffers answers any sequence of operations, swaps, assignments and copy
constructions. As long as no capacity that is asked for reaches `INT_MAX`, it is simulated by a
family of queues (`circular_refinement`), a copy being a copy of the queue.

How deep `extend` may call itself is a parameter of the machine. The results hold of every depth
from one on, so of one: making room never extends a buffer while it extends another. -/
namespace Leanet

/-- A request to a family of objects that can be copied. -/
inductive CopyRequest (ι κ : Type*) where
  | on (i : ι) (op : κ)
  | swap (i j : ι)
  | assign (i j : ι)
  /-- `i` is constructed from `j`. -/
  | copy (i j : ι)

/-- Queues that can be copied. There is always something to drop: at most what is there. -/
def Queue.copying (ι α : Type*) [DecidableEq ι] :
    Machine (ι → List α) (CopyRequest ι (Queue.Op α)) (Option (List α)) Empty where
  may _ _ := True
  step qs
    | .on i op => .ok ((Queue.apply (qs i) op).1, Function.update qs i (Queue.apply (qs i) op).2)
    | .swap i j => .ok (none, Function.update (Function.update qs i (qs j)) j (qs i))
    | .assign i j | .copy i j => .ok (none, Function.update qs i (qs j))

namespace CircularBuffer

inductive Op where
  | append (data : List UInt8) (len : Nat)
  | appendVoid (data : List UInt8) (len : Nat)
  | appendView (view : StringView)
  | appendString (str : List UInt8)
  | retrieve (len : Nat)
  | retrieveAll
  | retrieveAllAsString
  | ensureWritableBytes (len : Nat)

/-- A pointer comes with at least `len` bytes, and the capacity asked for is below `INT_MAX`. -/
def may (b : CircularBuffer) : Op → Prop
  | .append data len | .appendVoid data len => len ≤ data.length ∧ b.reached len < 2147483647
  | .appendView view => view.length ≤ view.data.length ∧ b.reached view.length < 2147483647
  | .appendString str => b.reached str.length < 2147483647
  | .ensureWritableBytes len => b.reached len < 2147483647
  | .retrieve _ | .retrieveAll | .retrieveAllAsString => True

instance (b : CircularBuffer) : (op : Op) → Decidable (b.may op)
  | .append .. | .appendVoid .. | .appendView .. => inferInstanceAs (Decidable (_ ∧ _))
  | .appendString _ | .ensureWritableBytes _ => inferInstanceAs (Decidable (_ < _))
  | .retrieve _ | .retrieveAll | .retrieveAllAsString => inferInstanceAs (Decidable True)

def apply (depth : Nat) (b : CircularBuffer) :
    Op → Except Stop (Option (List UInt8) × CircularBuffer)
  | .append data len => do pure (none, ← b.append depth (data.map some) len)
  | .appendVoid data len => do pure (none, ← b.appendVoid depth (data.map some) len)
  | .appendView view => do pure (none, ← b.appendView depth view)
  | .appendString str => do pure (none, ← b.appendString depth str)
  | .retrieve len => do pure (none, ← b.retrieve len)
  | .retrieveAll => pure (none, b.retrieveAll)
  | .retrieveAllAsString => do
    let (str, b) ← b.retrieveAllAsString
    pure (some str, b)
  | .ensureWritableBytes len => do pure (none, ← b.ensureWritableBytes depth len)

/-- What the operation is to a queue. -/
def Op.abstract : Op → Queue.Op UInt8
  | .append data len | .appendVoid data len => .pushBack (data.take len)
  | .appendView view => .pushBack (view.data.take view.length)
  | .appendString str => .pushBack str
  | .retrieve len => .drop len
  | .retrieveAll => .clear
  | .retrieveAllAsString => .takeAll
  | .ensureWritableBytes _ => .keep

/-- What the operation is to the linear buffer `l`, which drops no more than it has. -/
def Op.linear (l : Buffer) : Op → Buffer.Op
  | .append data len => .append data len
  | .appendVoid data len => .appendVoid data len
  | .appendView view => .appendView view
  | .appendString str => .appendString str
  | .retrieve len => .retrieve (min len l.readableBytes)
  | .retrieveAll => .retrieveAll
  | .retrieveAllAsString => .retrieveAllAsString
  | .ensureWritableBytes len => .ensureWritableBytes len

/-- The buffer holds `q`, every byte of it written. -/
def Holds (b : CircularBuffer) (q : List UInt8) : Prop := b.Valid ∧ b.content = q.map some

variable {b : CircularBuffer} {q : List UInt8} (depth : Nat)

theorem Holds.length (h : b.Holds q) : b.content.length = q.length := by
  rw [h.2, List.length_map]

/-- Bytes from memory that has been written. -/
theorem Holds.append (h : b.Holds q) {data : List UInt8} {len : Nat} (hdata : len ≤ data.length)
    (hmax : b.reached len < 2147483647) :
    ∃ b', b.append (depth + 1) (data.map some) len = .ok b' ∧ b'.Holds (q ++ data.take len) := by
  have hdata' : len ≤ (data.map some).length := by rwa [List.length_map]
  obtain ⟨b', hb, hv, hc⟩ := append_spec depth h.1 hdata' hmax
  refine ⟨b', hb, hv, ?_⟩
  rw [hc, h.2, List.map_append, List.map_take]

/-- One operation: it answers, and the queue agrees. -/
theorem Holds.apply (h : b.Holds q) {op : Op} (hm : b.may op) :
    ∃ out b' q', b.apply (depth + 1) op = .ok (out, b') ∧ b'.Holds q' ∧
      Queue.apply q op.abstract = (out, q') := by
  cases op with
  | append data len | appendVoid data len =>
    obtain ⟨b', hb, hh⟩ := h.append depth hm.1 hm.2
    exact ⟨none, b', _, by simp [CircularBuffer.apply, appendVoid, hb], hh, rfl⟩
  | appendView view =>
    obtain ⟨b', hb, hh⟩ := h.append depth hm.1 hm.2
    exact ⟨none, b', _, by simp [CircularBuffer.apply, appendView, hb], hh, rfl⟩
  | appendString str =>
    obtain ⟨b', hb, hh⟩ := h.append depth (Nat.le_refl str.length) hm
    rw [List.take_length] at hh
    exact ⟨none, b', _, by simp [CircularBuffer.apply, appendString, hb], hh, rfl⟩
  | retrieve len =>
    obtain ⟨b', hb, hv, hc⟩ := retrieve_spec h.1 len
    rw [h.2, ← List.map_drop] at hc
    exact ⟨none, b', _, by simp [CircularBuffer.apply, hb], ⟨hv, hc⟩, rfl⟩
  | retrieveAll =>
    exact ⟨none, _, [], rfl, ⟨retrieveAll_valid h.1, retrieveAll_content b⟩, rfl⟩
  | retrieveAllAsString =>
    obtain ⟨b', hb, hv, hc⟩ := retrieveAllAsString_spec h.1 h.2
    exact ⟨some q, b', [], by simp [CircularBuffer.apply, hb], ⟨hv, hc⟩, rfl⟩
  | ensureWritableBytes len =>
    obtain ⟨b', hb, hv, hc, -⟩ := ensureWritableBytes_spec depth h.1 hm
    exact ⟨none, b', q, by simp [CircularBuffer.apply, hb], ⟨hv, hc.trans h.2⟩, rfl⟩

/-- The linear buffer that holds the same may be asked the same, and does the same. -/
theorem linear_agrees {l : Buffer} (h : l.Valid) {op : Op} (hm : b.may op) :
    ∃ out l', l.apply (op.linear l) = .ok (out, l') ∧ l'.Valid ∧
      Queue.apply l.content op.abstract = (out, l'.content) := by
  have hmay : l.may (op.linear l) := by
    cases op with
    | append data len | appendVoid data len => exact hm.1
    | appendView view => exact hm.1
    | retrieve len => exact Nat.min_le_right len l.readableBytes
    | appendString str | retrieveAll | retrieveAllAsString | ensureWritableBytes len => trivial
  obtain ⟨out, l', hl, hv, hq⟩ := Buffer.apply_spec h hmay
  refine ⟨out, l', hl, hv, ?_⟩
  rw [← hq]
  cases op with
  | retrieve len =>
    simp only [Op.abstract, Op.linear, Buffer.Op.abstract, Queue.apply, ← Buffer.length_content h]
    rcases Nat.le_total len l.content.length with hle | hle
    · rw [Nat.min_eq_left hle]
    · rw [Nat.min_eq_right hle, List.drop_length, List.drop_eq_nil_of_le hle]
  | append data len | appendVoid data len => rfl
  | appendView view => rfl
  | appendString str | retrieveAll | retrieveAllAsString | ensureWritableBytes len => rfl

/-! ### Families of buffers -/

section Family
variable {ι : Type} [DecidableEq ι]

def machine (ι : Type) [DecidableEq ι] (depth : Nat) :
    Machine (ι → CircularBuffer) (CopyRequest ι Op) (Option (List UInt8)) Stop where
  may bs
    | .on i op => (bs i).may op
    | .swap _ _ | .assign _ _ | .copy _ _ => True
  step bs
    | .on i op => do
      let (out, b) ← (bs i).apply depth op
      pure (out, Function.update bs i b)
    | .swap i j =>
      let (a, b) := (bs i).swap (bs j)
      pure (none, Function.update (Function.update bs i a) j b)
    | .assign i j => pure (none, Function.update bs i ((bs i).assign (bs j)))
    | .copy i j => pure (none, Function.update bs i (bs j).copy)

instance (bs : ι → CircularBuffer) :
    (req : CopyRequest ι Op) → Decidable ((machine ι depth).may bs req)
  | .on i op => inferInstanceAs (Decidable ((bs i).may op))
  | .swap _ _ | .assign _ _ | .copy _ _ => inferInstanceAs (Decidable True)

def abstractRequest : CopyRequest ι Op → CopyRequest ι (Queue.Op UInt8)
  | .on i op => .on i op.abstract
  | .swap i j => .swap i j
  | .assign i j => .assign i j
  | .copy i j => .copy i j

def Refines (bs : ι → CircularBuffer) (qs : ι → List UInt8) : Prop := ∀ i, (bs i).Holds (qs i)

theorem Refines.update {bs : ι → CircularBuffer} {qs : ι → List UInt8} (h : Refines bs qs) (i : ι)
    (hb : b.Holds q) : Refines (Function.update bs i b) (Function.update qs i q) := by
  intro j
  by_cases hj : j = i
  · subst hj
    simpa using hb
  · simpa [hj] using h j

theorem Holds.copy (h : b.Holds q) : b.copy.Holds q := by
  obtain ⟨hv, hc⟩ := copy_spec h.1
  exact ⟨hv, hc.trans h.2⟩

def circular_refinement (ι : Type) [DecidableEq ι] :
    Machine.Simulation (machine ι (depth + 1)) (Queue.copying ι UInt8) where
  rel := Refines
  label := abstractRequest
  step := by
    intro bs qs req h hm
    cases req with
    | on i op =>
      obtain ⟨out, b', q', happly, hb, hq⟩ := (h i).apply depth hm
      refine ⟨out, Function.update bs i b', Function.update qs i q', ?_, trivial, ?_, h.update i hb⟩
      · simp [machine, happly]
      · simp [Queue.copying, abstractRequest, hq]
    | swap i j =>
      exact ⟨none, _, _, rfl, trivial, rfl, (h.update i (h j)).update j (h i)⟩
    | assign i j | copy i j =>
      exact ⟨none, _, _, rfl, trivial, rfl, h.update i (h j).copy⟩

/-- **The circular buffer refines a byte queue.** Construction passes its assertions. After any
sequence of requests both indices are in the array, `readableBytes` is the length of what the
queue holds, and the strings handed out have been the queues'. No next request fails an
assertion, the linear buffer answers it alike, and `ensureWritableBytes(len)` makes room for
`len` bytes. -/
theorem circularBuffer_refines_queue (sizes : ι → Nat)
    (hsizes : ∀ i, sizes i < 2147483647) {tr : List (CopyRequest ι Op × Option (List UInt8))}
    {bs : ι → CircularBuffer}
    (h : (machine ι (depth + 1)).Run (fun i => initial (sizes i)) tr bs) :
    (∀ i, new (sizes i) = .ok (initial (sizes i))) ∧
    ∃ qs, (Queue.copying ι UInt8).Run (fun _ => []) ((circular_refinement depth ι).trace tr) qs ∧
      (∀ i, (bs i).content = (qs i).map some ∧
        (bs i).readerIndex < (bs i).size ∧ (bs i).writerIndex < (bs i).size ∧
        (bs i).readableBytes = .ok (qs i).length ∧ (qs i).length ≤ (bs i).size - 1) ∧
      (∀ req, (machine ι (depth + 1)).may bs req →
        ∃ out bs', (machine ι (depth + 1)).step bs req = .ok (out, bs') ∧
          ∀ i len, req = .on i (.ensureWritableBytes len) →
            ∃ m, (bs' i).writableBytes = .ok m ∧ len ≤ m) ∧
      (∀ i op, (bs i).may op → ∀ l : Buffer, l.Valid → l.content = qs i →
        ∃ out b' l', (bs i).apply (depth + 1) op = .ok (out, b') ∧
          l.apply (op.linear l) = .ok (out, l') ∧ b'.content = l'.content.map some) := by
  have hinit : Refines (fun i : ι => initial (sizes i)) (fun _ => []) :=
    fun i => ⟨initial_valid (hsizes i), initial_content _⟩
  obtain ⟨qs, hrun, hrel⟩ := (circular_refinement depth ι).run h hinit
  have hrel : Refines bs qs := hrel
  refine ⟨fun i => new_eq (hsizes i), qs, hrun, fun i => ?_, fun req hm => ?_, fun i op hm l hl hq => ?_⟩
  · obtain ⟨hv, hc⟩ := hrel i
    have hread := readableBytes_eq hv
    have hfree := length_content_lt hv
    rw [(hrel i).length] at hread hfree
    exact ⟨hc, hv.reader, hv.writer, hread, hfree⟩
  · obtain ⟨out, bs', _, hstep, _⟩ := (circular_refinement depth ι).step bs qs req hrel hm
    refine ⟨out, bs', hstep, ?_⟩
    rintro i len rfl
    obtain ⟨b', hb, hv, hc, hroom⟩ := ensureWritableBytes_spec depth (hrel i).1 hm
    simp only [machine, CircularBuffer.apply, hb, ok_bind, pure_eq_ok, Except.ok.injEq,
      Prod.mk.injEq] at hstep
    rw [← hstep.2, Function.update_self]
    exact ⟨_, writableBytes_eq hv, hroom⟩
  · obtain ⟨out, b', q', hb, hh, hq'⟩ := (hrel i).apply depth hm
    obtain ⟨out', l', hl', -, hql⟩ := linear_agrees hl hm
    rw [hq, hq', Prod.mk.injEq] at hql
    obtain ⟨rfl, rfl⟩ := hql
    exact ⟨out, b', l', hb, hl', hh.2⟩

/-- Four bytes of room: the content goes round the end, is copied there, and the copy makes
room for six bytes more. -/
theorem circularBuffer_refines_queue_round : ∃ tr bs qs,
    (machine Bool 1).Run (fun _ => initial 4) tr bs ∧
    (Queue.copying Bool UInt8).Run (fun _ => []) ((circular_refinement 0 Bool).trace tr) qs ∧
    (∀ i, (bs i).content = (qs i).map some) ∧
    (bs true).readerIndex = 2 ∧ (bs true).writerIndex = 1 ∧
    (bs true).content = [some 3, some 4, some 5, some 6] ∧ (bs false).size = 21 := by
  obtain ⟨tr, bs, h, -, hend⟩ := (machine Bool 1).exists_run_of_replay (s := fun _ => initial 4)
    (P := fun _ bs => (bs true).readerIndex = 2 ∧ (bs true).writerIndex = 1 ∧
      (bs true).content = [some 3, some 4, some 5, some 6] ∧ (bs false).size = 21)
    [.on true (.append [1, 2, 3] 3), .on true (.retrieve 2), .on true (.appendString [4, 5, 6]),
      .copy false true, .on false (.appendString [7, 8, 9, 10, 11, 12])] (by decide +kernel)
  obtain ⟨-, qs, hrun, hheld, -⟩ := circularBuffer_refines_queue 0 (fun _ => 4) (by decide) h
  exact ⟨tr, bs, qs, h, hrun, fun i => (hheld i).1, hend⟩

end Family
end CircularBuffer
end Leanet

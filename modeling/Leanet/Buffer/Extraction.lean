import Leanet.Buffer.CircularQueue

/-! Taking some of the bytes out of a circular buffer.

`retrieveAsString(len)` hands out the whole content and drops `len` bytes of it, so it takes what
it hands out only where `len` is all there is (`extracts_iff`, for any capacity). Bytes left behind
are handed out again: what has been handed out and what is left are together what came in exactly
if every call has asked for everything (`account_iff`). -/
namespace Leanet.CircularBuffer
open Bytes (slice)

/-- An operation, or a partial extraction. -/
inductive Demand where
  | op (op : Op)
  | retrieveAsString (len : Nat)

def mayDemand (b : CircularBuffer) : Demand → Prop
  | .op op => b.may op
  | .retrieveAsString _ => True

instance (b : CircularBuffer) : (d : Demand) → Decidable (b.mayDemand d)
  | .op op => inferInstanceAs (Decidable (b.may op))
  | .retrieveAsString _ => inferInstanceAs (Decidable True)

def answer (depth : Nat) (b : CircularBuffer) :
    Demand → Except Stop (Option (List UInt8) × CircularBuffer)
  | .op op => b.apply depth op
  | .retrieveAsString len => do
    let (str, b) ← b.retrieveAsString len
    pure (some str, b)

/-- `retrieveAsString(len)` hands out the first `len` bytes, or all if there are fewer, and leaves
the others. -/
def Extracts (b : CircularBuffer) (len : Nat) : Prop :=
  ∃ str b', b.retrieveAsString len = .ok (str, b') ∧ str.map some = b.content.take len ∧
    b'.content = b.content.drop len

/-- The indices are in the array. -/
structure InArray (b : CircularBuffer) : Prop where
  length : b.buffer.length = b.size
  reader : b.readerIndex < b.size
  writer : b.writerIndex < b.size

theorem Valid.inArray {b : CircularBuffer} (h : b.Valid) : b.InArray := ⟨h.length, h.reader, h.writer⟩

variable {b b' : CircularBuffer} {q : List UInt8} {len : Nat}

/-! ### One extraction -/

/-- Nothing is readable exactly where the reader has caught up. -/
theorem InArray.content_eq_nil (h : b.InArray) :
    b.content = [] ↔ b.readerIndex = b.writerIndex := by
  obtain ⟨hlen, hr, hw⟩ := h
  unfold content
  constructor
  · intro hnil
    have hzero := congrArg List.length hnil
    split at hzero
    · rw [Bytes.length_slice _ _ _ (by omega), List.length_nil] at hzero
      omega
    · rw [List.length_append, Bytes.length_slice _ _ _ (by omega), List.length_nil] at hzero
      omega
  · intro heq
    rw [if_pos (by omega), heq, Bytes.slice_self]

theorem InArray.readAhead (h : b.InArray) (len : Nat) : (b.readAhead len).InArray :=
  ⟨h.length, Nat.mod_lt _ (Nat.zero_lt_of_lt h.reader), h.writer⟩

/-- A string of cells is what was written into them. -/
theorem string_eq_ok {cells : List Cell} {str : List UInt8} (h : string cells = .ok str) :
    cells = str.map some := by
  induction cells generalizing str with
  | nil =>
    cases h
    rfl
  | cons cell cells ih =>
    obtain ⟨c, hc, h⟩ := bind_eq_ok.mp h
    obtain ⟨cs, hcs, h⟩ := bind_eq_ok.mp h
    cases h
    rw [deref_eq_ok.mp hc, ih hcs, List.map_cons]

/-- The string is made of the content, whatever `len` says. -/
theorem retrieveAsString_eq (b : CircularBuffer) (len : Nat) :
    b.retrieveAsString len = b.readableBytes >>= fun readable => string b.content >>= fun str =>
      b.retrieve (min readable len) >>= fun b => pure (str, b) := by
  unfold retrieveAsString content
  congr 1
  funext readable
  by_cases hrw : b.readerIndex ≤ b.writerIndex
  · rw [if_pos hrw, if_neg (by simpa [needRewind] using hrw)]
  · rw [if_neg hrw, if_pos (by simpa [needRewind] using hrw)]

theorem retrieveAsString_eq_ok {str : List UInt8} :
    b.retrieveAsString len = .ok (str, b') ↔ ∃ readable, b.readableBytes = .ok readable ∧
      string b.content = .ok str ∧ b.retrieve (min readable len) = .ok b' := by
  rw [retrieveAsString_eq]
  constructor
  · intro h
    obtain ⟨readable, hread, h⟩ := bind_eq_ok.mp h
    obtain ⟨s, hs, h⟩ := bind_eq_ok.mp h
    obtain ⟨c, hc, h⟩ := bind_eq_ok.mp h
    cases h
    exact ⟨readable, hread, hs, hc⟩
  · rintro ⟨readable, hread, hs, hc⟩
    rw [hread, ok_bind, hs, ok_bind, hc, ok_bind, pure_eq_ok]

theorem retrieve_eq {readable : Nat} (h : b.readableBytes = .ok readable) (n : Nat) :
    b.retrieve n = .ok (if n < readable then b.readAhead n else b.retrieveAll) := by
  rw [retrieve, h, ok_bind]
  split <;> rfl

/-- **When an extraction takes what it hands out**: the content has been written, `len` is at least
all of it, and the reader, if `readableBytes` moves it by `len`, catches up with the writer. This
is for every capacity, an `int`'s or not. -/
theorem extracts_iff (h : b.InArray) (len : Nat) : b.Extracts len ↔
    (∃ q : List UInt8, b.content = q.map some) ∧ b.content.length ≤ len ∧
      ∃ readable, b.readableBytes = .ok readable ∧
        (len < readable → (b.readAhead len).readerIndex = b.writerIndex) := by
  constructor
  · rintro ⟨str, b', hret, hstr, hrest⟩
    obtain ⟨readable, hread, hs, hb⟩ := retrieveAsString_eq_ok.mp hret
    have hcontent := string_eq_ok hs
    have hall : b.content.length ≤ len := by
      have hlen := congrArg List.length (hcontent.trans hstr)
      rw [List.length_take] at hlen
      omega
    refine ⟨⟨str, hcontent⟩, hall, readable, hread, fun hlt => ?_⟩
    rw [retrieve_eq hread, if_pos (by omega), Nat.min_eq_right (Nat.le_of_lt hlt)] at hb
    rw [← Except.ok.inj hb, List.drop_eq_nil_of_le hall] at hrest
    exact (h.readAhead len).content_eq_nil.mp hrest
  · rintro ⟨⟨q, hq⟩, hall, readable, hread, hmove⟩
    have hs : string b.content = .ok q := by rw [hq, string_map_some]
    refine ⟨q, _, retrieveAsString_eq_ok.mpr ⟨readable, hread, hs, retrieve_eq hread _⟩, ?_, ?_⟩
    · rw [List.take_of_length_le hall, hq]
    · rw [List.drop_eq_nil_of_le hall]
      by_cases hlt : len < readable
      · rw [if_pos (by omega), Nat.min_eq_right (Nat.le_of_lt hlt)]
        exact (h.readAhead len).content_eq_nil.mpr (hmove hlt)
      · rw [if_neg (by omega)]
        exact retrieveAll_content b

/-- Below `INT_MAX` only the length counts. -/
theorem Holds.extracts_iff (h : b.Holds q) (len : Nat) : b.Extracts len ↔ q.length ≤ len := by
  rw [CircularBuffer.extracts_iff h.1.inArray, h.length]
  refine ⟨fun hext => hext.2.1, fun hall => ⟨⟨q, h.2⟩, hall, q.length, ?_, fun hlt => ?_⟩⟩
  · rw [readableBytes_eq h.1, h.length]
  · omega

/-! ### Any demands -/

variable {depth : Nat} {d : Demand} {out : Option (List UInt8)}

/-- What a demand answers and leaves. -/
theorem Holds.answer (depth : Nat) (h : b.Holds q) (hm : b.mayDemand d) :
    ∃ out b' q', b.answer (depth + 1) d = .ok (out, b') ∧ b'.Holds q' ∧
      (∀ op, d = .op op → Queue.apply q op.abstract = (out, q')) ∧
      ∀ len, d = .retrieveAsString len → out = some q ∧ q' = q.drop len := by
  cases d with
  | op op =>
    obtain ⟨out, b', q', hb, hh, hq⟩ := h.apply depth hm
    exact ⟨out, b', q', hb, hh, fun op' heq => by cases heq; exact hq, nofun⟩
  | retrieveAsString len =>
    obtain ⟨b', hb, hv, hc⟩ := retrieveAsString_spec h.1 h.2 len
    refine ⟨some q, b', q.drop len, ?_, ⟨hv, hc⟩, nofun, fun len' heq => by cases heq; exact ⟨rfl, rfl⟩⟩
    rw [CircularBuffer.answer, hb]
    rfl

section Family
variable {ι : Type} [DecidableEq ι]

/-- A family of buffers, as before, that may also be asked for some of the bytes. -/
def extracting (ι : Type) [DecidableEq ι] (depth : Nat) :
    Machine (ι → CircularBuffer) (CopyRequest ι Demand) (Option (List UInt8)) Stop where
  may bs
    | .on i d => (bs i).mayDemand d
    | .swap _ _ | .assign _ _ | .copy _ _ => True
  step bs
    | .on i d => do
      let (out, b) ← (bs i).answer depth d
      pure (out, Function.update bs i b)
    | .swap i j => (machine ι depth).step bs (.swap i j)
    | .assign i j => (machine ι depth).step bs (.assign i j)
    | .copy i j => (machine ι depth).step bs (.copy i j)

instance (bs : ι → CircularBuffer) :
    (req : CopyRequest ι Demand) → Decidable ((extracting ι depth).may bs req)
  | .on i d => inferInstanceAs (Decidable ((bs i).mayDemand d))
  | .swap _ _ | .assign _ _ | .copy _ _ => inferInstanceAs (Decidable True)

/-- Every buffer goes on holding written bytes, between indices in its array. -/
theorem extracting_inductive :
    (extracting ι (depth + 1)).Inductive fun bs => ∃ qs, Refines bs qs := by
  intro bs req ⟨qs, hrel⟩ hm
  have hpass (req : CopyRequest ι Op) (hm : (machine ι (depth + 1)).may bs req) :
      ∃ o bs', (machine ι (depth + 1)).step bs req = .ok (o, bs') ∧ ∃ qs', Refines bs' qs' := by
    obtain ⟨o, bs', qs', hs, -, -, hrel'⟩ := (circular_refinement depth ι).step bs qs req hrel hm
    exact ⟨o, bs', hs, qs', hrel'⟩
  cases req with
  | on i d =>
    obtain ⟨out, b', q', hb, hh, -⟩ := (hrel i).answer depth hm
    refine ⟨out, Function.update bs i b', ?_, _, hrel.update i hh⟩
    simp only [extracting, hb, ok_bind, pure_eq_ok]
  | swap i j => exact hpass (.swap i j) trivial
  | assign i j => exact hpass (.assign i j) trivial
  | copy i j => exact hpass (.copy i j) trivial

end Family

/-! ### The account -/

/-- Nothing is dropped that has not been handed out. -/
def Streams : Demand → Prop
  | .op (.retrieve _) | .op .retrieveAll => False
  | _ => True

/-- One buffer that is written to and read from. -/
def stream (depth : Nat) : Machine CircularBuffer Demand (Option (List UInt8)) Stop where
  may b d := b.mayDemand d ∧ Streams d
  step := answer depth

/-- The bytes a demand brings. -/
def brings : Demand → List UInt8
  | .op (.append data len) | .op (.appendVoid data len) => data.take len
  | .op (.appendView view) => view.data.take view.length
  | .op (.appendString str) => str
  | _ => []

def appended (tr : List (Demand × Option (List UInt8))) : List UInt8 :=
  tr.flatMap fun e => brings e.1

def delivered (tr : List (Demand × Option (List UInt8))) : List UInt8 :=
  tr.flatMap fun e => e.2.getD []

/-- The demand asks for all there is, if it is for some of the bytes. -/
def Whole (b : CircularBuffer) : Demand → Prop
  | .op _ => True
  | .retrieveAsString len => b.content.length ≤ len

/-- A demand for everything keeps the account, any other hands out too much. -/
theorem account_step (h : b.Holds q) (hm : (stream (depth + 1)).may b d)
    (hs : b.answer (depth + 1) d = .ok (out, b')) : ∃ q', b'.Holds q' ∧
      (Whole b d ∧ out.getD [] ++ q' = q ++ brings d ∨
        ¬ Whole b d ∧ (q ++ brings d).length < (out.getD [] ++ q').length) := by
  obtain ⟨hm, hstreams⟩ := hm
  obtain ⟨out', c, q', hb, hh, hop, hstring⟩ := h.answer depth hm
  obtain ⟨rfl, rfl⟩ := Prod.mk.inj (Except.ok.inj (hs.symm.trans hb))
  refine ⟨q', hh, ?_⟩
  cases d with
  | op op =>
    refine .inl ⟨trivial, ?_⟩
    have hq := hop op rfl
    cases op with
    | append | appendVoid | appendView | appendString | ensureWritableBytes | retrieveAllAsString =>
      cases hq
      simp [brings]
    | retrieve | retrieveAll => exact hstreams.elim
  | retrieveAsString len =>
    obtain ⟨rfl, rfl⟩ := hstring len rfl
    simp only [Whole, h.length, brings, Option.getD_some, List.append_nil, List.length_append,
      List.length_drop]
    by_cases hall : q.length ≤ len
    · exact .inl ⟨hall, by rw [List.drop_eq_nil_of_le hall, List.append_nil]⟩
    · exact .inr ⟨hall, by omega⟩

/-- **What has been handed out and what is left are what was there and what came in, exactly if
every call has asked for everything.** -/
theorem account_iff {tr : List (Demand × Option (List UInt8))}
    (hrun : (stream (depth + 1)).Run b tr b') (h : b.Holds q) : ∃ q', b'.Holds q' ∧
      (delivered tr ++ q' = q ++ appended tr ↔ ((stream (depth + 1)).only Whole).Run b tr b') := by
  suffices ∃ q', b'.Holds q' ∧
      (((stream (depth + 1)).only Whole).Run b tr b' ∧ delivered tr ++ q' = q ++ appended tr ∨
        ¬ ((stream (depth + 1)).only Whole).Run b tr b' ∧
          (q ++ appended tr).length < (delivered tr ++ q').length) by
    obtain ⟨q', hh, ⟨honly, heq⟩ | ⟨hnot, hlt⟩⟩ := this
    · exact ⟨q', hh, iff_of_true heq honly⟩
    · exact ⟨q', hh, iff_of_false (fun heq => by rw [heq] at hlt; omega) hnot⟩
  induction hrun generalizing q with
  | nil b => exact ⟨q, h, .inl ⟨.nil b, by simp [delivered, appended]⟩⟩
  | @cons b c b' d out tr hm hs hrest ih =>
    obtain ⟨q₁, hh₁, hstep⟩ := account_step h hm hs
    obtain ⟨q₂, hh₂, hrun⟩ := ih hh₁
    have hdelivered : delivered ((d, out) :: tr) = out.getD [] ++ delivered tr := List.flatMap_cons
    have happended : appended ((d, out) :: tr) = brings d ++ appended tr := List.flatMap_cons
    refine ⟨q₂, hh₂, ?_⟩
    rw [Machine.run_cons_iff (m := (stream (depth + 1)).only Whole) hs, hdelivered, happended]
    simp only [List.length_append] at hstep hrun ⊢
    obtain ⟨hwhole, heq⟩ | ⟨hnot, hlt⟩ := hstep
    · obtain ⟨honly, heq'⟩ | ⟨hnot', hlt'⟩ := hrun
      · refine .inl ⟨⟨⟨hm, hwhole⟩, honly⟩, ?_⟩
        rw [List.append_assoc, heq', ← List.append_assoc, heq, List.append_assoc]
      · have hlen := congrArg List.length heq
        simp only [List.length_append] at hlen
        exact .inr ⟨fun hall => hnot' hall.2, by omega⟩
    · refine .inr ⟨fun hall => hnot hall.1.2, ?_⟩
      obtain ⟨-, heq'⟩ | ⟨-, hlt'⟩ := hrun
      · have hlen := congrArg List.length heq'
        simp only [List.length_append] at hlen
        omega
      · omega

/-- **`retrieveAsString(len)` is a partial extraction exactly where `len` is all there is.** In
every state that a family of buffers can reach, and for every `len`; and from there on one buffer
gives back what came in, each byte once, exactly if every call asks for everything. -/
theorem partial_extraction {ι : Type} [DecidableEq ι] (depth : Nat) {sizes : ι → Nat}
    (hsizes : ∀ i, sizes i < 2147483647) {tr : List (CopyRequest ι Demand × Option (List UInt8))}
    {bs : ι → CircularBuffer}
    (h : (extracting ι (depth + 1)).Run (fun i => initial (sizes i)) tr bs) (i : ι) :
    (∀ len, (bs i).Extracts len ↔ (bs i).content.length ≤ len) ∧
    ∀ tr' b, (stream (depth + 1)).Run (bs i) tr' b →
      ((delivered tr').map some ++ b.content = (bs i).content ++ (appended tr').map some ↔
        ((stream (depth + 1)).only Whole).Run (bs i) tr' b) := by
  obtain ⟨qs, hrel⟩ := extracting_inductive.run h
    ⟨fun _ => [], fun i => ⟨initial_valid (hsizes i), initial_content _⟩⟩
  have hh : (bs i).Holds (qs i) := hrel i
  refine ⟨fun len => by rw [hh.length]; exact hh.extracts_iff len, fun tr' b hrun => ?_⟩
  obtain ⟨q', hh', hiff⟩ := account_iff hrun hh
  rw [← hiff, hh.2, hh'.2, ← List.map_append, ← List.map_append]
  exact (List.map_injective_iff.mpr fun _ _ h => Option.some.inj h).eq_iff

/-- Three bytes, and more asked for; then two, one of them asked for. -/
theorem partial_extraction_whole : ∃ tr bs,
    (extracting Unit 1).Run (fun _ => initial 4) tr bs ∧ (bs ()).content = [some 1, some 2, some 3] ∧
      (bs ()).Extracts 7 ∧ ¬ (bs ()).Extracts 1 := by
  obtain ⟨tr, bs, h, -, hcontent⟩ := (extracting Unit 1).exists_run_of_replay (s := fun _ => initial 4)
    (P := fun _ bs => (bs ()).content = [some 1, some 2, some 3])
    [.on () (.op (.append [1, 2, 3] 3))] (by decide +kernel)
  obtain ⟨hiff, -⟩ := partial_extraction 0 (fun _ => by decide) h ()
  refine ⟨tr, bs, h, hcontent, (hiff 7).mpr ?_, mt (hiff 1).mp ?_⟩ <;> rw [hcontent] <;> decide

/-- One byte of three is asked for: all three are handed out, and two of them again. -/
theorem partial_extraction_twice : ∃ tr bs b b',
    (extracting Unit 1).Run (fun _ => initial 4) tr bs ∧ (bs ()).content = [some 1, some 2, some 3] ∧
      (bs ()).retrieveAsString 1 = .ok ([1, 2, 3], b) ∧ b.retrieveAsString 1 = .ok ([2, 3], b') ∧
      ¬ (bs ()).Extracts 1 := by
  obtain ⟨tr, bs, h, -, hbs⟩ := (extracting Unit 1).exists_run_of_replay (s := fun _ => initial 4)
    (P := fun _ bs => bs () = ⟨5, [some 1, some 2, some 3, none, none], 3, 0⟩)
    [.on () (.op (.append [1, 2, 3] 3))] (by decide +kernel)
  have hfirst : (bs ()).retrieveAsString 1 =
      .ok ([1, 2, 3], ⟨5, [some 1, some 2, some 3, none, none], 3, 1⟩) := by
    rw [hbs]
    rfl
  refine ⟨tr, bs, _, _, h, by rw [hbs]; rfl, hfirst, rfl, ?_⟩
  rintro ⟨str, b', hret, hstr, -⟩
  obtain ⟨rfl, -⟩ := Prod.mk.inj (Except.ok.inj (hfirst.symm.trans hret))
  rw [hbs] at hstr
  exact absurd hstr (by decide)

end Leanet.CircularBuffer

import Leanet.Tcp.Calls

/-! The high water mark.

`sendInLoop` compares what it is about to buffer with `highWaterMark_` and then asks whether the
mark is zero, not whether there is a callback. The mark is 64 MiB from the constructor on, the
callback empty until it is set. So a connection that nobody has configured queues an empty
function when that much is pending; everything else about the mark is right
(`high_water_mark`). -/
namespace Leanet.TcpConnection

variable {c c' : TcpConnection} {l : Call} {data : List UInt8} {len sockfd : Nat}
  {write : Transfer} {e : List Effect} {tr : List (Call × List Effect)}

/-- The callback and the argument that are bound and queued. -/
def Effect.mark : Effect → Option (Bool × Nat)
  | .queueHighWaterMark callback size => some (callback, size)
  | _ => none

/-- What a step owes the application: the callback once, with the new size, exactly where a send
takes the queue to the mark; and nothing empty on the loop. -/
structure MarkLaw (c : TcpConnection) (l : Call) (e : List Effect) (c' : TcpConnection) : Prop where
  queued : ∀ size, .queueHighWaterMark true size ∈ e ↔
    (∃ data len write, l = .output (.sendInLoop data len write)) ∧
    c.highWaterMarkCallback = true ∧ c.highWaterMark ≠ 0 ∧
    c.outputBuffer.readableBytes < c.highWaterMark ∧
    c.highWaterMark ≤ c'.outputBuffer.readableBytes ∧ size = c'.outputBuffer.readableBytes
  once : (e.filterMap Effect.mark).length ≤ 1
  bound : ∀ size, .queueHighWaterMark false size ∉ e
  complete : .queueWriteComplete ∈ e → c.writeCompleteCallback = true

/-- What a send leaves to the output queue. -/
def unwritten (c : TcpConnection) (len : Nat) (write : Transfer) : Nat :=
  if c.channel.isWriting = false ∧ c.outputBuffer.readableBytes = 0 then
    match write with
    | .ok n => len - n
    | .error _ => if c.Drops write then 0 else len
  else len

/-- The call takes what is pending from below the mark to it or past it. -/
def Crosses (c : TcpConnection) : Call → Prop
  | .output (.sendInLoop _ len write) => c.outputBuffer.readableBytes < c.highWaterMark ∧
    c.highWaterMark ≤ c.outputBuffer.readableBytes + c.unwritten len write
  | _ => False

/-- There is a callback wherever it is going to be queued. -/
def Bound (c : TcpConnection) (l : Call) : Prop := Crosses c l → c.highWaterMarkCallback = true

instance (c : TcpConnection) : (l : Call) → Decidable (Crosses c l)
  | .output (.sendInLoop ..) => inferInstanceAs (Decidable (_ ∧ _))
  | .output (.handleWrite _) | .output .shutdown | .output .shutdownInLoop
  | .output (.setWriteCompleteCallback _) | .output (.setHighWaterMarkCallback ..)
  | .connectEstablished | .handleRead _ | .handleClose | .handleError | .connectDestroyed
  | .setCloseCallback _ => inferInstanceAs (Decidable False)

instance (c : TcpConnection) (l : Call) : Decidable (Bound c l) :=
  inferInstanceAs (Decidable (_ → _))

/-! ### One send -/

theorem remaining_eq (data : List UInt8) (hkept : ¬ c.Drops write) :
    (c.writeDirect data len write).remaining = c.unwritten len write := by
  simp only [writeDirect, unwritten, if_neg hkept, Bool.not_eq_true']
  split
  · cases write with
    | ok n => rfl
    | error failure => rfl
  · rfl

theorem unwritten_drops (hdrop : c.Drops write) : c.unwritten len write = 0 := by
  cases write with
  | ok n => exact hdrop.elim
  | error failure =>
    rw [unwritten, if_pos hdrop.1]
    exact if_pos hdrop

theorem writeDirect_marks (c : TcpConnection) (data : List UInt8) (len : Nat) (write : Transfer) :
    (c.writeDirect data len write).effects.filterMap Effect.mark = [] ∧
      (.queueWriteComplete ∈ (c.writeDirect data len write).effects →
        c.writeCompleteCallback = true) := by
  unfold writeDirect
  split
  · cases write with
    | ok n =>
      by_cases hall : len - n = 0 ∧ c.writeCompleteCallback = true
      · simp [hall, Effect.mark]
      · simp [hall, Effect.mark]
    | error failure => simp [Effect.mark]
  · simp

theorem appendRemaining_marks {nwrote remaining : Nat} {queued : List Effect}
    (h : c.appendRemaining data nwrote remaining = .ok (queued, c')) :
    c.outputBuffer.append (data.drop nwrote) remaining = .ok c'.outputBuffer ∧
    queued = if c.highWaterMark ≤ c.outputBuffer.readableBytes + remaining ∧
        c.outputBuffer.readableBytes < c.highWaterMark ∧ c.highWaterMark ≠ 0 then
      [.queueHighWaterMark c.highWaterMarkCallback (c.outputBuffer.readableBytes + remaining)]
    else [] := by
  obtain ⟨b, hb, h⟩ := bind_eq_ok.mp h
  obtain ⟨hqueued, hconn⟩ := Prod.mk.inj (Except.ok.inj h)
  refine ⟨?_, hqueued.symm⟩
  rw [hb, ← hconn]
  split <;> rfl

/-- The test as the code makes it: what is queued, and the new size. -/
theorem sendInLoop_marks (hv : c.outputBuffer.Valid) (hlen : len ≤ data.length)
    (hle : ∀ n, write = .ok n → n ≤ len) (hs : c.sendInLoop data len write = .ok (e, c')) :
    c'.outputBuffer.readableBytes = c.outputBuffer.readableBytes + c.unwritten len write ∧
    e.filterMap Effect.mark =
      (if c.outputBuffer.readableBytes < c.highWaterMark ∧
          c.highWaterMark ≤ c.outputBuffer.readableBytes + c.unwritten len write then
        [(c.highWaterMarkCallback, c.outputBuffer.readableBytes + c.unwritten len write)] else []) ∧
    (.queueWriteComplete ∈ e → c.writeCompleteCallback = true) := by
  by_cases hdrop : c.Drops write
  · obtain ⟨failure, -, hrun⟩ := sendInLoop_drops data len hdrop
    cases hs.symm.trans hrun
    rw [unwritten_drops hdrop, if_neg (by omega)]
    simp [Effect.mark]
  have hfault := mt (faultError_iff c data len write).mp hdrop
  obtain ⟨hsplit, -⟩ := writeDirect_bytes data hv hle
  obtain ⟨hmarks, hcomplete⟩ := writeDirect_marks c data len write
  rw [← remaining_eq data hdrop]
  simp only [sendInLoop] at hs
  generalize c.writeDirect data len write = d at hfault hsplit hmarks hcomplete hs ⊢
  rw [assert_holds (show d.remaining ≤ len by omega), ok_bind] at hs
  by_cases hrest : 0 < d.remaining
  · rw [if_pos (by simp [hfault, hrest])] at hs
    obtain ⟨⟨queued, c''⟩, happend, hs⟩ := bind_eq_ok.mp hs
    cases hs
    obtain ⟨happended, rfl⟩ := appendRemaining_marks happend
    obtain ⟨b, hb, hvalid, hcontent⟩ := Buffer.append_spec hv
      (show d.remaining ≤ (data.drop d.nwrote).length by rw [List.length_drop]; omega)
    obtain rfl := Except.ok.inj (happended.symm.trans hb)
    have hpast : (c.highWaterMark ≤ c.outputBuffer.readableBytes + d.remaining ∧
        c.outputBuffer.readableBytes < c.highWaterMark ∧ c.highWaterMark ≠ 0) ↔
        c.outputBuffer.readableBytes < c.highWaterMark ∧
          c.highWaterMark ≤ c.outputBuffer.readableBytes + d.remaining := by omega
    refine ⟨?_, ?_, fun hx => hcomplete ((List.mem_append.mp hx).resolve_right fun hx => ?_)⟩
    · rw [← Buffer.length_content hvalid, hcontent, List.length_append, List.length_take,
        List.length_drop, Buffer.length_content hv]
      omega
    · rw [List.filterMap_append, hmarks, List.nil_append]
      simp only [hpast]
      split <;> rfl
    · split at hx
      · cases List.mem_singleton.mp hx
      · cases hx
  · rw [if_neg (by simp [hrest])] at hs
    cases hs
    rw [if_neg (by omega)]
    exact ⟨by omega, hmarks, hcomplete⟩

theorem mem_marks {callback : Bool} {size : Nat} :
    .queueHighWaterMark callback size ∈ e ↔ (callback, size) ∈ e.filterMap Effect.mark := by
  rw [List.mem_filterMap]
  constructor
  · exact fun hx => ⟨_, hx, rfl⟩
  · rintro ⟨x, hx, hmark⟩
    cases x <;> cases hmark
    exact hx

theorem sendInLoop_law_iff (hv : c.outputBuffer.Valid) (hlen : len ≤ data.length)
    (hle : ∀ n, write = .ok n → n ≤ len) (hs : c.sendInLoop data len write = .ok (e, c')) :
    MarkLaw c (.output (.sendInLoop data len write)) e c' ↔
      Bound c (.output (.sendInLoop data len write)) := by
  obtain ⟨hsize, hmarks, hcomplete⟩ := sendInLoop_marks hv hlen hle hs
  rw [← hsize] at hmarks
  have hcrosses : Crosses c (.output (.sendInLoop data len write)) ↔
      c.outputBuffer.readableBytes < c.highWaterMark ∧
        c.highWaterMark ≤ c'.outputBuffer.readableBytes := by rw [hsize]; rfl
  rw [Bound, hcrosses]
  constructor
  · intro hlaw hpast
    rw [if_pos hpast] at hmarks
    by_contra hunset
    rw [Bool.not_eq_true] at hunset
    rw [hunset] at hmarks
    exact hlaw.bound _ (mem_marks.mpr (by rw [hmarks]; exact List.mem_singleton_self _))
  · intro hbound
    by_cases hpast : c.outputBuffer.readableBytes < c.highWaterMark ∧
        c.highWaterMark ≤ c'.outputBuffer.readableBytes
    · rw [if_pos hpast, hbound hpast] at hmarks
      refine ⟨fun size => ?_, by simp [hmarks], fun size => ?_, hcomplete⟩
      · rw [mem_marks, hmarks, List.mem_singleton, Prod.mk.injEq]
        exact ⟨fun h => ⟨⟨_, _, _, rfl⟩, hbound hpast, by omega, hpast.1, hpast.2, h.2⟩,
          fun h => ⟨rfl, h.2.2.2.2.2⟩⟩
      · rw [mem_marks, hmarks]
        simp
    · rw [if_neg hpast] at hmarks
      refine ⟨fun size => ?_, by simp [hmarks], fun size => ?_, hcomplete⟩
      · rw [mem_marks, hmarks]
        exact iff_of_false List.not_mem_nil fun h => hpast ⟨h.2.2.2.1, h.2.2.2.2.1⟩
      · rw [mem_marks, hmarks]
        exact List.not_mem_nil

/-! ### The other calls -/

/-- Elsewhere nothing reaches the mark, and the law is kept. -/
theorem law_of_quiet (hl : ∀ data len write, l ≠ .output (.sendInLoop data len write))
    (hmarks : e.filterMap Effect.mark = [])
    (hcomplete : .queueWriteComplete ∈ e → c.writeCompleteCallback = true) :
    MarkLaw c l e c' ↔ Bound c l := by
  refine iff_of_true ⟨fun size => ?_, by simp [hmarks], fun size => ?_, hcomplete⟩ ?_
  · rw [mem_marks, hmarks]
    refine iff_of_false List.not_mem_nil ?_
    rintro ⟨⟨data, len, write, rfl⟩, -⟩
    exact hl data len write rfl
  · rw [mem_marks, hmarks]
    exact List.not_mem_nil
  · intro hcross
    cases l with
    | output l =>
      cases l with
      | sendInLoop data len write => exact absurd rfl (hl data len write)
      | handleWrite | shutdown | shutdownInLoop | setWriteCompleteCallback
      | setHighWaterMarkCallback => cases hcross
    | connectEstablished | handleRead | handleClose | handleError | connectDestroyed
    | setCloseCallback => cases hcross

theorem handleWrite_marks (hv : c.outputBuffer.Valid)
    (hle : ∀ n, write = .ok n → n ≤ c.outputBuffer.readableBytes)
    (hs : c.handleWrite write = .ok (e, c')) :
    e.filterMap Effect.mark = [] ∧ (.queueWriteComplete ∈ e → c.writeCompleteCallback = true) := by
  obtain ⟨r, hr, hspec⟩ := handleWrite_spec hv hle
  obtain rfl := Except.ok.inj (hr.symm.trans hs)
  cases hspec with
  | idle | failed | nothing | some => simp [Effect.mark]
  | all n b hvalid hnil =>
    by_cases hset : c.writeCompleteCallback = true <;>
      by_cases hs : c.state = .kDisconnecting <;> simp [hset, hs, Effect.mark]

theorem call_law_iff (h : Queued c) (hm : calls.may c l) (hs : calls.step c l = .ok (e, c')) :
    MarkLaw c l e c' ↔ Bound c l := by
  cases hl : l.writes with
  | false =>
    obtain ⟨-, -, heffects⟩ := callStep_passes hl hs
    refine law_of_quiet ?_ (List.filterMap_eq_nil_iff.mpr fun x hx => ?_) fun hx =>
      absurd trivial (heffects _ hx)
    · rintro data len write rfl
      cases hl
    · have hx := heffects x hx
      cases x <;> first | rfl | exact absurd trivial hx
  | true =>
    cases l with
    | output l =>
      cases l with
      | sendInLoop data len write => exact sendInLoop_law_iff h.valid hm.1 hm.2 hs
      | handleWrite write =>
        obtain ⟨hmarks, hcomplete⟩ := handleWrite_marks h.valid hm hs
        exact law_of_quiet (by simp) hmarks hcomplete
      | shutdown | shutdownInLoop | setWriteCompleteCallback | setHighWaterMarkCallback => cases hl
    | connectEstablished | handleRead | handleClose | handleError | connectDestroyed
    | setCloseCallback => cases hl

/-! ### Every run -/

/-- **The high water mark law holds of a run exactly if no send reaches the mark without a
callback.** -/
theorem high_water_mark (h : calls.Run (new sockfd) tr c) :
    (∀ tr₁ l e tr₂ u v, tr = tr₁ ++ (l, e) :: tr₂ → calls.Run (new sockfd) tr₁ u →
      calls.step u l = .ok (e, v) → MarkLaw u l e v) ↔
    (calls.only Bound).Run (new sockfd) tr c :=
  h.each_step_iff (queued_new sockfd) fun _ _ _ _ hq hm hs =>
    ⟨(call_step hq hm hs).1, call_law_iff hq hm hs⟩

/-- Two bytes and two more behind a blocked write, with a callback at three. -/
theorem high_water_mark_set : ∃ tr c, calls.Run (new 5) tr c ∧
    tr.map Prod.snd = [[.connectionCallback], [], [.wrote []], [.queueHighWaterMark true 4]] ∧
    ∀ tr₁ l e tr₂ u v, tr = tr₁ ++ (l, e) :: tr₂ → calls.Run (new 5) tr₁ u →
      calls.step u l = .ok (e, v) → MarkLaw u l e v := by
  obtain ⟨tr, c, h, -, heffects⟩ := (calls.only Bound).exists_run_of_replay (s := new 5)
    (P := fun tr _ => tr.map Prod.snd =
      [[.connectionCallback], [], [.wrote []], [.queueHighWaterMark true 4]])
    [.connectEstablished, .output (.setHighWaterMarkCallback true 3),
      .output (.sendInLoop [1, 2] 2 (.ok 0)), .output (.sendInLoop [3, 4] 2 (.ok 0))]
    (by decide +kernel)
  exact ⟨tr, c, h.of_only, heffects, (high_water_mark h.of_only).mpr h⟩

/-- Nobody has set a callback; 64 MiB meet a blocked write. -/
theorem high_water_mark_unset : ∃ e c',
    calls.Run (new 5) [(.connectEstablished, [.connectionCallback])] (established 5) ∧
    (established 5).sendInLoop (List.replicate (64 * 1024 * 1024) 0) (64 * 1024 * 1024)
      (.error ⟨.EWOULDBLOCK, .EWOULDBLOCK⟩) = .ok (e, c') ∧
    .queueHighWaterMark false (64 * 1024 * 1024) ∈ e ∧
    ¬ MarkLaw (established 5) (.output (.sendInLoop (List.replicate (64 * 1024 * 1024) 0)
      (64 * 1024 * 1024) (.error ⟨.EWOULDBLOCK, .EWOULDBLOCK⟩))) e c' := by
  have hlen := (List.length_replicate (n := 64 * 1024 * 1024) (a := (0 : UInt8)))
  generalize List.replicate (64 * 1024 * 1024) (0 : UInt8) = data at hlen ⊢
  have hv : (established 5).outputBuffer.Valid := (stream_established 5).valid
  have hmark : (established 5).highWaterMark = 64 * 1024 * 1024 := rfl
  have hsize : (established 5).outputBuffer.readableBytes = 0 := rfl
  have hleft (n : Nat) :
      (established 5).unwritten n (.error ⟨.EWOULDBLOCK, .EWOULDBLOCK⟩) = n := by
    simp [unwritten, Drops]
  have hfailed : ∀ n, (.error ⟨.EWOULDBLOCK, .EWOULDBLOCK⟩ : Transfer) = .ok n →
      n ≤ 64 * 1024 * 1024 :=
    fun n hn => by cases hn
  obtain ⟨⟨e, c'⟩, hs, -⟩ := sendInLoop_spec hv (Nat.le_of_eq hlen.symm) hfailed
  obtain ⟨-, hmarks, -⟩ := sendInLoop_marks hv (Nat.le_of_eq hlen.symm) hfailed hs
  rw [hleft, hsize, hmark, if_pos (by omega)] at hmarks
  have hqueued : .queueHighWaterMark false (64 * 1024 * 1024) ∈ e :=
    mem_marks.mpr (by rw [hmarks]; exact List.mem_singleton.mpr (by rw [Nat.zero_add]; rfl))
  exact ⟨e, c', .single trivial rfl, hs, hqueued, fun hlaw => hlaw.bound _ hqueued⟩

end Leanet.TcpConnection

import Leanet.Foundation.Machine
import Leanet.Tcp.Connection

/-! The output stream of a connection.

An established connection that is not being closed: whoever sends, however write(2)
splits what it is given, the bytes taken so far and the bytes still buffered are what
was sent. `Stream` is the invariant that lets the direct write and the buffered one share
the order: the channel waits for POLLOUT exactly while something is buffered, and nothing
is written directly then.

One send is lost in between. A blocked direct write is logged and `errno` is looked at
once more; where the output of the log has left `EPIPE` or `ECONNRESET` there, the message
is given up on a connection that is sound (`output_stream`). -/
namespace Leanet.TcpConnection

/-- The bytes a sequence of effects hands to the peer. -/
def taken (effects : List Effect) : List UInt8 := effects.flatMap Effect.taken

/-- A call on the loop thread of an open connection. -/
inductive Output where
  | sendInLoop (data : List UInt8) (len : Nat) (write : Transfer)
  | handleWrite (write : Transfer)
  | shutdown
  | shutdownInLoop
  | setWriteCompleteCallback (set : Bool)
  | setHighWaterMarkCallback (set : Bool) (highWaterMark : Nat)

/-- What write(2) may return: a count up to the length asked for, or an error other
than `EPIPE` and `ECONNRESET`. -/
def Returns (len : Nat) : Transfer → Prop
  | .ok n => n ≤ len
  | .error failure => failure.errno ≠ .EPIPE ∧ failure.errno ≠ .ECONNRESET

instance (len : Nat) : (write : Transfer) → Decidable (Returns len write)
  | .ok _ => inferInstanceAs (Decidable (_ ≤ _))
  | .error _ => inferInstanceAs (Decidable (_ ∧ _))

def outputMay (c : TcpConnection) : Output → Prop
  | .sendInLoop data len write => len ≤ data.length ∧ Returns len write
  | .handleWrite write => Returns c.outputBuffer.readableBytes write
  | _ => True

def outputStep (c : TcpConnection) : Output → Except Fault (List Effect × TcpConnection)
  | .sendInLoop data len write => c.sendInLoop data len write
  | .handleWrite write => c.handleWrite write
  | .shutdown => pure c.shutdown
  | .shutdownInLoop => pure c.shutdownInLoop
  | .setWriteCompleteCallback set => pure ([], { c with writeCompleteCallback := set })
  | .setHighWaterMarkCallback set mark =>
    pure ([], { c with highWaterMarkCallback := set, highWaterMark := mark })

def output : Machine TcpConnection Output (List Effect) Fault where
  may := outputMay
  step := outputStep

instance (c : TcpConnection) : (l : Output) → Decidable (output.may c l)
  | .sendInLoop .. => inferInstanceAs (Decidable (_ ∧ _))
  | .handleWrite write => inferInstanceAs (Decidable (Returns _ write))
  | .shutdown | .shutdownInLoop | .setWriteCompleteCallback _ | .setHighWaterMarkCallback .. =>
    inferInstanceAs (Decidable True)

/-- What a call sends. -/
def Output.data : Output → List UInt8
  | .sendInLoop data len _ => data.take len
  | _ => []

/-- What is left of it: nothing, where the message is given up. -/
def Output.kept (c : TcpConnection) : Output → List UInt8
  | .sendInLoop data len write => if c.Drops write then [] else data.take len
  | _ => []

/-- No message that has bytes is given up. -/
def Delivers (c : TcpConnection) : Output → Prop
  | .sendInLoop _ len write => c.Drops write → len = 0
  | _ => True

instance (c : TcpConnection) : (l : Output) → Decidable (Delivers c l)
  | .sendInLoop _ _ write => inferInstanceAs (Decidable (c.Drops write → _))
  | .handleWrite _ | .shutdown | .shutdownInLoop | .setWriteCompleteCallback _
  | .setHighWaterMarkCallback .. => inferInstanceAs (Decidable True)

/-- All data passed to `sendInLoop`, in call order. -/
def sent (tr : List (Output × List Effect)) : List UInt8 := tr.flatMap fun e => e.1.data

/-- The bytes write(2) has taken so far. -/
def accepted (tr : List (Output × List Effect)) : List UInt8 := tr.flatMap fun e => taken e.2

/-- After the constructor and `connectEstablished`. -/
def established (sockfd : Nat) : TcpConnection :=
  ((new sockfd).setState .kConnected).setInterest .enableReading

theorem connectEstablished_new (sockfd : Nat) :
    (new sockfd).connectEstablished = .ok ([.connectionCallback], established sockfd) := rfl

/-! ### One step -/

/-- The invariant. -/
structure Stream (c : TcpConnection) : Prop where
  valid : c.outputBuffer.Valid
  writing : c.channel.isWriting = true ↔ c.outputBuffer.content ≠ []

/-- What one call that sends `data` may do. -/
structure Sends (c : TcpConnection) (data : List UInt8) (e : List Effect) (c' : TcpConnection) :
    Prop where
  stream : Stream c'
  bytes : taken e ++ c'.outputBuffer.content = c.outputBuffer.content ++ data
  shutdown : .shutdownWrite ∈ e → c'.outputBuffer.content = []
  complete : .queueWriteComplete ∈ e ↔ c.writeCompleteCallback = true ∧
    (∃ bytes, .wrote bytes ∈ e) ∧ c'.outputBuffer.content = []
  once : e.count .queueWriteComplete ≤ 1

variable {c : TcpConnection} {data : List UInt8} {len : Nat} {write : Transfer}

theorem Returns.le (hw : Returns len write) : ∀ n, write = .ok n → n ≤ len := by
  rintro n rfl
  exact hw

theorem stream_established (sockfd : Nat) : Stream (established sockfd) := by
  refine ⟨Buffer.initial_valid _, ?_⟩
  rw [show (established sockfd).outputBuffer.content = [] from Buffer.initial_content _]
  simp [established, new, setState, setInterest, Channel.isWriting, Channel.setInterest,
    Channel.Interest.apply, Channel.new]
  decide

/-- Nothing buffered, as the code sees it. -/
theorem Stream.readable_eq_zero (h : Stream c) :
    c.outputBuffer.readableBytes = 0 ↔ c.outputBuffer.content = [] :=
  (Buffer.content_eq_nil h.valid).symm

theorem Stream.direct (h : Stream c) :
    (!c.channel.isWriting ∧ c.outputBuffer.readableBytes = 0) ↔ c.outputBuffer.content = [] := by
  rw [h.readable_eq_zero]
  have := h.writing
  cases hw : c.channel.isWriting <;> simp_all

theorem shutdownInLoop_sends (h : Stream c) :
    Sends c [] c.shutdownInLoop.1 c.shutdownInLoop.2 := by
  unfold shutdownInLoop
  cases hw : c.channel.isWriting with
  | true => exact ⟨h, by simp [taken], by simp, by simp, by simp⟩
  | false =>
    have hempty : c.outputBuffer.content = [] := by
      by_contra hne
      rw [h.writing.mpr hne] at hw
      cases hw
    exact ⟨h, by simp [taken, Effect.taken], fun _ => hempty, by simp, by simp⟩

theorem content_ne_nil_of_append {b : Buffer} {queue : List UInt8} {nwrote remaining : Nat}
    (hcontent : b.content = queue ++ (data.drop nwrote).take remaining) (hpos : 0 < remaining)
    (hdata : nwrote + remaining ≤ data.length) : b.content ≠ [] := by
  rw [hcontent]
  intro hnil
  have hlen := congrArg List.length (List.append_eq_nil_iff.mp hnil).2
  rw [List.length_take, List.length_drop, List.length_nil] at hlen
  omega

/-- Only the output queue is left: nothing was or could be written directly. -/
theorem appendRemaining_sends (h : Stream c) {e : List Effect} {nwrote remaining : Nat}
    (hdata : nwrote + remaining ≤ data.length) (hpos : 0 < remaining)
    (hbytes : taken e ++ c.outputBuffer.content = c.outputBuffer.content ++ data.take nwrote)
    (hshut : .shutdownWrite ∉ e) (hcomplete : .queueWriteComplete ∉ e) :
    ∃ queued c', c.appendRemaining data nwrote remaining = .ok (queued, c') ∧
      Sends c (data.take (nwrote + remaining)) (e ++ queued) c' := by
  obtain ⟨queued, b, hvalid, hcontent, hrun, hmark⟩ := appendRemaining_ok h.valid hdata
  have hne : b.content ≠ [] := content_ne_nil_of_append hcontent hpos hdata
  have hquiet : ∀ x ∈ e ++ queued, x ≠ .shutdownWrite ∧ x ≠ .queueWriteComplete := by
    intro x hx
    rcases List.mem_append.mp hx with hx | hx
    · exact ⟨fun hs => hshut (hs ▸ hx), fun hc => hcomplete (hc ▸ hx)⟩
    · obtain ⟨set, size, rfl⟩ := hmark x hx
      exact ⟨nofun, nofun⟩
  have htaken : taken queued = [] := by
    refine List.flatMap_eq_nil_iff.mpr fun x hx => ?_
    obtain ⟨set, size, rfl⟩ := hmark x hx
    rfl
  have hnever : .queueWriteComplete ∉ e ++ queued := fun hx => (hquiet _ hx).2 rfl
  have hkept : taken (e ++ queued) ++ b.content =
      c.outputBuffer.content ++ data.take (nwrote + remaining) := by
    rw [taken, List.flatMap_append, ← taken, ← taken, htaken, List.append_nil, hcontent,
      ← List.append_assoc, hbytes, List.append_assoc, List.take_add]
  have honce : (e ++ queued).count .queueWriteComplete ≤ 1 := by
    rw [List.count_eq_zero.mpr hnever]
    exact Nat.zero_le _
  refine ⟨queued, _, hrun, ?_⟩
  split
  · exact ⟨⟨hvalid, iff_of_true (Channel.isWriting_enableWriting _) hne⟩, hkept,
      fun hx => absurd rfl (hquiet _ hx).1, iff_of_false hnever fun ⟨_, _, hnil⟩ => hne hnil, honce⟩
  · next hw =>
    exact ⟨⟨hvalid, iff_of_true (by simpa using hw) hne⟩, hkept,
      fun hx => absurd rfl (hquiet _ hx).1, iff_of_false hnever fun ⟨_, _, hnil⟩ => hne hnil, honce⟩

/-- The effects of a successful write(2), with the completion callback if `p`. -/
theorem wrote_effects (bytes : List UInt8) (p : Prop) [Decidable p] :
    let e := Effect.wrote bytes :: if p then [Effect.queueWriteComplete] else []
    taken e = bytes ∧ .shutdownWrite ∉ e ∧ (.queueWriteComplete ∈ e ↔ p) ∧
      e.count .queueWriteComplete ≤ 1 ∧ ∃ bytes, .wrote bytes ∈ e := by
  by_cases hp : p <;> simp [hp, taken, Effect.taken]

/-! ### The bytes, whatever the state -/

theorem writeDirect_bytes (data : List UInt8) (hv : c.outputBuffer.Valid)
    (hle : ∀ n, write = .ok n → n ≤ len) :
    (c.writeDirect data len write).nwrote + (c.writeDirect data len write).remaining = len ∧
    taken (c.writeDirect data len write).effects ++ c.outputBuffer.content =
      c.outputBuffer.content ++ data.take (c.writeDirect data len write).nwrote := by
  unfold writeDirect
  split
  · next hdirect =>
    have hempty : c.outputBuffer.content = [] := (Buffer.content_eq_nil hv).mpr hdirect.2
    cases write with
    | ok n =>
      refine ⟨Nat.add_sub_of_le (hle n rfl), ?_⟩
      rw [hempty, (wrote_effects (data.take n) _).1, List.append_nil, List.nil_append]
    | error failure => exact ⟨Nat.zero_add _, by simp [taken, Effect.taken]⟩
  · exact ⟨Nat.zero_add _, by simp [taken]⟩

/-- A message that is given up has been handed to write(2) whole, and leaves the connection
as it was. -/
theorem sendInLoop_drops (data : List UInt8) (len : Nat) (hdrop : c.Drops write) :
    ∃ failure, write = .error failure ∧ c.sendInLoop data len write =
      .ok ([.writeFailed (data.take len) failure.errno], c) := by
  have hfault := (faultError_iff c data len write).mpr hdrop
  cases write with
  | ok n => exact hdrop.elim
  | error failure =>
    refine ⟨failure, rfl, ?_⟩
    have hdirect : (!c.channel.isWriting) = true ∧ c.outputBuffer.readableBytes = 0 := by
      simpa using hdrop.1
    simp only [writeDirect, if_pos hdirect] at hfault
    simp only [sendInLoop, writeDirect, if_pos hdirect]
    rw [hfault, assert_holds (Nat.le_refl len)]
    rfl

/-- Directly or by way of the output queue, the stream goes on by the data. -/
theorem sendInLoop_bytes {e : List Effect} {c' : TcpConnection} (hv : c.outputBuffer.Valid)
    (hlen : len ≤ data.length) (hle : ∀ n, write = .ok n → n ≤ len) (hkept : ¬ c.Drops write)
    (h : c.sendInLoop data len write = .ok (e, c')) :
    taken e ++ c'.outputBuffer.content = c.outputBuffer.content ++ data.take len := by
  obtain ⟨hsplit, hbytes⟩ := writeDirect_bytes data hv hle
  obtain ⟨r, hr, hspec⟩ := sendInLoop_spec hv hlen hle
  obtain rfl := Except.ok.inj (hr.symm.trans h)
  have hfault := mt (faultError_iff c data len write).mp hkept
  generalize c.writeDirect data len write = d at hfault hsplit hbytes hspec
  cases hspec with
  | direct hrest =>
    have hall : d.remaining = 0 := hrest.resolve_left (by simp [hfault])
    rw [hbytes, ← hsplit, hall, Nat.add_zero]
  | appended queued b hpos hvalid hcontent hmark =>
    have hqueued : taken queued = [] := by
      refine List.flatMap_eq_nil_iff.mpr fun x hx => ?_
      obtain ⟨set, size, rfl⟩ := hmark x hx
      rfl
    have hout : (if !c.channel.isWriting then
        ({ c with outputBuffer := b } : TcpConnection).setInterest .enableWriting
        else { c with outputBuffer := b }).outputBuffer = b := by
      split <;> rfl
    rw [hout, hcontent, taken, List.flatMap_append, ← taken, ← taken, hqueued, List.append_nil,
      ← List.append_assoc, hbytes, List.append_assoc, ← hsplit, List.take_add]

/-- `handleWrite` hands over the front of the output queue. -/
theorem handleWrite_bytes {e : List Effect} {c' : TcpConnection} (hv : c.outputBuffer.Valid)
    (hle : ∀ n, write = .ok n → n ≤ c.outputBuffer.readableBytes)
    (h : c.handleWrite write = .ok (e, c')) :
    taken e ++ c'.outputBuffer.content = c.outputBuffer.content ∧
    (.shutdownWrite ∈ e → c'.outputBuffer.content = []) := by
  obtain ⟨r, hr, hspec⟩ := handleWrite_spec hv hle
  obtain rfl := Except.ok.inj (hr.symm.trans h)
  cases hspec with
  | idle => exact ⟨by simp [taken], by simp⟩
  | failed | nothing => exact ⟨by simp [taken, Effect.taken], by simp⟩
  | some n b hwriting hvalid hsplit => exact ⟨by simpa [taken, Effect.taken] using hsplit, by simp⟩
  | all n b hvalid hnil =>
    refine ⟨?_, fun _ => hnil⟩
    by_cases hset : c.writeCompleteCallback = true <;>
      by_cases hs : c.state = .kDisconnecting <;> simp [taken, Effect.taken, hset, hs, hnil]

/-! ### A send on an open connection -/

/-- What the first half of `sendInLoop` did, when nothing is fatal. -/
structure Begins (c : TcpConnection) (data : List UInt8) (len : Nat) (d : Direct) : Prop where
  fault : d.faultError = false
  split : d.nwrote + d.remaining = len
  bytes : taken d.effects ++ c.outputBuffer.content = c.outputBuffer.content ++ data.take d.nwrote
  shutdown : .shutdownWrite ∉ d.effects
  complete : .queueWriteComplete ∈ d.effects ↔ c.writeCompleteCallback = true ∧
    (∃ bytes, .wrote bytes ∈ d.effects) ∧ d.remaining = 0
  once : d.effects.count .queueWriteComplete ≤ 1
  direct : (∃ bytes, .wrote bytes ∈ d.effects) → c.outputBuffer.content = []

theorem writeDirect_begins (h : Stream c) (hw : Returns len write) (hkept : ¬ c.Drops write) :
    Begins c data len (c.writeDirect data len write) := by
  obtain ⟨hsplit, hbytes⟩ := writeDirect_bytes data h.valid hw.le
  have hfault : (c.writeDirect data len write).faultError = false := by
    rw [← Bool.not_eq_true, faultError_iff]
    exact hkept
  by_cases hempty : c.outputBuffer.content = []
  · simp only [writeDirect, if_pos (h.direct.mpr hempty)] at hfault hsplit hbytes ⊢
    cases write with
    | ok n =>
      obtain ⟨-, hshut, hcomplete, honce, hwrote⟩ :=
        wrote_effects (data.take n) (len - n = 0 ∧ c.writeCompleteCallback = true)
      refine ⟨hfault, hsplit, hbytes, hshut, ?_, honce, fun _ => hempty⟩
      rw [hcomplete]
      tauto
    | error failure =>
      exact ⟨hfault, hsplit, hbytes, by simp, by simp, by simp, fun _ => hempty⟩
  · simp only [writeDirect, if_neg (mt h.direct.mp hempty)] at hsplit hbytes ⊢
    exact ⟨rfl, hsplit, hbytes, by simp, by simp, by simp, by simp⟩

/-- A message that is given up changes nothing. -/
theorem drops_sends (h : Stream c) (data : List UInt8) (len : Nat) (hdrop : c.Drops write) :
    ∃ e, c.sendInLoop data len write = .ok (e, c) ∧ Sends c [] e c := by
  obtain ⟨failure, -, hrun⟩ := sendInLoop_drops data len hdrop
  exact ⟨_, hrun, h, by simp [taken, Effect.taken], by simp, by simp, by simp⟩

theorem sendInLoop_sends (h : Stream c) (hlen : len ≤ data.length) (hw : Returns len write)
    (hkept : ¬ c.Drops write) :
    ∃ e c', c.sendInLoop data len write = .ok (e, c') ∧ Sends c (data.take len) e c' := by
  have hb : Begins c data len (c.writeDirect data len write) := writeDirect_begins h hw hkept
  simp only [sendInLoop]
  generalize c.writeDirect data len write = d at hb ⊢
  obtain ⟨hfault, hsplit, hbytes, hshut, hcomplete, honce, hdirect⟩ := hb
  rw [assert_holds (show d.remaining ≤ len by omega)]
  by_cases hrest : 0 < d.remaining
  · have hnever : .queueWriteComplete ∉ d.effects := fun hx => by
      have := (hcomplete.mp hx).2.2
      omega
    obtain ⟨queued, c', hrun, hsends⟩ :=
      appendRemaining_sends h (by omega) hrest hbytes hshut hnever
    rw [hsplit] at hsends
    refine ⟨d.effects ++ queued, c', ?_, hsends⟩
    simp [hfault, hrest, hrun]
  · have hall : d.nwrote = len := by omega
    rw [hall] at hbytes
    refine ⟨d.effects, c, by simp [hrest], h, hbytes, fun hx => absurd hx hshut, ?_, honce⟩
    rw [hcomplete]
    constructor
    · rintro ⟨hset, hwrote, -⟩
      exact ⟨hset, hwrote, hdirect hwrote⟩
    · rintro ⟨hset, hwrote, -⟩
      exact ⟨hset, hwrote, by omega⟩

theorem handleWrite_sends (h : Stream c) (hw : Returns c.outputBuffer.readableBytes write) :
    ∃ e c', c.handleWrite write = .ok (e, c') ∧ Sends c [] e c' := by
  obtain ⟨⟨e, c'⟩, hr, hspec⟩ := handleWrite_spec h.valid hw.le
  refine ⟨e, c', hr, ?_⟩
  cases hspec with
  | idle => exact ⟨h, by simp [taken], by simp, by simp, by simp⟩
  | failed errno => exact ⟨h, by simp [taken, Effect.taken], by simp, by simp, by simp⟩
  | nothing hwriting =>
    have hne := h.writing.mp hwriting
    exact ⟨h, by simp [taken, Effect.taken], by simp, by simp [hne], by simp⟩
  | some n b hwriting hvalid hsplit hleft =>
    refine ⟨⟨hvalid, iff_of_true hwriting hleft⟩, ?_, by simp, by simp [hleft], by simp⟩
    simpa [taken, Effect.taken] using hsplit
  | all n b hvalid hnil =>
    -- the last bytes are gone: POLLOUT is given up, and a half-close waits no longer
    have hstream : Stream (({ c with outputBuffer := b } : TcpConnection).setInterest .disableWriting) :=
      ⟨hvalid, iff_of_false (by simp) (not_not.mpr hnil)⟩
    by_cases hset : c.writeCompleteCallback = true <;> by_cases hs : c.state = .kDisconnecting <;>
      exact ⟨hstream, by simp [taken, Effect.taken, hset, hs, hnil], fun _ => hnil,
        by simp [hset, hs, hnil], by simp [hset, hs]⟩

theorem shutdown_sends (h : Stream c) : Sends c [] c.shutdown.1 c.shutdown.2 := by
  unfold shutdown
  split
  · obtain ⟨hstream, hbytes, hshut, hcomplete, honce⟩ :=
      shutdownInLoop_sends (c := c.setState .kDisconnecting) ⟨h.valid, h.writing⟩
    exact ⟨hstream, hbytes, hshut, hcomplete, honce⟩
  · exact ⟨h, by simp [taken], by simp, by simp, by simp⟩

/-- Every call is answered and does what a call may do. -/
theorem output_sends (h : Stream c) {l : Output} (hm : output.may c l) :
    ∃ e c', output.step c l = .ok (e, c') ∧ Sends c (l.kept c) e c' := by
  cases l with
  | sendInLoop data len write =>
    by_cases hdrop : c.Drops write
    · obtain ⟨e, hrun, hsends⟩ := drops_sends h data len hdrop
      exact ⟨e, c, hrun, by rwa [Output.kept, if_pos hdrop]⟩
    · obtain ⟨e, c', hrun, hsends⟩ := sendInLoop_sends h hm.1 hm.2 hdrop
      exact ⟨e, c', hrun, by rwa [Output.kept, if_neg hdrop]⟩
  | handleWrite write => exact handleWrite_sends h hm
  | shutdown => exact ⟨_, _, rfl, shutdown_sends h⟩
  | shutdownInLoop => exact ⟨_, _, rfl, shutdownInLoop_sends h⟩
  | setWriteCompleteCallback set | setHighWaterMarkCallback set mark =>
    exact ⟨[], _, rfl, ⟨h.valid, h.writing⟩, by simp [taken, Output.kept], by simp, by simp, by simp⟩

theorem kept_eq {l : Output} (h : Delivers c l) : l.kept c = l.data := by
  cases l with
  | sendInLoop data len write =>
    by_cases hdrop : c.Drops write
    · rw [Output.kept, if_pos hdrop, Output.data, h hdrop, List.take_zero]
    · exact if_neg hdrop
  | _ => rfl

/-- What is given up is a whole message. -/
theorem kept_eq_nil {l : Output} (hm : output.may c l) (h : ¬ Delivers c l) :
    l.kept c = [] ∧ 0 < l.data.length := by
  cases l with
  | sendInLoop data len write =>
    obtain ⟨hdrop, hlen⟩ := Classical.not_imp.mp h
    refine ⟨if_pos hdrop, ?_⟩
    rw [Output.data, List.length_take_of_le hm.1]
    omega
  | _ => exact absurd trivial h

/-! ### Every run -/

theorem stream_inductive : output.Inductive Stream := fun _ _ h hm =>
  let ⟨e, c', hs, hsends⟩ := output_sends h hm
  ⟨e, c', hs, hsends.stream⟩

/-- Nothing is doubled, and nothing is lost but what is given up. -/
theorem output_account {u : TcpConnection} {tr : List (Output × List Effect)}
    (h : output.Run c tr u) (hs : Stream c) :
    (accepted tr ++ u.outputBuffer.content).length ≤ (c.outputBuffer.content ++ sent tr).length ∧
    (accepted tr ++ u.outputBuffer.content = c.outputBuffer.content ++ sent tr ↔
      (output.only Delivers).Run c tr u) := by
  induction h with
  | nil s => exact ⟨by simp [accepted, sent], iff_of_true (by simp [accepted, sent]) (.nil s)⟩
  | @cons s t u l e tr hm hstep hrest ih =>
    obtain ⟨e', t', hstep', hsends⟩ := output_sends hs hm
    obtain ⟨rfl, rfl⟩ := Prod.mk.inj (Except.ok.inj (hstep.symm.trans hstep'))
    obtain ⟨hle, hiff⟩ := ih hsends.stream
    have hbytes := hsends.bytes
    have hcons : accepted ((l, e) :: tr) = taken e ++ accepted tr := rfl
    have hsent : sent ((l, e) :: tr) = l.data ++ sent tr := rfl
    have hlength := congrArg List.length hbytes
    rw [Machine.run_cons_iff (m := output.only Delivers) hstep, hcons, hsent]
    simp only [List.length_append] at hle hlength ⊢
    by_cases hkeeps : Delivers s l
    · rw [kept_eq hkeeps] at hbytes hlength
      refine ⟨by omega, ?_⟩
      rw [List.append_assoc, ← List.append_assoc s.outputBuffer.content, ← hbytes,
        List.append_assoc, List.append_cancel_left_eq, hiff]
      exact (and_iff_right ⟨hm, hkeeps⟩).symm
    · obtain ⟨hnil, hpos⟩ := kept_eq_nil hm hkeeps
      rw [hnil, List.length_nil] at hlength
      refine ⟨by omega, iff_of_false (fun heq => ?_) fun hkept => hkeeps hkept.1.2⟩
      have := congrArg List.length heq
      simp only [List.length_append] at this
      omega

/-- **The output stream is intact exactly while no message is given up.** At any time the bytes
taken and the bytes buffered are the bytes sent if and only if no message so far met a blocked
write whose log left a fatal error. Whatever happened, POLLOUT is waited for exactly while some
are buffered, and what is called next half-closes only with nothing buffered and reports
completion exactly when a write left nothing pending. -/
theorem output_stream {sockfd : Nat} {tr : List (Output × List Effect)}
    (h : output.Run (established sockfd) tr c) :
    (accepted tr ++ c.outputBuffer.content = sent tr ↔
      (output.only Delivers).Run (established sockfd) tr c) ∧
    (c.channel.isWriting = true ↔ c.outputBuffer.content ≠ []) ∧
    ∀ l, output.may c l → ∃ e c', output.step c l = .ok (e, c') ∧
      (.shutdownWrite ∈ e → c'.outputBuffer.content = []) ∧
      (.queueWriteComplete ∈ e ↔ c.writeCompleteCallback = true ∧
        (∃ bytes, .wrote bytes ∈ e) ∧ c'.outputBuffer.content = []) ∧
      e.count .queueWriteComplete ≤ 1 := by
  have hstream : Stream c := stream_inductive.run h (stream_established sockfd)
  have hempty : (established sockfd).outputBuffer.content = [] := Buffer.initial_content _
  obtain ⟨-, haccount⟩ := output_account h (stream_established sockfd)
  rw [hempty, List.nil_append] at haccount
  refine ⟨haccount, hstream.writing, fun l hm => ?_⟩
  obtain ⟨e, c', hs, hsends⟩ := output_sends hstream hm
  exact ⟨e, c', hs, hsends.shutdown, hsends.complete, hsends.once⟩

/-- A partial write, a send behind it, a half-close and the rest. -/
theorem output_stream_partial : ∃ tr c, (output.only Delivers).Run (established 5) tr c ∧
    accepted tr = [1, 2] ∧ sent tr = [1, 2, 3, 4] ∧ c.outputBuffer.content = [3, 4] ∧
    accepted tr ++ c.outputBuffer.content = sent tr := by
  obtain ⟨tr, c, h, -, haccepted, hsent, hcontent⟩ :=
    (output.only Delivers).exists_run_of_replay (s := established 5)
      (P := fun tr c => accepted tr = [1, 2] ∧ sent tr = [1, 2, 3, 4] ∧
        c.outputBuffer.content = [3, 4])
      [.setWriteCompleteCallback true, .sendInLoop [1, 2, 3] 3 (.ok 1), .shutdown,
        .sendInLoop [4] 1 (.ok 1), .handleWrite (.error ⟨.EAGAIN, .EPIPE⟩), .handleWrite (.ok 1)]
      (by decide +kernel)
  exact ⟨tr, c, h, haccepted, hsent, hcontent, (output_stream h.of_only).1.mpr h⟩

/-- The socket is full and nobody reads the log: one byte is given up, the next is written. -/
theorem output_stream_dropped : ∃ tr c, output.Run (established 5) tr c ∧
    tr.map Prod.snd = [[.writeFailed [1] .EWOULDBLOCK], [.wrote [2]]] ∧ sent tr = [1, 2] ∧
    accepted tr = [2] ∧ c.outputBuffer.content = [] ∧
    accepted tr ++ c.outputBuffer.content ≠ sent tr := by
  obtain ⟨tr, c, h, -, heffects, hsent, haccepted, hcontent⟩ :=
    output.exists_run_of_replay (s := established 5)
      (P := fun tr c => tr.map Prod.snd = [[.writeFailed [1] .EWOULDBLOCK], [.wrote [2]]] ∧
        sent tr = [1, 2] ∧ accepted tr = [2] ∧ c.outputBuffer.content = [])
      [.sendInLoop [1] 1 (.error ⟨.EWOULDBLOCK, .EPIPE⟩), .sendInLoop [2] 1 (.ok 1)]
      (by decide +kernel)
  refine ⟨tr, c, h, heffects, hsent, haccepted, hcontent, ?_⟩
  rw [haccepted, hcontent, hsent]
  simp

end Leanet.TcpConnection

import Leanet.Tcp.OutputStream

/-! Every call of a connection, in any order.

What the loop may call on its thread, from the constructor on and past the closing, with any
answer of write(2), its errors included. The assertions decide which orders there are. Only
`sendInLoop` and `handleWrite` touch the output queue, and POLLOUT is asked for only while it
holds something, closed or not (`queued_run`); the bytes are accounted for as on an open
connection, with the messages that were given up left out (`calls_account`). -/
namespace Leanet.TcpConnection

inductive Call where
  | output (l : Output)
  | connectEstablished
  | handleRead (read : Transfer)
  | handleClose
  | handleError
  | connectDestroyed
  | setCloseCallback (set : Bool)

/-- The counts write(2) may return, whatever its errors. -/
def Output.Bounded (c : TcpConnection) : Output → Prop
  | .sendInLoop data len write => len ≤ data.length ∧ ∀ n, write = .ok n → n ≤ len
  | .handleWrite write => ∀ n, write = .ok n → n ≤ c.outputBuffer.readableBytes
  | .shutdown | .shutdownInLoop | .setWriteCompleteCallback _ | .setHighWaterMarkCallback _ _ => True

def callMay (c : TcpConnection) : Call → Prop
  | .output l => l.Bounded c
  | _ => True

def callStep (c : TcpConnection) : Call → Except Fault (List Effect × TcpConnection)
  | .output l => outputStep c l
  | .connectEstablished => c.connectEstablished
  | .handleRead read => c.handleRead read
  | .handleClose => c.handleClose
  | .handleError => pure c.handleError
  | .connectDestroyed => c.connectDestroyed
  | .setCloseCallback set => pure ([], { c with closeCallback := set })

def calls : Machine TcpConnection Call (List Effect) Fault where
  may := callMay
  step := callStep

instance (len : Nat) : (write : Transfer) → Decidable (∀ n, write = .ok n → n ≤ len)
  | .ok n => decidable_of_iff (n ≤ len) ⟨fun h _ e => Except.ok.inj e ▸ h, fun h => h n rfl⟩
  | .error _ => isTrue nofun

instance (c : TcpConnection) : (l : Output) → Decidable (l.Bounded c)
  | .sendInLoop .. => inferInstanceAs (Decidable (_ ∧ ∀ n, _ = Except.ok n → n ≤ _))
  | .handleWrite _ => inferInstanceAs (Decidable (∀ n, _ = Except.ok n → n ≤ _))
  | .shutdown | .shutdownInLoop | .setWriteCompleteCallback _ | .setHighWaterMarkCallback .. =>
    inferInstanceAs (Decidable True)

instance (c : TcpConnection) : (l : Call) → Decidable (calls.may c l)
  | .output l => inferInstanceAs (Decidable (l.Bounded c))
  | .connectEstablished | .handleRead _ | .handleClose | .handleError | .connectDestroyed
  | .setCloseCallback _ => inferInstanceAs (Decidable True)

/-- What a call sends. -/
def Call.data : Call → List UInt8
  | .output l => l.data
  | _ => []

/-- The calls that touch the output queue. -/
def Call.writes : Call → Bool
  | .output (.sendInLoop ..) | .output (.handleWrite _) => true
  | _ => false

/-- A blocked direct write whose log left a fatal error: the message is given up. -/
def Dropped : Call × List Effect → Prop
  | (.output (.sendInLoop data len (.error failure)), effects) =>
    failure.errno = .EWOULDBLOCK ∧ (failure.logged = .EPIPE ∨ failure.logged = .ECONNRESET) ∧
      .writeFailed (data.take len) failure.errno ∈ effects
  | _ => False

instance : (x : Call × List Effect) → Decidable (Dropped x)
  | (.output (.sendInLoop _ _ (.error _)), _) => inferInstanceAs (Decidable (_ ∧ (_ ∨ _) ∧ _))
  | (.output (.sendInLoop _ _ (.ok _)), _) | (.output (.handleWrite _), _)
  | (.output .shutdown, _) | (.output .shutdownInLoop, _)
  | (.output (.setWriteCompleteCallback _), _) | (.output (.setHighWaterMarkCallback ..), _)
  | (.connectEstablished, _) | (.handleRead _, _) | (.handleClose, _) | (.handleError, _)
  | (.connectDestroyed, _) | (.setCloseCallback _, _) => inferInstanceAs (Decidable False)

/-- What is left of what a call sends. -/
def keptOf (x : Call × List Effect) : List UInt8 := if Dropped x then [] else x.1.data

/-- All data passed to `sendInLoop`, in call order. -/
def sentBy (tr : List (Call × List Effect)) : List UInt8 := tr.flatMap fun e => e.1.data

/-- The same without the messages that were given up. -/
def keptBy (tr : List (Call × List Effect)) : List UInt8 := tr.flatMap keptOf

/-- The bytes write(2) has taken so far. -/
def takenBy (tr : List (Call × List Effect)) : List UInt8 := tr.flatMap fun e => taken e.2

/-- The invariant, of an open connection and of a closed one. -/
structure Queued (c : TcpConnection) : Prop where
  valid : c.outputBuffer.Valid
  writing : c.channel.isWriting = true → c.outputBuffer.content ≠ []

variable {c c' : TcpConnection} {l : Call} {e : List Effect} {data : List UInt8} {len : Nat}
  {write : Transfer}

theorem queued_new (sockfd : Nat) : Queued (new sockfd) :=
  ⟨Buffer.initial_valid _, by simp [new, Channel.isWriting, Channel.new, Channel.kNoneEvent]⟩

/-! ### One call -/

/-- What a call leaves alone that does not write. -/
structure Passes (c : TcpConnection) (e : List Effect) (c' : TcpConnection) : Prop where
  buffer : c'.outputBuffer = c.outputBuffer
  writing : c'.channel.isWriting = true → c.channel.isWriting = true
  effects : ∀ x ∈ e, ¬ Effect.OfSend x

theorem passes_handleClose (h : c.handleClose = .ok (e, c')) : Passes c e c' := by
  obtain ⟨_, -, h⟩ := bind_eq_ok.mp h
  cases h
  refine ⟨rfl, fun hw => absurd hw (by simp [setState]), fun x hx => ?_⟩
  split at hx
  · cases List.mem_singleton.mp hx
    exact id
  · cases hx

theorem passes_shutdownInLoop (c : TcpConnection) :
    Passes c c.shutdownInLoop.1 c.shutdownInLoop.2 := by
  unfold shutdownInLoop
  split
  · exact ⟨rfl, id, fun x hx => by cases List.mem_singleton.mp hx; exact id⟩
  · exact ⟨rfl, id, fun x hx => by cases hx⟩

theorem callStep_passes (hl : l.writes = false) (h : callStep c l = .ok (e, c')) :
    Passes c e c' := by
  cases l with
  | output l =>
    cases l with
    | sendInLoop | handleWrite => cases hl
    | shutdown =>
      have h : c.shutdown = (e, c') := Except.ok.inj h
      unfold shutdown at h
      split at h
      · obtain ⟨hbuffer, hwriting, heffects⟩ := passes_shutdownInLoop (c.setState .kDisconnecting)
        rw [h] at hbuffer hwriting heffects
        exact ⟨hbuffer, hwriting, heffects⟩
      · cases h
        exact ⟨rfl, id, fun x hx => by cases hx⟩
    | shutdownInLoop =>
      have h : c.shutdownInLoop = (e, c') := Except.ok.inj h
      have hpasses := passes_shutdownInLoop c
      rwa [h] at hpasses
    | setWriteCompleteCallback | setHighWaterMarkCallback =>
      cases h
      exact ⟨rfl, id, fun x hx => by cases hx⟩
  | connectEstablished =>
    obtain ⟨_, -, h⟩ := bind_eq_ok.mp h
    cases h
    exact ⟨rfl, by simp [setState], fun x hx => by cases List.mem_singleton.mp hx; exact id⟩
  | connectDestroyed =>
    obtain ⟨_, -, h⟩ := bind_eq_ok.mp h
    cases h
    exact ⟨rfl, by simp [setState], fun x hx => by cases List.mem_singleton.mp hx; exact id⟩
  | handleClose => exact passes_handleClose h
  | handleRead read =>
    simp only [callStep, handleRead] at h
    cases read with
    | error errno =>
      cases h
      exact ⟨rfl, id, fun x hx => by cases hx⟩
    | ok n =>
      dsimp only at h
      split at h
      · cases h
        exact ⟨rfl, id, fun x hx => by cases List.mem_singleton.mp hx; exact id⟩
      · exact passes_handleClose h
  | handleError | setCloseCallback =>
    cases h
    exact ⟨rfl, id, fun x hx => by cases hx⟩

theorem sendInLoop_queued (h : Queued c) (hlen : len ≤ data.length)
    (hle : ∀ n, write = .ok n → n ≤ len) (hs : c.sendInLoop data len write = .ok (e, c')) :
    Queued c' := by
  have hsplit := writeDirect_split c data hle
  obtain ⟨r, hr, hspec⟩ := sendInLoop_spec h.valid hlen hle
  obtain rfl := Except.ok.inj (hr.symm.trans hs)
  generalize c.writeDirect data len write = d at hsplit hspec
  cases hspec with
  | direct => exact h
  | appended queued b hpos hvalid hcontent =>
    have hne : b.content ≠ [] := content_ne_nil_of_append hcontent hpos (by omega)
    split
    · exact ⟨hvalid, fun _ => hne⟩
    · exact ⟨hvalid, fun _ => hne⟩

theorem handleWrite_queued (h : Queued c)
    (hle : ∀ n, write = .ok n → n ≤ c.outputBuffer.readableBytes)
    (hs : c.handleWrite write = .ok (e, c')) : Queued c' := by
  obtain ⟨r, hr, hspec⟩ := handleWrite_spec h.valid hle
  obtain rfl := Except.ok.inj (hr.symm.trans hs)
  cases hspec with
  | idle | failed | nothing => exact h
  | some n b hwriting hvalid hsplit hleft => exact ⟨hvalid, fun _ => hleft⟩
  | all n b hvalid hnil => exact ⟨hvalid, fun hw => absurd hw (by simp)⟩

/-- A message is given up where the write fails and the log hides why. -/
theorem dropped_iff (hv : c.outputBuffer.Valid) (hlen : len ≤ data.length)
    (hle : ∀ n, write = .ok n → n ≤ len) (hs : c.sendInLoop data len write = .ok (e, c')) :
    Dropped (.output (.sendInLoop data len write), e) ↔ c.Drops write := by
  cases write with
  | ok n => exact Iff.rfl
  | error failure =>
    constructor
    · rintro ⟨hblocked, hlogged, hfailed⟩
      refine ⟨?_, hblocked, hlogged⟩
      by_contra hqueue
      obtain ⟨r, hr, hspec⟩ := sendInLoop_spec hv hlen hle
      obtain rfl := Except.ok.inj (hr.symm.trans hs)
      rw [writeDirect, if_neg (by simpa using hqueue)] at hspec
      cases hspec with
      | direct => cases hfailed
      | appended queued b hpos hvalid hcontent hmark =>
        obtain ⟨set, size, heq⟩ := hmark _ hfailed
        cases heq
    · intro hdrop
      obtain ⟨_, heq, hrun⟩ := sendInLoop_drops data len hdrop
      cases heq
      cases hs.symm.trans hrun
      exact ⟨hdrop.2.1, hdrop.2.2, List.mem_singleton_self _⟩

theorem sendInLoop_kept (hv : c.outputBuffer.Valid) (hlen : len ≤ data.length)
    (hle : ∀ n, write = .ok n → n ≤ len) (hs : c.sendInLoop data len write = .ok (e, c')) :
    taken e ++ c'.outputBuffer.content =
      c.outputBuffer.content ++ keptOf (.output (.sendInLoop data len write), e) := by
  by_cases hdrop : c.Drops write
  · obtain ⟨failure, -, hrun⟩ := sendInLoop_drops data len hdrop
    rw [keptOf, if_pos ((dropped_iff hv hlen hle hs).mpr hdrop), List.append_nil]
    cases hs.symm.trans hrun
    rfl
  · rw [keptOf, if_neg (mt (dropped_iff hv hlen hle hs).mp hdrop)]
    exact sendInLoop_bytes hv hlen hle hdrop hs

/-- What does not send has nothing to give up. -/
theorem keptOf_eq_nil (h : l.data = []) (effects : List Effect) : keptOf (l, effects) = [] := by
  rw [keptOf, h, ite_self]

/-- One call takes bytes from the front of the queue and puts those of a send at its back. -/
theorem call_step (h : Queued c) (hm : calls.may c l) (hs : calls.step c l = .ok (e, c')) :
    Queued c' ∧ taken e ++ c'.outputBuffer.content = c.outputBuffer.content ++ keptOf (l, e) := by
  cases hl : l.writes with
  | false =>
    obtain ⟨hbuffer, hwriting, heffects⟩ := callStep_passes hl hs
    have htaken : taken e = [] := List.flatMap_eq_nil_iff.mpr fun x hx => by
      have hx := heffects x hx
      cases x <;> first | rfl | exact absurd trivial hx
    have hdata : l.data = [] := by
      cases l with
      | output l => cases l <;> first | rfl | cases hl
      | connectEstablished | handleRead | handleClose | handleError | connectDestroyed
      | setCloseCallback => rfl
    rw [htaken, keptOf_eq_nil hdata, hbuffer, List.nil_append, List.append_nil]
    exact ⟨⟨hbuffer ▸ h.valid, fun hw => hbuffer ▸ h.writing (hwriting hw)⟩, rfl⟩
  | true =>
    cases l with
    | output l =>
      cases l with
      | sendInLoop data len write =>
        exact ⟨sendInLoop_queued h hm.1 hm.2 hs, sendInLoop_kept h.valid hm.1 hm.2 hs⟩
      | handleWrite write =>
        refine ⟨handleWrite_queued h hm hs, ?_⟩
        rw [(handleWrite_bytes h.valid hm hs).1, keptOf_eq_nil rfl, List.append_nil]
      | shutdown | shutdownInLoop | setWriteCompleteCallback | setHighWaterMarkCallback => cases hl
    | connectEstablished | handleRead | handleClose | handleError | connectDestroyed
    | setCloseCallback => cases hl

/-! ### Every run -/

theorem queued_run {c₀ : TcpConnection} {tr : List (Call × List Effect)} (h : calls.Run c₀ tr c)
    (h₀ : Queued c₀) : Queued c :=
  h.preserves (fun _ _ _ _ hq hm hs => (call_step hq hm hs).1) h₀

/-- **No byte of a message that is not given up is lost, none is doubled and none overtakes
another**, closed or open. -/
theorem calls_account {c₀ : TcpConnection} {tr : List (Call × List Effect)}
    (h : calls.Run c₀ tr c) (h₀ : Queued c₀) :
    takenBy tr ++ c.outputBuffer.content = c₀.outputBuffer.content ++ keptBy tr := by
  refine h.snoc_induction (P := fun tr c => takenBy tr ++ c.outputBuffer.content =
    c₀.outputBuffer.content ++ keptBy tr) (List.append_nil _).symm ?_
  intro tr c l e c' hrun ih hm hs
  obtain ⟨-, hbytes⟩ := call_step (queued_run hrun h₀) hm hs
  simp only [takenBy, keptBy, List.flatMap_append, List.flatMap_singleton] at ih ⊢
  rw [List.append_assoc, hbytes, ← List.append_assoc, ih, List.append_assoc]

end Leanet.TcpConnection

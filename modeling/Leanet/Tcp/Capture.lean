import Leanet.Tcp.Shared
import Leanet.Tcp.OutputStream

/-! What a queued send hands over.

On the loop thread the bytes are taken before `send` returns. From another thread the
functor carries the pointer and looks when it runs: the stream goes on by what the
memory holds then, which are the bytes of the call exactly if nothing has changed them
in between (`send_captures`). -/
namespace Leanet.Shared
open TcpConnection
open LifeCycle (Fits Keeps)

variable {build : Build} {c c' : TcpConnection} {s s' : State} {l : Action} {e : List Effect}
  {data : List UInt8} {len : Nat} {write : Transfer} {message : Message}

/-- The functor run next hands to write(2) or to the output queue what was there at the
call of `send`. -/
def Captures (build : Build) (s : State) (write : Transfer) (message : Message) : Prop :=
  ∃ e s', step build s (.functor write) = .ok (e, s') ∧
    -- a message that is given up was handed to a write(2) that took none of it
    if s.conn.Drops write then ∃ errno, e = [.writeFailed message.held errno]
    else taken e ++ s'.conn.outputBuffer.content = s.conn.outputBuffer.content ++ message.held

/-! ### What is handed over -/

theorem sendInLoop_hands (hv : c.outputBuffer.Valid) (hlen : data.length = len)
    (hw : Fits len write) (hkept : ¬ c.Drops write) (h : c.sendInLoop data len write = .ok (e, c')) :
    taken e ++ c'.outputBuffer.content = c.outputBuffer.content ++ data := by
  rw [sendInLoop_bytes hv (Nat.le_of_eq hlen.symm) hw.le hkept h,
    List.take_of_length_le (Nat.le_of_eq hlen)]

/-- The same where the message is given up. -/
theorem sendInLoop_refused (hlen : data.length = len) (hdrop : c.Drops write) :
    ∃ errno, c.sendInLoop data len write = .ok ([.writeFailed data errno], c) := by
  obtain ⟨failure, -, hrun⟩ := sendInLoop_drops data len hdrop
  rw [List.take_of_length_le (Nat.le_of_eq hlen)] at hrun
  exact ⟨_, hrun⟩

/-- The functor of a send, if it is the next one. -/
theorem functor_send (hhead : s.batch.head? = some (.sendInLoop message)) :
    step build s (.functor write) = (do
      let data ← s.memory.load message.data message.len
      let r ← s.conn.sendInLoop data message.len write
      pure ({ s with batch := s.batch.tail, destroyed := s.destroyed || false }.perform r)) := by
  simp only [step, hhead, deref_some, ok_bind, runFunctor]
  cases s.memory.load message.data message.len <;> rfl

theorem captures_iff (h : Sound s) (hm : may s (.functor write))
    (hhead : s.batch.head? = some (.sendInLoop message)) :
    Captures build s write message ↔
      s.memory.load message.data message.len = .ok message.held := by
  have hw : Fits message.len write := by
    obtain ⟨-, f, hf, hw⟩ := hm.2
    cases hhead.symm.trans hf
    exact hw
  unfold Captures
  rw [functor_send hhead]
  constructor
  · rintro ⟨e, s', hs, hcaptured⟩
    obtain ⟨data, hdata, hs⟩ := bind_eq_ok.mp hs
    obtain ⟨⟨e', c'⟩, hr, hs⟩ := bind_eq_ok.mp hs
    cases hs
    have hlen := Memory.load_length hdata
    split at hcaptured
    · next hdrop =>
      obtain ⟨errno, hrun⟩ := sendInLoop_refused hlen hdrop
      obtain ⟨errno', heffects⟩ := hcaptured
      cases hr.symm.trans hrun
      have heffects : [Effect.writeFailed data errno] = [.writeFailed message.held errno'] := heffects
      rw [hdata, (Effect.writeFailed.inj (List.cons.inj heffects).1).1]
    · next hkept =>
      have hhands := sendInLoop_hands h.valid hlen hw hkept hr
      rw [hdata, List.append_cancel_left (hhands.symm.trans hcaptured)]
  · intro hheld
    have hlen := Memory.load_length hheld
    obtain ⟨⟨e, c'⟩, hr, -⟩ := LifeCycle.sendInLoop_keeps (c := s.conn) h.valid (hlen ▸ hw)
    rw [hlen] at hr
    refine ⟨_, _, bind_eq_ok.mpr ⟨_, hheld, bind_eq_ok.mpr ⟨_, hr, rfl⟩⟩, ?_⟩
    split
    · next hdrop =>
      obtain ⟨errno, hrun⟩ := sendInLoop_refused hlen hdrop
      cases hr.symm.trans hrun
      exact ⟨errno, rfl⟩
    · next hkept => exact sendInLoop_hands h.valid hlen hw hkept hr

/-! ### Memory that is left alone -/

def Functor.message? : Functor → Option Message
  | .sendInLoop message => some message
  | .shutdownInLoop | .connectDestroyed => none

/-- The sends called and not run yet. -/
def State.inFlight (s : State) : List Message :=
  s.sending ++ (s.batch ++ s.pendingFunctors).filterMap Functor.message?

/-- No byte of a send in flight is overwritten or freed. -/
def Untouched (s : State) : Action → Prop
  | .store a _ => ∀ message ∈ s.inFlight, ¬ Memory.Covers message.data message.len a
  | _ => True

/-- The memory of every send in flight is as it was. -/
def Held (s : State) : Prop :=
  ∀ message ∈ s.inFlight, s.memory.load message.data message.len = .ok message.held

instance (s : State) : (l : Action) → Decidable (Untouched s l)
  | .store a _ => inferInstanceAs
    (Decidable (∀ message ∈ s.inFlight, ¬ Memory.Covers message.data message.len a))
  | .setCloseCallback _ | .setWriteCompleteCallback _ | .setHighWaterMarkCallback _ _
  | .removeConnection | .shutdown | .connectEstablished | .checkShutdown | .handleEvent _
  | .callback _ | .doPendingFunctors | .checkSend _ _ | .functor _ | .send _ _ | .pushSend _
  | .storeShutdown | .pushShutdown => inferInstanceAs (Decidable True)

theorem Held.of_subset (h : Held s) (hmemory : s'.memory = s.memory)
    (hsub : s'.inFlight ⊆ s.inFlight) : Held s' := by
  intro message hmem
  rw [hmemory]
  exact h message (hsub hmem)

/-- One functor of the batch is run. -/
theorem inFlight_tail (s : State) : { s with batch := s.batch.tail }.inFlight ⊆ s.inFlight := by
  refine List.append_subset.mpr ⟨List.subset_append_left .., ?_⟩
  refine List.Subset.trans (List.filterMap_subset _ ?_) (List.subset_append_right ..)
  exact List.append_subset.mpr ⟨List.Subset.trans (List.tail_sublist _).subset
    (List.subset_append_left ..), List.subset_append_right ..⟩

theorem Held.of_eq (h : Held s) (hmemory : s'.memory = s.memory)
    (heq : s'.inFlight = s.inFlight) : Held s' :=
  h.of_subset hmemory (heq ▸ List.Subset.refl _)

/-- Another functor is queued. -/
theorem inFlight_push (s : State) {f : Functor} (hf : f.message? = none) :
    { s with pendingFunctors := s.pendingFunctors ++ [f] }.inFlight = s.inFlight := by
  simp [State.inFlight, hf]

theorem held_step (h : Held s) (hm : may s l) (hu : Untouched s l)
    (hs : step build s l = .ok (e, s')) : Held s' := by
  cases l with
  | setCloseCallback | setWriteCompleteCallback | setHighWaterMarkCallback | handleEvent
  | checkShutdown | storeShutdown | shutdown =>
    cases hs
    exact h.of_eq rfl rfl
  | connectEstablished =>
    obtain ⟨r, -, hs⟩ := bind_eq_ok.mp hs
    cases hs
    exact h.of_eq rfl rfl
  | callback transfer =>
    obtain ⟨callback, -, hs⟩ := bind_eq_ok.mp hs
    obtain ⟨r, -, hs⟩ := bind_eq_ok.mp hs
    cases hs
    exact h.of_eq rfl rfl
  | doPendingFunctors =>
    cases hs
    have hbatch : s.batch = [] := hm.2.2
    refine h.of_subset rfl fun m hmem => ?_
    simpa [State.inFlight, hbatch] using hmem
  | functor write =>
    obtain ⟨f, -, hs⟩ := bind_eq_ok.mp hs
    obtain ⟨r, -, hs⟩ := bind_eq_ok.mp hs
    cases hs
    exact h.of_subset rfl (inFlight_tail s)
  | removeConnection =>
    cases hs
    exact h.of_eq rfl (inFlight_push s (f := .connectDestroyed) rfl)
  | pushShutdown =>
    cases hs
    exact h.of_eq rfl (inFlight_push s (f := .shutdownInLoop) rfl)
  | send argument write =>
    obtain ⟨-, data, r, -, -, heq⟩ | ⟨-, heq⟩ := send_runs hs
    · cases heq
      exact h.of_eq rfl rfl
    · cases heq
      exact h
  | checkSend argument held =>
    cases hs
    intro message hmem
    rcases List.mem_cons.mp hmem with rfl | hmem
    · exact hm.2.2
    · exact h message hmem
  | pushSend message =>
    cases hs
    refine h.of_subset rfl fun m hmem => ?_
    simp only [State.inFlight, List.mem_append, List.filterMap_append, List.filterMap_cons,
      Functor.message?, List.filterMap_nil, List.mem_singleton] at hmem ⊢
    rcases hmem with hmem | hmem | hmem | rfl
    · exact .inl (List.mem_of_mem_erase hmem)
    · exact .inr (.inl hmem)
    · exact .inr (.inr hmem)
    · exact .inl hm.2
  | store a v =>
    cases hs
    intro message hmem
    exact (Memory.load_set (hu message hmem)).trans (h message hmem)

/-- **A queued send hands over what its memory holds when it runs**: the bytes of the call
exactly if they are still there, and so always when nobody touches them before. -/
theorem send_captures (build : Build) (sockfd : Nat) (memory : Memory) :
    (∀ tr s, (machine build).Run (initial sockfd memory) tr s → ∀ write message,
      may s (.functor write) → s.batch.head? = some (.sendInLoop message) →
      (Captures build s write message ↔
        s.memory.load message.data message.len = .ok message.held)) ∧
    ∀ tr s, ((machine build).only Untouched).Run (initial sockfd memory) tr s →
      ∀ write message, may s (.functor write) →
      s.batch.head? = some (.sendInLoop message) → Captures build s write message := by
  refine ⟨fun tr s h write message hm hhead => captures_iff (sound_run h) hm hhead,
    fun tr s h write message hm hhead => ?_⟩
  have hheld : Held s :=
    h.preserves (fun _ _ _ _ hi hm hs => held_step hi hm.1 hm.2 hs) (by nofun)
  have hmem : message ∈ s.inFlight := by
    refine List.mem_append_right _ (List.mem_filterMap.mpr ⟨.sendInLoop message, ?_, rfl⟩)
    exact List.mem_append_left _ (List.mem_of_mem_head? (Option.mem_def.mpr hhead))
  exact (captures_iff (sound_run h.of_only) hm hhead).mpr (hheld message hmem)

/-- A byte elsewhere changes before the functor runs. -/
theorem send_captures_apart : ∃ tr s message,
    ((machine .release).only Untouched).Run (initial 5 fun _ => some 65) tr s ∧
    message.held = [65, 65] ∧ s.memory 2 = some 66 ∧ Captures .release s (.ok 1) message := by
  obtain ⟨tr, s, h, -, hm, hhead, hbyte⟩ :=
    ((machine .release).only Untouched).exists_run_of_replay (s := initial 5 fun _ => some 65)
      (P := fun _ s => may s (.functor (.ok 1)) ∧
        s.batch.head? = some (.sendInLoop ⟨0, 2, [65, 65]⟩) ∧ s.memory 2 = some 66)
      [.connectEstablished, .checkSend (.pointer 0 2) [65, 65], .pushSend ⟨0, 2, [65, 65]⟩,
        .store 2 (some 66), .doPendingFunctors] (by decide +kernel)
  exact ⟨tr, s, _, h, rfl, hbyte, (send_captures .release 5 fun _ => some 65).2 tr s h _ _ hm hhead⟩

/-- A string is changed after `send` has returned, and the peer receives the change. -/
theorem send_captures_changed : ∃ tr s e s', (machine .release).Run (initial 5 fun _ => some 65) tr s ∧
    tr.map Prod.fst = [.connectEstablished, .checkSend (.string 0 2) [65, 65],
      .pushSend ⟨0, 2, [65, 65]⟩, .store 1 (some 66), .doPendingFunctors] ∧
    may s (.functor (.ok 2)) ∧ s.batch.head? = some (.sendInLoop ⟨0, 2, [65, 65]⟩) ∧
    step .release s (.functor (.ok 2)) = .ok (e, s') ∧ taken e = [65, 66] ∧
    ¬ Captures .release s (.ok 2) ⟨0, 2, [65, 65]⟩ := by
  obtain ⟨tr, s, h, hlabels, hm, hhead, htaken⟩ :=
    (machine .release).exists_run_of_replay (s := initial 5 fun _ => some 65)
      (P := fun _ s => may s (.functor (.ok 2)) ∧
        s.batch.head? = some (.sendInLoop ⟨0, 2, [65, 65]⟩) ∧
        (step .release s (.functor (.ok 2))).toOption.map (fun r =>
          (taken r.1, r.2.conn.outputBuffer.content, s.conn.outputBuffer.content)) =
            some ([65, 66], [], []))
      [.connectEstablished, .checkSend (.string 0 2) [65, 65], .pushSend ⟨0, 2, [65, 65]⟩,
        .store 1 (some 66), .doPendingFunctors] (by decide +kernel)
  cases hs : step .release s (.functor (.ok 2)) with
  | error fault => simp [hs, Except.toOption] at htaken
  | ok r =>
    obtain ⟨e, s'⟩ := r
    simp only [hs, Except.toOption, Option.map_some, Option.some.injEq, Prod.mk.injEq] at htaken
    obtain ⟨htaken, hafter, hbefore⟩ := htaken
    refine ⟨tr, s, e, s', h, hlabels, hm, hhead, hs, htaken, ?_⟩
    rintro ⟨e', t, hs', hcaptured⟩
    cases hs.symm.trans hs'
    rw [if_neg (show ¬ s.conn.Drops (.ok 2) from id), htaken, hafter, hbefore] at hcaptured
    cases hcaptured

end Leanet.Shared

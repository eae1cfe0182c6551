import Leanet.Tcp.Calls

/-! What a failed direct write leaves behind.

`sendInLoop` looks for `EPIPE` and `ECONNRESET` inside the branch for `EWOULDBLOCK`, where write(2)
has left neither. So no error of write(2) is fatal to it: the whole message is buffered and POLLOUT
is asked for (`sendInLoop_fails`), and a connection whose peer is gone is woken for bytes it can
never write. A blocked write is taken for fatal where the log has left one of the two behind, and
its message is given up. A message of no bytes is an exception to both: there is nothing to
buffer. -/
namespace Leanet.TcpConnection

/-- The peer is gone. -/
def Fatal (errno : Errno) : Prop := errno = .EPIPE ∨ errno = .ECONNRESET

instance (errno : Errno) : Decidable (Fatal errno) := inferInstanceAs (Decidable (_ ∨ _))

variable {c c' u : TcpConnection} {data : List UInt8} {len sockfd : Nat} {failure : Failure}
  {e : List Effect} {tr tr₁ tr₂ : List (Call × List Effect)}

/-- What the errors of a direct write are owed: a fatal one stops the message, a blocked write
has it wait. -/
def Classifies (c : TcpConnection) (data : List UInt8) (len : Nat) (failure : Failure) : Prop :=
  ∃ e c', c.sendInLoop data len (.error failure) = .ok (e, c') ∧
    (Fatal failure.errno → c'.outputBuffer.content = [] ∧ c'.channel.isWriting = false) ∧
    (failure.errno = .EWOULDBLOCK →
      c'.outputBuffer.content = data.take len ∧ c'.channel.isWriting = true)

/-- No write(2) has failed. -/
def Unfailed (tr : List (Call × List Effect)) : Prop :=
  ∀ x ∈ tr, ∀ bytes errno, .writeFailed bytes errno ∉ x.2

/-- Where the one failed write was that of a message sent directly, and was fatal, only what was
sent since is pending. -/
def Discards (tr : List (Call × List Effect)) (c : TcpConnection) : Prop :=
  ∀ tr₁ data len failure e tr₂,
    tr = tr₁ ++ (.output (.sendInLoop data len (.error failure)), e) :: tr₂ →
    .writeFailed (data.take len) failure.errno ∈ e → Fatal failure.errno → Unfailed tr₁ →
    Unfailed tr₂ →
    c.outputBuffer.content <:+ sentBy tr₂ ∧
      (c.channel.isWriting = true → c.outputBuffer.content ≠ [])

/-! ### One send -/

theorem take_eq_nil (hlen : len ≤ data.length) : data.take len = [] ↔ len = 0 := by
  rw [List.take_eq_nil_iff]
  refine ⟨fun h => h.elim id fun hdata => ?_, .inl⟩
  rw [hdata, List.length_nil] at hlen
  omega

theorem error_bounded (failure : Failure) (len : Nat) :
    ∀ n, (.error failure : Transfer) = .ok n → n ≤ len := nofun

/-- Whatever the error, the message is buffered if it is not given up. -/
theorem sendInLoop_fails (hv : c.outputBuffer.Valid) (hempty : c.outputBuffer.content = [])
    (hidle : c.channel.isWriting = false) (hlen : len ≤ data.length)
    (hkept : ¬ c.Drops (.error failure)) :
    ∃ e c', c.sendInLoop data len (.error failure) = .ok (e, c') ∧
      c'.outputBuffer.content = data.take len ∧ (c'.channel.isWriting = true ↔ 0 < len) := by
  have hdirect : (c.writeDirect data len (.error failure)).nwrote = 0 ∧
      (c.writeDirect data len (.error failure)).remaining = len := by
    rw [writeDirect, if_pos ⟨by rw [hidle]; rfl, (Buffer.content_eq_nil hv).mp hempty⟩]
    exact ⟨rfl, rfl⟩
  have hfault := mt (faultError_iff c data len (.error failure)).mp hkept
  obtain ⟨⟨e, c'⟩, hr, hspec⟩ := sendInLoop_spec hv hlen (error_bounded failure len)
  refine ⟨e, c', hr, ?_⟩
  generalize c.writeDirect data len (.error failure) = d at hdirect hfault hspec
  obtain ⟨hnwrote, rfl⟩ := hdirect
  cases hspec with
  | direct hrest =>
    have hnone : d.remaining = 0 := hrest.resolve_left hfault
    simp [hnone, hempty, hidle]
  | appended queued b hpos hvalid hcontent =>
    rw [hidle]
    refine ⟨?_, iff_of_true (Channel.isWriting_enableWriting _) hpos⟩
    simpa [hempty, hnwrote] using hcontent

/-- With nothing buffered and writing off, a message is given up by the two errors alone. -/
theorem drops_iff (hv : c.outputBuffer.Valid) (hempty : c.outputBuffer.content = [])
    (hidle : c.channel.isWriting = false) :
    c.Drops (.error failure) ↔ failure.errno = .EWOULDBLOCK ∧ Fatal failure.logged :=
  and_iff_right ⟨hidle, (Buffer.content_eq_nil hv).mp hempty⟩

theorem not_blocked (hfatal : Fatal failure.errno) : failure.errno ≠ .EWOULDBLOCK := by
  rcases hfatal with h | h <;> simp [h]

theorem classifies_iff (hv : c.outputBuffer.Valid) (hempty : c.outputBuffer.content = [])
    (hidle : c.channel.isWriting = false) (hlen : len ≤ data.length) :
    Classifies c data len failure ↔ (Fatal failure.errno → len = 0) ∧
      (failure.errno = .EWOULDBLOCK → 0 < len ∧ ¬ Fatal failure.logged) := by
  by_cases hdrop : c.Drops (.error failure)
  · -- blocked, and taken for fatal
    obtain ⟨hblocked, hlogged⟩ := (drops_iff hv hempty hidle).mp hdrop
    obtain ⟨_, -, hrun⟩ := sendInLoop_drops data len hdrop
    refine iff_of_false ?_ fun h => (h.2 hblocked).2 hlogged
    rintro ⟨e, c', hr, -, hwaits⟩
    cases hr.symm.trans hrun
    cases hidle.symm.trans (hwaits hblocked).2
  · obtain ⟨e, c', hr, hcontent, hwriting⟩ := sendInLoop_fails hv hempty hidle hlen hdrop
    have hlogged (hblocked : failure.errno = .EWOULDBLOCK) : ¬ Fatal failure.logged :=
      fun hlogged => hdrop ((drops_iff hv hempty hidle).mpr ⟨hblocked, hlogged⟩)
    have hnil : c'.outputBuffer.content = [] ↔ len = 0 := by rw [hcontent, take_eq_nil hlen]
    have hoff : c'.channel.isWriting = false ↔ len = 0 := by
      rw [← Bool.not_eq_true, hwriting, Nat.not_lt, Nat.le_zero]
    constructor
    · rintro ⟨e', c'', hr', hfatal, hblocked⟩
      obtain ⟨rfl, rfl⟩ := Prod.mk.inj (Except.ok.inj (hr.symm.trans hr'))
      exact ⟨fun hf => hnil.mp (hfatal hf).1, fun hb => ⟨hwriting.mp (hblocked hb).2, hlogged hb⟩⟩
    · rintro ⟨hfatal, hblocked⟩
      exact ⟨e, c', hr, fun hf => ⟨hnil.mpr (hfatal hf), hoff.mpr (hfatal hf)⟩,
        fun hb => ⟨hcontent, hwriting.mpr (hblocked hb).1⟩⟩

/-- A send whose write fails for good has found nothing pending. -/
theorem failed_send (hv : c.outputBuffer.Valid) (hlen : len ≤ data.length)
    (hs : c.sendInLoop data len (.error failure) = .ok (e, c'))
    (he : .writeFailed (data.take len) failure.errno ∈ e) (hfatal : Fatal failure.errno) :
    c'.outputBuffer.content = data.take len := by
  by_cases hdirect : c.channel.isWriting = false ∧ c.outputBuffer.readableBytes = 0
  · obtain ⟨e', c'', hs', hcontent, -⟩ := sendInLoop_fails hv
      ((Buffer.content_eq_nil hv).mpr hdirect.2) hdirect.1 hlen
      fun hdrop => not_blocked hfatal hdrop.2.1
    obtain ⟨-, rfl⟩ := Prod.mk.inj (Except.ok.inj (hs.symm.trans hs'))
    exact hcontent
  · obtain ⟨r, hr, hspec⟩ := sendInLoop_spec hv hlen (error_bounded failure len)
    obtain rfl := Except.ok.inj (hs.symm.trans hr)
    rw [writeDirect, if_neg (by simpa using hdirect)] at hspec
    cases hspec with
    | direct => cases he
    | appended queued b hpos hvalid hcontent hmark =>
      obtain ⟨set, size, heq⟩ := hmark _ he
      cases heq

/-- Where no write fails, no message is given up. -/
theorem keptBy_eq (h : Unfailed tr) : keptBy tr = sentBy tr := by
  refine List.flatMap_congr fun x hx => if_neg fun hdropped => ?_
  obtain ⟨l, effects⟩ := x
  unfold Dropped at hdropped
  split at hdropped
  · next heq =>
    cases heq
    exact h _ hx _ _ hdropped.2.2
  · exact hdropped

/-! ### Every run -/

/-- **A fatal error stops a send only where there is nothing to send.** -/
theorem fatal_write_errors (h : calls.Run (new sockfd) tr c) :
    (∀ c data len failure, c.outputBuffer.Valid → c.outputBuffer.content = [] →
      c.channel.isWriting = false → len ≤ data.length →
      (Classifies c data len failure ↔ (Fatal failure.errno → len = 0) ∧
        (failure.errno = .EWOULDBLOCK → 0 < len ∧ ¬ Fatal failure.logged))) ∧
    ((∀ pre post u, tr = pre ++ post → calls.Run (new sockfd) pre u → Discards pre u) ↔
      ∀ tr₁ data len failure e tr₂,
        tr = tr₁ ++ (.output (.sendInLoop data len (.error failure)), e) :: tr₂ →
        .writeFailed (data.take len) failure.errno ∈ e → Fatal failure.errno → Unfailed tr₁ →
        len = 0) := by
  refine ⟨fun c data len failure => classifies_iff, ?_, ?_⟩
  · -- The state after the failure has the message pending, and nothing was sent since.
    rintro hall tr₁ data len failure e tr₂ rfl he hfatal hunfailed
    obtain ⟨u, hfirst, hrest⟩ := h.split
    have hu : Queued u := queued_run hfirst (queued_new sockfd)
    cases hrest with
    | @cons _ v _ _ _ _ hm hs hlast =>
      have hprefix := hall (tr₁ ++ [(.output (.sendInLoop data len (.error failure)), e)]) tr₂ v
        (by simp) (hfirst.snoc hm hs)
      obtain ⟨hsuffix, -⟩ := hprefix tr₁ data len failure e [] rfl he hfatal hunfailed
        (fun x hx => absurd hx List.not_mem_nil)
      have hnil : v.outputBuffer.content = [] := List.suffix_nil.mp hsuffix
      have hlen : len ≤ data.length := hm.1
      rw [failed_send hu.valid hlen hs he hfatal] at hnil
      exact (take_eq_nil hlen).mp hnil
  · rintro hempty pre post w rfl hpre tr₁ data len failure e tr₂ rfl he hfatal hunfailed hlater
    obtain rfl := hempty tr₁ data len failure e (tr₂ ++ post) (by simp) he hfatal hunfailed
    have hw : Queued w := queued_run hpre (queued_new sockfd)
    obtain ⟨u, hfirst, hrest⟩ := hpre.split
    have hu : Queued u := queued_run hfirst (queued_new sockfd)
    cases hrest with
    | @cons _ v _ _ _ _ hm hs hlast =>
      have hbytes := calls_account hlast (call_step hu hm hs).1
      rw [failed_send hu.valid hm.1 hs he hfatal, List.take_zero, List.nil_append,
        keptBy_eq hlater] at hbytes
      exact ⟨⟨_, hbytes⟩, hw.writing⟩

/-- A write of nothing fails; what is sent after it may still wait. -/
theorem fatal_write_errors_empty : ∃ tr c, calls.Run (new 5) tr c ∧
    tr.map Prod.snd = [[.connectionCallback], [.wrote [1, 2]], [.writeFailed [] .EPIPE], [.wrote []]] ∧
    c.outputBuffer.content = [3] ∧
    ∀ pre post u, tr = pre ++ post → calls.Run (new 5) pre u → Discards pre u := by
  obtain ⟨tr, c, h, hasked, heffects, hcontent⟩ := calls.exists_run_of_replay (s := new 5)
    (P := fun tr c => tr.map Prod.snd =
      [[.connectionCallback], [.wrote [1, 2]], [.writeFailed [] .EPIPE], [.wrote []]] ∧
      c.outputBuffer.content = [3])
    [.connectEstablished, .output (.sendInLoop [1, 2] 2 (.ok 2)),
      .output (.sendInLoop [] 0 (.error ⟨.EPIPE, .EPIPE⟩)), .output (.sendInLoop [3] 1 (.ok 0))]
    (by decide +kernel)
  refine ⟨tr, c, h, heffects, hcontent, (fatal_write_errors h).2.mpr ?_⟩
  rintro tr₁ data len failure e tr₂ rfl - - -
  have hmem : Call.output (.sendInLoop data len (.error failure)) ∈
      [.connectEstablished, .output (.sendInLoop [1, 2] 2 (.ok 2)),
        .output (.sendInLoop [] 0 (.error ⟨.EPIPE, .EPIPE⟩)), .output (.sendInLoop [3] 1 (.ok 0))] := by
    rw [← hasked]
    simp
  have hfields : data = [] ∧ len = 0 ∧ failure = ⟨.EPIPE, .EPIPE⟩ := by simpa using hmem
  exact hfields.2.1

/-- One byte is sent to a peer that is gone. It stays in the buffer, POLLOUT is asked for, and
every writable event finds the connection as the one before left it. -/
theorem fatal_write_errors_pending : ∃ tr c, calls.Run (new 5) tr c ∧
    tr = [(.connectEstablished, [.connectionCallback]),
      (.output (.sendInLoop [1] 1 (.error ⟨.EPIPE, .EPIPE⟩)), [.writeFailed [1] .EPIPE])] ∧
    c.outputBuffer.content = [1] ∧ c.channel.isWriting = true ∧
    ¬ Classifies (established 5) [1] 1 ⟨.EPIPE, .EPIPE⟩ ∧ ¬ Discards tr c ∧
    ∀ failure, c.handleWrite (.error failure) = .ok ([.writeFailed [1] failure.errno], c) := by
  obtain ⟨tr, c, h, hasked, heffects, hcontent, hwriting⟩ := calls.exists_run_of_replay
    (s := new 5)
    (P := fun tr c => tr.map Prod.snd = [[.connectionCallback], [.writeFailed [1] .EPIPE]] ∧
      c.outputBuffer.content = [1] ∧ c.channel.isWriting = true)
    [.connectEstablished, .output (.sendInLoop [1] 1 (.error ⟨.EPIPE, .EPIPE⟩))] (by decide +kernel)
  obtain rfl : tr = [(.connectEstablished, [.connectionCallback]),
      (.output (.sendInLoop [1] 1 (.error ⟨.EPIPE, .EPIPE⟩)), [.writeFailed [1] .EPIPE])] :=
    List.zip_of_prod hasked heffects
  refine ⟨_, c, h, rfl, hcontent, hwriting, ?_, fun hdiscards => ?_, fun failure => ?_⟩
  · rw [classifies_iff (stream_established 5).valid (by decide) (by decide) (by decide)]
    rintro ⟨hfatal, -⟩
    cases hfatal (.inl rfl)
  · obtain ⟨hsuffix, -⟩ := hdiscards [(.connectEstablished, [.connectionCallback])] [1] 1 ⟨.EPIPE, .EPIPE⟩ _
      [] rfl (by simp) (.inl rfl) (fun x hx => by simp_all) (fun x hx => absurd hx List.not_mem_nil)
    rw [hcontent] at hsuffix
    cases List.suffix_nil.mp hsuffix
  · rw [handleWrite, if_pos hwriting, hcontent]
    rfl

end Leanet.TcpConnection

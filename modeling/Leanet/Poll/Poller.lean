import Leanet.Foundation.Fault
import Leanet.Foundation.Machine
import Leanet.Foundation.Slots
import Leanet.Poll.Channel
import Std.Data.TreeMap.Lemmas
import Mathlib.Logic.Function.Basic
import Mathlib.Data.Fintype.Basic

/-! The poll(2) poller and its clients.

Channels are objects (`ι` names them, `channel` is their memory) that the poller knows
twice: by descriptor in `channels`, by position in `pollfds`. A channel without interest
keeps its slot with the descriptor negated, so that poll(2) passes over it. A step is one
public call of a channel, or one `poll` with what the kernel wrote back.

Registered channels have distinct descriptors, which are `int`s, so an `int` also counts
the slots. -/
namespace Leanet.Poller
open Slots (at? iterSwap)

structure PollFd where
  fd : Int
  events : BitVec 16
  revents : BitVec 16
  deriving DecidableEq, Repr

structure State (ι : Type) where
  pollfds : List PollFd
  channels : Std.TreeMap Int ι
  channel : ι → Channel
  /-- The clients' promise, not a field of the source: the objects already removed. -/
  removed : ι → Bool

variable {ι : Type} [DecidableEq ι]

def State.setChannel (s : State ι) (c : ι) (x : Channel) : State ι :=
  { s with channel := Function.update s.channel c x }

/-- A slot just written: what the channel waits for, nothing reported. -/
def PollFd.watch (fd : Int) (c : Channel) : PollFd := ⟨fd, c.interestedEvents.setWidth 16, 0⟩

def updateChannel (build : Build) (s : State ι) (c : ι) : Except Fault (State ι) := do
  let channel := s.channel c
  if channel.index < 0 then
    -- a new one, add this channel
    build.assert (s.channels[(channel.fd : Int)]?.isNone)
    let pfd := PollFd.watch channel.fd channel
    let idx : Int := s.pollfds.length
    let s := { s with pollfds := s.pollfds ++ [pfd] }
    let s := s.setChannel c (channel.setIndex idx)
    pure { s with channels := s.channels.insert pfd.fd c }
  else
    -- updating this channel
    build.assert (s.channels[(channel.fd : Int)]?.isSome)
    let pfd ← deref (at? s.pollfds channel.index)
    build.assert (pfd.fd = -channel.fd - 1)
    let pfd := PollFd.watch channel.fd channel
    -- ignore fd
    let pfd := if channel.isNoneEvent then { pfd with fd := -pfd.fd - 1 } else pfd
    pure { s with pollfds := s.pollfds.set channel.index.toNat pfd }

def removeChannel (build : Build) (s : State ι) (c : ι) : Except Fault (State ι) := do
  let channel := s.channel c
  build.assert (s.channels[(channel.fd : Int)]?.isSome)
  build.assert (s.channels[(channel.fd : Int)]? = some c)
  build.assert (channel.isNoneEvent)
  let idx := channel.index
  build.assert (0 ≤ idx ∧ idx < s.pollfds.length)
  let pfd ← deref (at? s.pollfds idx)
  build.assert (pfd.fd = -channel.fd - 1 ∧ pfd.events.signExtend 32 = channel.interestedEvents)
  build.assert ((channel.fd : Int) ∈ s.channels)
  let s := { s with channels := s.channels.erase (channel.fd : Int) }
  if idx.toNat = s.pollfds.length - 1 then
    pure { s with pollfds := s.pollfds.dropLast }
  else
    let last ← deref s.pollfds.getLast?
    let lastChannelFd := if last.fd < 0 then -last.fd - 1 else last.fd
    let s := { s with pollfds := iterSwap s.pollfds idx.toNat (s.pollfds.length - 1) }
    let d ← deref s.channels[lastChannelFd]?
    let s := s.setChannel d ((s.channel d).setIndex idx)
    pure { s with pollfds := s.pollfds.dropLast }

/-- The scan of `pollfds_` from an iterator on, with `numEvents` still to be found. -/
def fillActiveChannels (channels : Std.TreeMap Int ι) :
    List PollFd → Int → (ι → Channel) → List ι × (ι → Channel)
  | [], _, heap => ([], heap)
  | pfd :: rest, numEvents, heap =>
    if 0 < numEvents then
      if 0 < pfd.revents.toInt then
        match channels[pfd.fd]? with
        | some c =>
          let (active, heap) := fillActiveChannels channels rest (numEvents - 1)
            (Function.update heap c ((heap c).setReceivedEvents (pfd.revents.signExtend 32)))
          (c :: active, heap)
        | none => fillActiveChannels channels rest (numEvents - 1) heap
      else fillActiveChannels channels rest numEvents heap
    else ([], heap)

/-- `poll`: the slots as the kernel left them, or an error. -/
def poll (s : State ι) : Option (List PollFd) → List ι × State ι
  | some pollfds =>
    let nready := pollfds.countP (·.revents ≠ 0)
    let s := { s with pollfds }
    if 0 < nready then
      let (active, channel) := fillActiveChannels s.channels s.pollfds nready s.channel
      (active, { s with channel })
    else ([], s)
  | none => ([], s)

/-! ### The clients -/

/-- What poll(2) may write into a slot: nothing for an ignored one, else flags, none of
which is the sign bit of the `short`. -/
def Answers (asked answered : PollFd) : Prop :=
  answered.fd = asked.fd ∧ answered.events = asked.events ∧
    (asked.fd < 0 → answered.revents = 0) ∧ 0 ≤ answered.revents.toInt

instance (a b : PollFd) : Decidable (Answers a b) := inferInstanceAs (Decidable (_ ∧ _))

/-- A public call. -/
inductive Call (ι : Type) where
  | update (i : Channel.Interest) (c : ι)
  | remove (c : ι)
  | poll (answer : Option (List PollFd))

/-- A channel has been updated and not been removed since. -/
def State.Registered (s : State ι) (c : ι) : Prop :=
  0 ≤ (s.channel c).index ∧ s.removed c = false

/-- Channels with distinct descriptors, removed without interest and for good. -/
def may (s : State ι) : Call ι → Prop
  | .update _ c => s.removed c = false ∧
    ∀ d, s.Registered d → (s.channel d).fd = (s.channel c).fd → d = c
  | .remove c => s.Registered c ∧ (s.channel c).isNoneEvent = true
  | .poll (some pollfds) => s.pollfds.Forall₂ Answers pollfds
  | .poll none => True

/-- The channels `poll` found active, and the next state. -/
def step (build : Build) (s : State ι) : Call ι → Except Fault (List ι × State ι)
  | .update i c => do
    let s ← updateChannel build (s.setChannel c ((s.channel c).setInterest i)) c
    pure ([], s)
  | .remove c => do
    build.assert ((s.channel c).isNoneEvent)
    let s ← removeChannel build s c
    pure ([], { s with removed := Function.update s.removed c true })
  | .poll answer => pure (poll s answer)

def machine (ι : Type) [DecidableEq ι] (build : Build) :
    Machine (State ι) (Call ι) (List ι) Fault where
  may := may
  step := step build

/-- An empty poller and fresh channels on the given descriptors. -/
def initial (fd : ι → Nat) : State ι where
  pollfds := []
  channels := ∅
  channel c := .new (fd c)
  removed _ := false

instance (s : State ι) (c : ι) : Decidable (s.Registered c) := inferInstanceAs (Decidable (_ ∧ _))

instance [Fintype ι] (build : Build) (s : State ι) :
    (l : Call ι) → Decidable ((machine ι build).may s l)
  | .update _ _ | .remove _ => inferInstanceAs (Decidable (_ ∧ _))
  | .poll (some _) => inferInstanceAs (Decidable (List.Forall₂ _ _ _))
  | .poll none => inferInstanceAs (Decidable True)

end Leanet.Poller

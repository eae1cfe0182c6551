import Mathlib.Data.List.Basic

/-! A selectable channel: a descriptor, what it waits for, what poll(2) reported.

The masks are those of `<poll.h>` on Linux. A descriptor was opened, so it is a natural
number; `index` is the channel's slot in the poller, negative before the first update
and left as it is by a removal. -/
namespace Leanet

def POLLIN : BitVec 32 := 0x1
def POLLPRI : BitVec 32 := 0x2
def POLLOUT : BitVec 32 := 0x4
def POLLERR : BitVec 32 := 0x8
def POLLHUP : BitVec 32 := 0x10
def POLLNVAL : BitVec 32 := 0x20

structure Channel where
  fd : Nat
  interestedEvents : BitVec 32
  receivedEvents : BitVec 32
  index : Int
  deriving DecidableEq, Repr

/-- What `handleEvent` calls. -/
inductive Callback where
  | close
  | error
  | read
  | write
  deriving DecidableEq, Repr

namespace Channel

def kNoneEvent : BitVec 32 := 0
def kReadEvent : BitVec 32 := POLLIN ||| POLLPRI
def kWriteEvent : BitVec 32 := POLLOUT

/-- `Channel(loop, fd)`. -/
def new (fd : Nat) : Channel := ⟨fd, kNoneEvent, kNoneEvent, -1⟩

def setReceivedEvents (c : Channel) (revents : BitVec 32) : Channel :=
  { c with receivedEvents := revents }

def setIndex (c : Channel) (idx : Int) : Channel := { c with index := idx }

def isNoneEvent (c : Channel) : Bool := c.interestedEvents == kNoneEvent

def isWriting (c : Channel) : Bool := c.interestedEvents &&& kWriteEvent != 0

/-- The callbacks of `handleEvent`, in the order it tries them. -/
def handleEvent (c : Channel) : List Callback :=
  let has (mask : BitVec 32) : Bool := c.receivedEvents &&& mask != 0
  (if has POLLHUP && !has POLLIN then [.close] else []) ++
  (if has (POLLERR ||| POLLNVAL) then [.error] else []) ++
  (if has (POLLIN ||| POLLPRI) then [.read] else []) ++
  (if has POLLOUT then [.write] else [])

/-! ### Interests

The public functions that change the interest change nothing else and then `update`. -/

inductive Interest where
  | enableReading
  | enableWriting
  | disableWriting
  | disableAll
  deriving DecidableEq, Repr

def Interest.apply (i : Interest) (events : BitVec 32) : BitVec 32 :=
  match i with
  | .enableReading => events ||| kReadEvent
  | .enableWriting => events ||| kWriteEvent
  | .disableWriting => events &&& ~~~kWriteEvent
  | .disableAll => kNoneEvent

def setInterest (c : Channel) (i : Interest) : Channel :=
  { c with interestedEvents := i.apply c.interestedEvents }

/-- Only reading and writing are ever asked for. -/
def Plain (events : BitVec 32) : Prop :=
  events = kNoneEvent ∨ events = kReadEvent ∨ events = kWriteEvent ∨
    events = kReadEvent ||| kWriteEvent

theorem plain_none : Plain kNoneEvent := .inl rfl

theorem Plain.apply {events : BitVec 32} (h : Plain events) (i : Interest) :
    Plain (i.apply events) := by
  rcases h with rfl | rfl | rfl | rfl <;> cases i <;> simp [Plain] <;> decide

/-- The cast to `short` of a pollfd loses nothing. -/
theorem Plain.toInt_setWidth {events : BitVec 32} (h : Plain events) :
    (events.setWidth 16).toInt = events.toInt := by
  rcases h with rfl | rfl | rfl | rfl <;> decide

@[simp] theorem isNoneEvent_iff {c : Channel} : c.isNoneEvent = true ↔ c.interestedEvents = 0 := by
  simp [isNoneEvent, kNoneEvent]

/-! ### Write interest -/

@[simp] theorem isWriting_enableWriting (c : Channel) :
    (c.setInterest .enableWriting).isWriting = true := by
  have h : (c.interestedEvents ||| kWriteEvent) &&& kWriteEvent = kWriteEvent := by
    ext i
    simp only [BitVec.getElem_and, BitVec.getElem_or]
    cases kWriteEvent[i] <;> simp
  simp only [isWriting, setInterest, Interest.apply, h]
  decide

@[simp] theorem isWriting_disableWriting (c : Channel) :
    (c.setInterest .disableWriting).isWriting = false := by
  have h : c.interestedEvents &&& ~~~kWriteEvent &&& kWriteEvent = 0 := by
    rw [BitVec.and_assoc, BitVec.not_and_self]
    exact BitVec.and_zero
  simp [isWriting, setInterest, Interest.apply, h]

@[simp] theorem isWriting_disableAll (c : Channel) :
    (c.setInterest .disableAll).isWriting = false := by
  simp [isWriting, setInterest, Interest.apply, kNoneEvent]

@[simp] theorem isWriting_enableReading (c : Channel) :
    (c.setInterest .enableReading).isWriting = c.isWriting := by
  have h : (c.interestedEvents ||| kReadEvent) &&& kWriteEvent =
      c.interestedEvents &&& kWriteEvent := by
    have hdisjoint : kReadEvent &&& kWriteEvent = 0#32 := by decide
    rw [BitVec.and_comm, BitVec.and_or_distrib_left, BitVec.and_comm kWriteEvent kReadEvent,
      hdisjoint, BitVec.or_zero, BitVec.and_comm]
  simp only [isWriting, setInterest, Interest.apply, h]

end Channel
end Leanet

import Leanet.Foundation.Fault
import Leanet.Foundation.LowerBound
import Leanet.Time.Libc

/-! A time zone: its types of local time and the instants at which it switches.

A transition is listed under two keys, the instant and what the local clock shows then.
`toLocalTime` looks an instant up by the first, `fromLocalTime` a local time by the second,
both by one binary search (`findLocaltime`). Vectors and strings are indexed as the source
indexes them, so that an index out of range is a fault. -/
namespace Leanet
open LowerBound (lowerBound)

structure Transition where
  gmtime : Int
  localtime : Int
  localtimeIdx : Nat
  deriving DecidableEq, Repr

structure Localtime where
  gmtOffset : Int
  isDst : Bool
  arrbIdx : Nat
  deriving DecidableEq, Repr

/-- Compares transitions by the one key or the other. -/
structure Comp where
  compareGmt : Bool

def Comp.less (comp : Comp) (lhs rhs : Transition) : Bool :=
  if comp.compareGmt then lhs.gmtime < rhs.gmtime else lhs.localtime < rhs.localtime

def Comp.equal (comp : Comp) (lhs rhs : Transition) : Bool :=
  if comp.compareGmt then lhs.gmtime == rhs.gmtime else lhs.localtime == rhs.localtime

/-- `TimeZone::Data`. -/
structure Data where
  transitions : List Transition
  localtimes : List Localtime
  abbreviation : List UInt8
  deriving DecidableEq, Repr

structure TimeZone where
  data : Option Data
  deriving DecidableEq, Repr

/-- The string that `&s[i]` points to. -/
def cstring (s : List UInt8) (i : Nat) : Option (List UInt8) :=
  if i ≤ s.length then some ((s.drop i).takeWhile (· ≠ 0)) else none

def findLocaltime (data : Data) (sentry : Transition) (comp : Comp) : Except Fault Localtime :=
  match data.transitions.head? with
  | none => deref data.localtimes.head?
  | some front =>
    if comp.less sentry front then deref data.localtimes.head?
    else
      let iter := lowerBound data.transitions fun t => comp.less t sentry
      match data.transitions[iter]? with
      | some t =>
        if !comp.equal sentry t then do
          assert (iter ≠ 0)
          let t ← deref data.transitions[iter - 1]?
          deref data.localtimes[t.localtimeIdx]?
        else deref data.localtimes[t.localtimeIdx]?
      | none => do
        let back ← deref data.transitions.getLast?
        deref data.localtimes[back.localtimeIdx]?

namespace TimeZone

/-- `TimeZone(eastOfUTC, name)`. -/
def fixed (eastOfUTC : Int) (name : List UInt8) : TimeZone where
  data := some {
    transitions := []
    localtimes := [⟨eastOfUTC, false, 0⟩]
    abbreviation := name }

def valid (tz : TimeZone) : Bool := tz.data.isSome

def toLocalTime (libc : Libc) (tz : TimeZone) (seconds : Int) : Except Fault Tm := do
  assert (tz.data ≠ none)
  let data ← deref tz.data
  let sentry := ⟨seconds, 0, 0⟩
  let local_ ← findLocaltime data sentry ⟨true⟩
  let localSeconds := seconds + local_.gmtOffset
  let localTime := (libc.gmtime_r localSeconds).getD .zero
  let zone ← deref (cstring data.abbreviation local_.arrbIdx)
  pure { localTime with
    tm_isdst := if local_.isDst then 1 else 0
    tm_gmtoff := local_.gmtOffset
    tm_zone := zone }

def fromLocalTime (libc : Libc) (tz : TimeZone) (localTm : Tm) : Except Fault Int := do
  assert (tz.data ≠ none)
  let data ← deref tz.data
  let seconds := libc.mktime localTm
  let sentry := ⟨0, seconds, 0⟩
  let local_ ← findLocaltime data sentry ⟨false⟩
  if localTm.tm_isdst ≠ 0 then
    let tryTm ← toLocalTime libc tz (seconds - local_.gmtOffset)
    if tryTm.tm_isdst = 0 ∧ tryTm.tm_hour = localTm.tm_hour ∧ tryTm.tm_min = localTm.tm_min then
      pure (seconds - 3600 - local_.gmtOffset)
    else pure (seconds - local_.gmtOffset)
  else pure (seconds - local_.gmtOffset)

end TimeZone
end Leanet

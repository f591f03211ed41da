import AuthCore.Time.Calendar

/-!
Moments in time, to the nanosecond. A moment inside a leap second is counted in the last second
of its minute with a fraction of one second or more.
-/

set_option autoImplicit false

namespace AuthCore.Time

def nanosPerSecond : Nat := 1000000000

def secondsPerDay : Nat := 86400

/-- `seconds` counts from 1970-01-01T00:00:00Z. -/
structure Instant where
  seconds : Int
  nanos : Nat
deriving DecidableEq

namespace Instant

def firstSecond : Int := (Date.toDays ⟨-262143, 1, 1⟩) * secondsPerDay

def lastSecond : Int := (Date.toDays ⟨262142, 12, 31⟩) * secondsPerDay + secondsPerDay - 1

/-- The years that can be told apart. -/
def inRange (seconds : Int) : Bool :=
  decide (firstSecond ≤ seconds) && decide (seconds ≤ lastSecond)

def ofSeconds? (seconds : Int) : Option Instant :=
  if inRange seconds then some ⟨seconds, 0⟩ else none

def le (a b : Instant) : Bool :=
  decide (a.seconds < b.seconds) || (a.seconds == b.seconds && decide (a.nanos ≤ b.nanos))

def dayOf (a : Instant) : Int := a.seconds / secondsPerDay

def secondOfDay (a : Instant) : Nat := (a.seconds % secondsPerDay).toNat

/-- The leap second that lies between `b` and `a` by their times of day. -/
def leapBetween (a b : Instant) : Int :=
  if b.secondOfDay < a.secondOfDay then if nanosPerSecond ≤ b.nanos then 1 else 0
  else if a.secondOfDay < b.secondOfDay then if nanosPerSecond ≤ a.nanos then -1 else 0
  else 0

def since (a b : Instant) : Int :=
  (a.seconds - b.seconds + a.leapBetween b) * nanosPerSecond + (a.nanos - b.nanos)

def addSeconds (a : Instant) (n : Int) : Instant := { a with seconds := a.seconds + n }

def addNanos (a : Instant) (n : Nat) : Instant :=
  let total := a.nanos + n
  ⟨a.seconds + (total / nanosPerSecond : Nat), total % nanosPerSecond⟩

/-- Nanoseconds since 1970-01-01T00:00:00Z. -/
def toNanos (a : Instant) : Int := a.seconds * nanosPerSecond + a.nanos

def ofNanos (n : Int) : Instant :=
  ⟨n / nanosPerSecond, (n % nanosPerSecond).toNat⟩

end Instant

end AuthCore.Time

/-!
# Moments

A moment of the wall clock with nanoseconds. A leap second is the second before
it gone on for up to another second, as clocks that know of leap seconds have
it. Differences are whole nanoseconds.
-/

namespace LeaseQueue

def nanosPerSecond : Nat := 1000000000

def nanosPerMilli : Nat := 1000000

def secondsPerDay : Nat := 86400

/-- A moment: seconds since 1970-01-01T00:00:00Z and nanoseconds in the second, from a thousand
million on within a leap second. -/
structure Timestamp where
  /-- Whole seconds since the epoch. -/
  seconds : Int
  /-- Nanoseconds since that second. -/
  nanos : Nat
deriving Repr, DecidableEq

namespace Timestamp

def ofNanos (n : Nat) : Timestamp :=
  ⟨n / nanosPerSecond, n % nanosPerSecond⟩

def isLeap (t : Timestamp) : Bool := nanosPerSecond ≤ t.nanos

def before (t s : Timestamp) : Bool :=
  t.seconds < s.seconds || (t.seconds = s.seconds && t.nanos < s.nanos)

def later (t s : Timestamp) : Timestamp := if t.before s then s else t

def secondOfDay (t : Timestamp) : Int := t.seconds % secondsPerDay

/-- The leap second that lies between two moments, seen in the seconds of their days: one if the
later of them comes after it, with the sign of the difference. -/
def leapBetween (t s : Timestamp) : Int :=
  if s.secondOfDay < t.secondOfDay && s.isLeap then 1
  else if t.secondOfDay < s.secondOfDay && t.isLeap then -1
  else 0

def since (t s : Timestamp) : Int :=
  (t.seconds - s.seconds + leapBetween t s) * nanosPerSecond + ((t.nanos : Int) - s.nanos)

def millis (t : Timestamp) : Int :=
  t.seconds * 1000 + t.nanos / nanosPerMilli

def micros (t : Timestamp) : Int :=
  t.seconds * 1000000 + t.nanos / 1000

end Timestamp

/-- The later of two moments that may be unset; an unset one comes before every other. -/
def laterOf : Option Timestamp → Option Timestamp → Option Timestamp
  | none, b => b
  | a, none => a
  | some a, some b => some (a.later b)

/-- A reading of the clocks: the wall clock, and nanoseconds of the one that never goes back. -/
structure Reading where
  wall : Timestamp
  ticks : Nat
deriving Repr, DecidableEq

/-- A reading when both clocks have run for some nanoseconds since the epoch. -/
def Reading.ofNanos (n : Nat) : Reading := ⟨.ofNanos n, n⟩

end LeaseQueue

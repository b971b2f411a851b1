import UsageBilling.Instant.Calendar

/-!
Contract: instants of universal time to the nanosecond, and moving along them.

Owns:
- the instant type, whose bounds hold by construction; a leap second is the
  second billionth of nanoseconds of the second before it;
- the order of instants;
- the whole second an instant lies in, counted from the epoch;
- shifting by whole seconds, and the whole seconds between two instants.

Does not own: text. A shift off the timeline has no result; what that means is
left to callers.
-/

namespace UsageBilling

def secondsPerDay : Int := 86400

def nanosPerSecond : Nat := 1000000000

/-- An instant: a day of the calendar, a second of that day, and nanoseconds.
From `nanosPerSecond` nanoseconds on, the instant lies in the leap second that
follows its second. -/
structure Instant where
  day : Int
  second : Nat
  nanos : Nat
  day_ge : Calendar.firstDay ≤ day
  day_le : day ≤ Calendar.lastDay
  second_lt : second < 86400
  nanos_lt : nanos < 2000000000
deriving DecidableEq, Repr

namespace Instant

/-- The instant of the given parts, if they are within bounds. -/
def ofParts? (day : Int) (second nanos : Nat) : Option Instant :=
  if within : Calendar.firstDay ≤ day ∧ day ≤ Calendar.lastDay ∧
      second < 86400 ∧ nanos < 2000000000 then
    some ⟨day, second, nanos, within.1, within.2.1, within.2.2.1, within.2.2.2⟩
  else none

/-- The whole second an instant lies in, counted from the epoch. A leap second
counts as the second before it. -/
def timestamp (t : Instant) : Int :=
  t.day * secondsPerDay + t.second

/-- The instant that begins the given second from the epoch. -/
def ofTimestamp? (seconds : Int) (nanos : Nat) : Option Instant :=
  ofParts? (seconds / secondsPerDay) (seconds % secondsPerDay).toNat nanos

/-- The place of an instant among all instants, leap seconds included. -/
def position (t : Instant) : Int :=
  t.timestamp * 2000000000 + t.nanos

instance : LE Instant :=
  ⟨fun a b => a.position ≤ b.position⟩

instance : LT Instant :=
  ⟨fun a b => a.position < b.position⟩

instance (a b : Instant) : Decidable (a ≤ b) :=
  inferInstanceAs (Decidable (a.position ≤ b.position))

instance (a b : Instant) : Decidable (a < b) :=
  inferInstanceAs (Decidable (a.position < b.position))

def compare (a b : Instant) : Ordering :=
  Ord.compare a.position b.position

def isLeap (t : Instant) : Bool :=
  nanosPerSecond ≤ t.nanos

/-- The beginning of the second an instant lies in. -/
def wholeSecond (t : Instant) : Instant :=
  { t with nanos := 0, nanos_lt := by decide }

/-- The instant a number of seconds later, if it is on the timeline. Leaving a
leap second forward skips it; leaving it backward counts it. -/
def shift? (t : Instant) (seconds : Int) : Option Instant :=
  if t.isLeap then
    if seconds = 0 then some t
    else
      let counted := if 0 < seconds then seconds else seconds + 1
      ofTimestamp? (t.timestamp + counted) (t.nanos - nanosPerSecond)
  else ofTimestamp? (t.timestamp + seconds) t.nanos

/-- The leap second that lies between the times of day of two instants, counted
with the sign of their difference. -/
def leapBetween (later earlier : Instant) : Int :=
  if earlier.second < later.second && earlier.isLeap then 1
  else if later.second < earlier.second && later.isLeap then -1
  else 0

def nanosSince (later earlier : Instant) : Int :=
  (later.timestamp - earlier.timestamp + leapBetween later earlier) * nanosPerSecond +
    ((later.nanos : Int) - earlier.nanos)

/-- The whole seconds from one instant to another, toward zero. -/
def secondsSince (later earlier : Instant) : Int :=
  Int.tdiv (later.nanosSince earlier) nanosPerSecond

end Instant

end UsageBilling

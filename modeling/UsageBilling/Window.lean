import UsageBilling.Failure

/-!
Contract: windows of equal width on the timeline, anchored to the epoch.

Owns:
- the window an instant lies in;
- the bounds of a window, its neighbours, and membership of an instant;
- the windows that begin before a given instant;
- the order of windows.

Does not own: the choice of a width. A window read from a document may have any
start and width; one made here starts at a multiple of its width.
-/

namespace UsageBilling

/-- The window of `width` seconds that begins at `start`. -/
structure Window where
  start : Instant
  width : Int
deriving DecidableEq, Repr

namespace Window

def hourWidth : Int := 3600

/-- The window of the given width around an instant: its start is the last
multiple of the width, counted from the epoch, that is not after the instant. -/
def around (t : Instant) (width : Int) : Outcome Window := do
  let start ← Outcome.orAbort .instant (t.wholeSecond.shift? (-(t.timestamp % width)))
  pure ⟨start, width⟩

/-- The window of a width around an instant; the width must be positive. -/
def ofWidth (t : Instant) (width : Int) : Outcome Window :=
  if width ≤ 0 then Outcome.report (.request (.nonPositiveWidth width)) else around t width

def hourly (t : Instant) : Outcome Window :=
  around t hourWidth

def shifted (w : Window) (seconds : Int) : Outcome Instant :=
  Outcome.orAbort .instant (w.start.shift? seconds)

def stop (w : Window) : Outcome Instant :=
  w.shifted w.width

def bounds (w : Window) : Outcome (Instant × Instant) := do
  pure (w.start, ← w.stop)

def next (w : Window) : Outcome Window := do
  pure { w with start := ← w.stop }

def previous (w : Window) : Outcome Window := do
  pure { w with start := ← w.shifted (-w.width) }

/-- Whether an instant lies in the window. The end is looked at only for
instants that are not before the start. -/
def contains (w : Window) (t : Instant) : Outcome Bool :=
  if t < w.start then pure false
  else do
    let stop ← w.stop
    pure (decide (t < stop))

/-- The windows from the given one on that start before `bound`. Each of them,
the first one left out included, must have a successor on the timeline. -/
def startingBefore (bound : Instant) : Nat → Window → Outcome (List Window)
  | 0, _ => .error (.aborted .instant)
  | steps + 1, w => do
    let following ← w.next
    if w.start < bound then
      pure (w :: (← startingBefore bound steps following))
    else pure []

/-- A number of windows that is enough to pass `bound`. Windows of a width that
is not positive never pass it. -/
def stepBound (w : Window) (bound : Instant) : Nat :=
  if 0 < w.width then ((bound.timestamp - w.start.timestamp) / w.width).toNat + 3
  else 1

/-- The consecutive windows, beginning with this one, that start before
`bound`. -/
def windowsBefore (w : Window) (bound : Instant) : Outcome (List Window) :=
  startingBefore bound (w.stepBound bound) w

def compare (a b : Window) : Ordering :=
  (a.start.compare b.start).then (Ord.compare a.width b.width)

def toText (w : Window) : String :=
  w.start.toOffsetText

end Window

end UsageBilling

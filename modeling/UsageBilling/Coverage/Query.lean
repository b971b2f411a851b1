import UsageBilling.Coverage.Basic

/-!
Contract: the part of weighted coverage that lies in a range.

Owns:
- the segments clipped to a range.

Does not own: the totals of the clipped segments, which are those of any list
of segments.
-/

namespace UsageBilling

/-- The part of a segment between two points. -/
def Segment.clip (s : Segment) (low high : Int) : Segment :=
  ⟨max s.first low, min s.last high, s.weight⟩

namespace Coverage

/-- The stored segments between two points, both included, cut off at them. -/
def inRange (c : Coverage) (low high : Int) : List Segment :=
  if high < low then []
  else
    let reaching := c.segments.dropWhile fun s => s.last < low
    (reaching.takeWhile fun s => s.first ≤ high).map fun s => s.clip low high

end Coverage

end UsageBilling

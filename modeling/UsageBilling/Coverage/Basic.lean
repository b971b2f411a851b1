import UsageBilling.Failure

/-!
Contract: weighted coverage of a line of whole numbers.

Owns:
- segments of consecutive points that carry one weight;
- coverage: segments in ascending order, and the largest gap that merging may
  bridge;
- the weight of a point, the stored ends, and totals of points and weights;
- the condition that a well-kept coverage meets.

Does not own: insertion, queries of a part of the line, or text.
-/

namespace UsageBilling

/-- The points from `first` to `last`, both included, with one weight. -/
structure Segment where
  first : Int
  last : Int
  weight : Int
deriving DecidableEq, Repr

namespace Segment

def length (s : Segment) : Int :=
  s.last - s.first + 1

def holds (s : Segment) (point : Int) : Bool :=
  s.first ≤ point && point ≤ s.last

def gapTo (s next : Segment) : Int :=
  next.first - s.last

/-- Whether two neighbours become one segment: equal weights, and a gap that is
not wider than the deviation. -/
def joins (deviation : Nat) (s next : Segment) : Bool :=
  s.weight == next.weight && s.gapTo next ≤ deviation

end Segment

/-- Weighted coverage of a line. Equal weights whose gap is at most `deviation`
count as one segment. -/
structure Coverage where
  deviation : Nat
  segments : List Segment
deriving DecidableEq, Repr

namespace Coverage

/-- The weight of usage that is only counted. -/
def unitWeight : Int := 1

def empty (deviation : Nat) : Coverage :=
  ⟨deviation, []⟩

def size (c : Coverage) : Nat :=
  c.segments.length

def isEmpty (c : Coverage) : Bool :=
  c.segments.isEmpty

/-- The weight of a point, if it is covered. -/
def weightAt? (c : Coverage) (point : Int) : Option Int :=
  (c.segments.find? fun s => s.holds point).map Segment.weight

/-- The ends of all segments in ascending order. -/
def edges (c : Coverage) : List Int :=
  c.segments.flatMap fun s => [s.first, s.last]

def totalLength (segments : List Segment) : Int :=
  segments.foldr (fun s total => s.length + total) 0

def totalWeight (segments : List Segment) : Int :=
  segments.foldr (fun s total => s.length * s.weight + total) 0

def length (c : Coverage) : Int :=
  totalLength c.segments

def weight (c : Coverage) : Int :=
  totalWeight c.segments

/-- Whether one segment may stand directly before another: it ends before the
other begins, and the two need not be joined. -/
def Separated (deviation : Nat) (s next : Segment) : Prop :=
  s.last < next.first ∧ (s.weight = next.weight → (deviation : Int) < s.gapTo next)

/-- Segments are not empty, and each is separated from the one after it. -/
def WellKept (deviation : Nat) : List Segment → Prop
  | [] => True
  | [s] => s.first ≤ s.last
  | s :: next :: rest =>
    s.first ≤ s.last ∧ Separated deviation s next ∧ WellKept deviation (next :: rest)

end Coverage

end UsageBilling

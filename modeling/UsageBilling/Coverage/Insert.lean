import UsageBilling.Coverage.Basic

/-!
Contract: insertion of a range into weighted coverage.

Owns:
- painting a range over what is covered: overlapped segments of another weight
  keep only what lies outside, those of the same weight are absorbed;
- joining the painted segment with neighbours of its weight;
- the refusal of ranges that end before they begin.

Insertion works at a cursor: the painted segment in focus, with the segments
before and after it, each list nearest first. One `mergePass` looks at both
neighbours once; passes repeat until one changes nothing.

Does not own: what the points and weights stand for.
-/

namespace UsageBilling.Coverage

/-- A segment in focus and its surroundings, nearest first on both sides. -/
structure Cursor where
  before : List Segment
  focus : Segment
  after : List Segment
deriving DecidableEq, Repr

namespace Cursor

def toList (cursor : Cursor) : List Segment :=
  cursor.before.reverse ++ cursor.focus :: cursor.after

def neighbours (cursor : Cursor) : Nat :=
  cursor.before.length + cursor.after.length

/-- Join the focus with the segment before it, if the two join. -/
def joinBefore (deviation : Nat) (cursor : Cursor) : Cursor :=
  match cursor.before with
  | [] => cursor
  | near :: far =>
    if near.joins deviation cursor.focus then
      { cursor with
        before := far
        focus := { near with last := max near.last cursor.focus.last } }
    else cursor

/-- Join the focus with the segment after it, if the two join. -/
def joinAfter (deviation : Nat) (cursor : Cursor) : Cursor :=
  match cursor.after with
  | [] => cursor
  | near :: far =>
    if cursor.focus.joins deviation near then
      { cursor with
        focus := { cursor.focus with last := max cursor.focus.last near.last }
        after := far }
    else cursor

/-- One pass: the neighbour before, then the neighbour after. -/
def mergePass (deviation : Nat) (cursor : Cursor) : Cursor :=
  (cursor.joinBefore deviation).joinAfter deviation

/-- Repeat passes for as long as they take neighbours away, but at most a given
number of times. -/
def mergePasses (deviation : Nat) : Nat → Cursor → Cursor
  | 0, cursor => cursor
  | more + 1, cursor =>
    let passed := cursor.mergePass deviation
    if passed.neighbours < cursor.neighbours then mergePasses deviation more passed else passed

/-- Join the focus with its surroundings until a pass changes nothing. Each pass
but the last takes a neighbour away, which bounds their number. -/
def coalesce (deviation : Nat) (cursor : Cursor) : Cursor :=
  mergePasses deviation (cursor.neighbours + 1) cursor

end Cursor

def entirelyBefore (range : Segment) (segments : List Segment) : List Segment :=
  segments.takeWhile fun s => s.last < range.first

/-- The segments that the range overlaps, given those that do not end before
it begins. -/
def overlapped (range : Segment) (segments : List Segment) : List Segment :=
  segments.takeWhile fun s => s.first ≤ range.last

/-- The range, grown to the start of the first overlapped segment and to the
end of the last one where these carry its weight. -/
def absorb (range : Segment) (hit : List Segment) : Segment :=
  let first := match hit.head? with
    | some s => if s.weight = range.weight then min range.first s.first else range.first
    | none => range.first
  let last := match hit.getLast? with
    | some s => if s.weight = range.weight then max range.last s.last else range.last
    | none => range.last
  ⟨first, last, range.weight⟩

/-- What is left of the first overlapped segment before the range, if it
carries another weight. -/
def remainderBefore (range : Segment) (hit : List Segment) : List Segment :=
  match hit.head? with
  | some s =>
    if s.weight ≠ range.weight ∧ s.first < range.first then [⟨s.first, range.first - 1, s.weight⟩]
    else []
  | none => []

/-- What is left of the last overlapped segment after the range, if it carries
another weight. -/
def remainderAfter (range : Segment) (hit : List Segment) : List Segment :=
  match hit.getLast? with
  | some s =>
    if s.weight ≠ range.weight ∧ range.last < s.last then [⟨range.last + 1, s.last, s.weight⟩]
    else []
  | none => []

/-- The cursor at the range once it has been painted over the segments. -/
def paint (range : Segment) (segments : List Segment) : Cursor :=
  let before := entirelyBefore range segments
  let rest := segments.drop before.length
  let hit := overlapped range rest
  ⟨(before ++ remainderBefore range hit).reverse, absorb range hit,
    remainderAfter range hit ++ rest.drop hit.length⟩

/-- Insert a range that does not end before it begins. -/
def insertSegment (c : Coverage) (range : Segment) : Coverage :=
  { c with segments := ((paint range c.segments).coalesce c.deviation).toList }

def insert (c : Coverage) (first last weight : Int) : Except BillingError Coverage :=
  if last < first then .error (.invertedRange first last)
  else .ok (c.insertSegment ⟨first, last, weight⟩)

end UsageBilling.Coverage

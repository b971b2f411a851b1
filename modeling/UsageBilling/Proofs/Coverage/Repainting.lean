import UsageBilling.Proofs.Coverage.Calls

/-!
Contract: an insertion as a repainting of points.

Owns:
- the weights of points with a range painted over them;
- the points an insertion gives weights to: the painted ones, and those of an
  uncovered stretch that is not wider than the deviation and lies between two
  points of one weight;
- the same for deviations below two, where the painted points are all.

Does not own: how segments represent the weights.
-/

namespace UsageBilling.Coverage

variable {c : Coverage} {range : Segment} {deviation : Nat} {colour colour' : Int → Option Int}

/-- The weights of points once a range is painted over them. -/
def paintedOver (range : Segment) (colour : Int → Option Int) (point : Int) : Option Int :=
  if range.first ≤ point ∧ point ≤ range.last then some range.weight else colour point

/-- The nearest points on both sides of an uncovered point that may be covered:
nothing between them is. -/
structure NearestAround (colour : Int → Option Int) (before point after : Int) : Prop where
  lower : before < point
  upper : point < after
  uncovered : ∀ between, before < between → between < after → colour between = none

/-- Whether weights are those of a painting: a painted point keeps its weight, and
an unpainted one has a weight exactly if its nearest neighbours have that weight
and are not farther from each other than the deviation. -/
structure Repaints (deviation : Nat) (range : Segment) (colour colour' : Int → Option Int) :
    Prop where
  painted : ∀ point weight, paintedOver range colour point = some weight →
    colour' point = some weight
  bridged : ∀ point weight, paintedOver range colour point = none →
    (colour' point = some weight ↔
      ∃ before after, NearestAround (paintedOver range colour) before point after ∧
        paintedOver range colour before = some weight ∧
        paintedOver range colour after = some weight ∧ after - before ≤ deviation)

theorem Kept.weightAt?_eq_some_iff
    (kept : c.Kept)
    (point weight : Int) :
    c.weightAt? point = some weight ↔ Weighs c.segments point weight :=
  Coverage.weightAt?_eq_some_iff kept.ordered point weight

/-- Painting over weights and painting over the colouring they make agree. -/
theorem Kept.paintedOver_eq_some_iff
    (kept : c.Kept)
    (range : Segment)
    (point weight : Int) :
    paintedOver range c.weightAt? point = some weight ↔
      Colouring.paint range (Weighs c.segments) point weight := by
  by_cases within : Within range point
  · rw [paintedOver, if_pos ⟨within.left, within.right⟩, Option.some.injEq,
      Colouring.paint_of_within within]
  · have outside : ¬ (range.first ≤ point ∧ point ≤ range.last) := within
    rw [paintedOver, if_neg outside, Colouring.paint_of_not_within within]
    exact kept.weightAt?_eq_some_iff point weight

theorem Kept.paintedOver_eq_none_iff
    (kept : c.Kept)
    (range : Segment)
    (point : Int) :
    paintedOver range c.weightAt? point = none ↔
      ∀ weight, ¬ Colouring.paint range (Weighs c.segments) point weight := by
  rw [Option.eq_none_iff_forall_ne_some]
  simp only [Ne, kept.paintedOver_eq_some_iff]

/-- After an insertion a point has the weight painted on it, or else that of the
gap it lies in. -/
theorem Kept.weightAt?_insertSegment_iff
    (kept : c.Kept)
    (inhabited : range.first ≤ range.last)
    (point weight : Int) :
    (c.insertSegment range).weightAt? point = some weight ↔
      Colouring.paint range (Weighs c.segments) point weight ∨
        Bridged c.deviation (Colouring.paint range (Weighs c.segments)) point weight := by
  rw [(kept.insertSegment inhabited).weightAt?_eq_some_iff, kept.weighs_insertSegment inhabited]
  rfl

/-- A point without paint lies in a gap exactly if its nearest covered neighbours
are the ends of one. -/
theorem Kept.bridged_iff
    (kept : c.Kept)
    (range : Segment)
    (point weight : Int) :
    Bridged deviation (Colouring.paint range (Weighs c.segments)) point weight ↔
      ∃ before after, NearestAround (paintedOver range c.weightAt?) before point after ∧
        paintedOver range c.weightAt? before = some weight ∧
        paintedOver range c.weightAt? after = some weight ∧ after - before ≤ deviation := by
  simp only [kept.paintedOver_eq_some_iff]
  constructor
  · intro ⟨before, after, lower, upper, gap⟩
    refine ⟨before, after, ⟨lower, upper, ?_⟩, gap.weighsBefore, gap.weighsAfter, gap.narrow⟩
    intro between above below
    exact (kept.paintedOver_eq_none_iff range between).mpr (gap.uncovered between above below)
  · intro ⟨before, after, nearest, weighsBefore, weighsAfter, narrow⟩
    refine ⟨before, after, nearest.lower, nearest.upper, narrow, weighsBefore, weighsAfter, ?_⟩
    intro between above below
    exact (kept.paintedOver_eq_none_iff range between).mp
      (nearest.uncovered between above below)

theorem Kept.repaints
    (kept : c.Kept)
    (inhabited : range.first ≤ range.last) :
    Repaints c.deviation range c.weightAt? (c.insertSegment range).weightAt? := by
  constructor
  · intro point weight painted
    apply (kept.weightAt?_insertSegment_iff inhabited point weight).mpr
    exact Or.inl ((kept.paintedOver_eq_some_iff range point weight).mp painted)
  · intro point weight unpainted
    have notPainted := (kept.paintedOver_eq_none_iff range point).mp unpainted weight
    rw [kept.weightAt?_insertSegment_iff inhabited, kept.bridged_iff]
    exact or_iff_right notPainted

/-- No uncovered point lies between two points at most one apart. -/
theorem Repaints.eq_paintedOver
    (repaints : Repaints deviation range colour colour')
    (small : deviation ≤ 1) :
    colour' = paintedOver range colour := by
  funext point
  cases painted : paintedOver range colour point with
  | some weight => exact repaints.painted point weight painted
  | none =>
    apply Option.eq_none_iff_forall_ne_some.mpr
    intro weight weighs
    have ⟨before, after, nearest, _, _, narrow⟩ :=
      (repaints.bridged point weight painted).mp weighs
    have lower := nearest.lower
    have upper := nearest.upper
    omega

/-- Whatever calls have reached, inserting a range that is not inverted paints it
over the weights there are and closes the gaps that are not wider than the
deviation. With a deviation below two it only paints. -/
theorem repaints_insert_of_reached
    (deviation : Nat)
    (origin : Origin)
    (calls : List Call)
    {first last : Int}
    (inhabited : first ≤ last)
    (weight : Int) :
    ∃ after, (reached deviation origin calls).insert first last weight = .ok after ∧
      Repaints deviation ⟨first, last, weight⟩
        (reached deviation origin calls).weightAt? after.weightAt? ∧
      (deviation ≤ 1 → after.weightAt? =
        paintedOver ⟨first, last, weight⟩ (reached deviation origin calls).weightAt?) := by
  have ⟨kept, sameDeviation⟩ := kept_reached deviation origin calls
  have rangeInhabited : (⟨first, last, weight⟩ : Segment).first ≤ last := inhabited
  have repaints := kept.repaints rangeInhabited
  rw [sameDeviation] at repaints
  exact ⟨_, insert_eq_ok rangeInhabited, repaints, repaints.eq_paintedOver⟩

/-- Point 5 lies between two ranges of one weight, which are two apart. -/
theorem repaints_gap_of_two :
    (6 : Int) ≤ 9 ∧
      ∃ after, (reached 2 .fresh [.addRange 0 4 7, .add 30 40]).insert 6 9 7 = .ok after ∧
        Repaints 2 ⟨6, 9, 7⟩ (reached 2 .fresh [.addRange 0 4 7, .add 30 40]).weightAt?
          after.weightAt? ∧
        after.weightAt? 5 = some 7 := by
  have inhabited : (6 : Int) ≤ 9 := by decide
  have ⟨after, inserted, repaints, _⟩ :=
    repaints_insert_of_reached 2 .fresh [.addRange 0 4 7, .add 30 40] inhabited 7
  refine ⟨inhabited, after, inserted, repaints, ?_⟩
  apply (repaints.bridged 5 7 (by decide)).mpr
  refine ⟨4, 6, ⟨by decide, by decide, ?_⟩, by decide, by decide, by decide⟩
  intro between above below
  have single : between = 5 := by omega
  rw [single]
  decide

end UsageBilling.Coverage

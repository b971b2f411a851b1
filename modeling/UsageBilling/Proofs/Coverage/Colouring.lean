import UsageBilling.Coverage.Basic

/-!
Contract: coverage seen as weights of single points.

Owns:
- colourings of the line, painting a range over one, and bridging its small
  gaps;
- when bridging before a painting makes no difference to bridging after it;
- which two paintings may change places.

Segments do not occur here, but for the ranges that are painted. The order of
two paintings matters where one paints into a gap that the other closes, so
ranges of different weight may change places if they are farther apart than the
deviation, or if they touch and each is long enough to cover the gap.

Does not own: segments as a representation of colourings.
-/

namespace UsageBilling.Coverage

/-- Which points have which weights. -/
abbrev Colouring := Int → Int → Prop

/-- Whether a range holds a point. -/
def Within (range : Segment) (point : Int) : Prop :=
  range.first ≤ point ∧ point ≤ range.last

instance (range : Segment) (point : Int) : Decidable (Within range point) :=
  inferInstanceAs (Decidable (_ ∧ _))

/-- An uncovered stretch between two points of one weight, not wider than the
deviation. -/
structure Gap (deviation : Nat) (colour : Colouring) (before after weight : Int) : Prop where
  narrow : after - before ≤ deviation
  weighsBefore : colour before weight
  weighsAfter : colour after weight
  uncovered : ∀ between, before < between → between < after → ∀ other, ¬ colour between other

/-- Whether a point lies in a gap that merging closes. -/
def Bridged (deviation : Nat) (colour : Colouring) (point weight : Int) : Prop :=
  ∃ before after, before < point ∧ point < after ∧ Gap deviation colour before after weight

/-- Whether one range lies before another such that neither joins anything
across the other: it is farther away than the deviation, or the two touch and
each is as long as any gap across it that could be joined. -/
def Apart (deviation : Nat) (x y : Segment) : Prop :=
  x.last + deviation < y.first ∨
    (x.last + 1 = y.first ∧ deviation ≤ x.length + 1 ∧ deviation ≤ y.length + 1)

/-- Whether two ranges may be painted in either order: they have one weight, or
one lies apart before the other. -/
def Interchangeable (deviation : Nat) (x y : Segment) : Prop :=
  x.weight = y.weight ∨ Apart deviation x y ∨ Apart deviation y x

instance (deviation : Nat) (x y : Segment) : Decidable (Interchangeable deviation x y) :=
  inferInstanceAs (Decidable (_ ∨ (_ ∨ _) ∨ (_ ∨ _)))

theorem Interchangeable.symm
    {deviation : Nat}
    {x y : Segment}
    (interchangeable : Interchangeable deviation x y) :
    Interchangeable deviation y x :=
  interchangeable.imp Eq.symm Or.symm

namespace Colouring

variable {deviation : Nat} {colour : Colouring} {range : Segment}

def paint (range : Segment) (colour : Colouring) : Colouring :=
  fun point weight => if Within range point then range.weight = weight else colour point weight

def bridge (deviation : Nat) (colour : Colouring) : Colouring :=
  fun point weight => colour point weight ∨ Bridged deviation colour point weight

def Functional (colour : Colouring) : Prop :=
  ∀ point weight other, colour point weight → colour point other → weight = other

/-- No small gap is left open. -/
def Gapless (deviation : Nat) (colour : Colouring) : Prop :=
  ∀ point weight, ¬ Bridged deviation colour point weight

theorem paint_of_within
    {point weight : Int}
    (within : Within range point) :
    paint range colour point weight ↔ range.weight = weight := by
  simp [paint, within]

theorem paint_of_not_within
    {point weight : Int}
    (outside : ¬ Within range point) :
    paint range colour point weight ↔ colour point weight := by
  simp [paint, outside]

theorem Functional.paint
    (functional : colour.Functional)
    (range : Segment) :
    (colour.paint range).Functional := by
  intro point weight other first second
  by_cases within : Within range point
  · rw [paint_of_within within] at first second
    exact first.symm.trans second
  · rw [paint_of_not_within within] at first second
    exact functional point weight other first second

/-- No point lies strictly between two points at most one apart. -/
theorem not_bridged_of_le_one
    (small : deviation ≤ 1)
    (point weight : Int) :
    ¬ Bridged deviation colour point weight := by
  rintro ⟨before, after, lower, upper, gap⟩
  have narrow := gap.narrow
  omega

theorem bridge_eq_of_le_one
    (small : deviation ≤ 1) :
    bridge deviation colour = colour := by
  funext point weight
  exact propext (or_iff_left (not_bridged_of_le_one small point weight))

/-! ## Bridging before a painting -/

/-- How a painting may lie to a gap so that closing the gap first makes no
difference: it has the weight of the gap, stays clear of it, or covers it. -/
def Harmless (range : Segment) (before after weight : Int) : Prop :=
  range.weight = weight ∨ range.last < before ∨ after < range.first ∨
    (range.first ≤ before + 1 ∧ after - 1 ≤ range.last)

/-- A gap around an unpainted point leaves a gap around it after a painting of
its weight, up to the ends of the painted range. -/
private theorem bridged_paint_of_same_weight
    {before after weight point : Int}
    (inhabited : range.first ≤ range.last)
    (gap : Gap deviation colour before after weight)
    (lower : before < point)
    (upper : point < after)
    (outside : ¬ Within range point)
    (sameWeight : range.weight = weight) :
    Bridged deviation (paint range colour) point weight := by
  simp only [Within] at outside
  have narrow := gap.narrow
  have paintedIn : ∀ p, Within range p → paint range colour p weight :=
    fun p within => (paint_of_within within).mpr sameWeight
  have paintedOut : ∀ p, colour p weight → paint range colour p weight := by
    intro p weighs
    by_cases within : Within range p
    · exact paintedIn p within
    · exact (paint_of_not_within within).mpr weighs
  obtain ⟨near, nearAbove, nearBelow, nearReaches, nearWeighs⟩ : ∃ near, before ≤ near ∧
      near < point ∧ (range.last < point → range.last ≤ near) ∧
      paint range colour near weight := by
    by_cases reaches : before < range.last ∧ range.last < point
    · exact ⟨range.last, by omega, reaches.2, fun _ => Int.le_refl _,
        paintedIn _ ⟨inhabited, Int.le_refl _⟩⟩
    · exact ⟨before, Int.le_refl _, lower, by omega, paintedOut _ gap.weighsBefore⟩
  obtain ⟨far, farBelow, farAbove, farReaches, farWeighs⟩ : ∃ far, far ≤ after ∧
      point < far ∧ (point < range.first → far ≤ range.first) ∧
      paint range colour far weight := by
    by_cases reaches : point < range.first ∧ range.first < after
    · exact ⟨range.first, by omega, reaches.1, fun _ => Int.le_refl _,
        paintedIn _ ⟨Int.le_refl _, inhabited⟩⟩
    · exact ⟨after, Int.le_refl _, upper, by omega, paintedOut _ gap.weighsAfter⟩
  refine ⟨near, far, nearBelow, farAbove, ⟨by omega, nearWeighs, farWeighs, ?_⟩⟩
  intro between above below other painted
  have notWithin : ¬ Within range between := by
    simp only [Within]
    omega
  rw [paint_of_not_within notWithin] at painted
  exact gap.uncovered between (by omega) (by omega) other painted

/-- A painting clear of a gap and its ends leaves the gap. -/
private theorem gap_paint_of_clear
    {before after weight : Int}
    (gap : Gap deviation colour before after weight)
    (wide : before < after)
    (clear : range.last < before ∨ after < range.first) :
    Gap deviation (paint range colour) before after weight := by
  have outside : ∀ p, before ≤ p → p ≤ after → ¬ Within range p := by
    intro p above below
    simp only [Within]
    omega
  refine ⟨gap.narrow, ?_, ?_, ?_⟩
  · exact (paint_of_not_within (outside before (by omega) (by omega))).mpr gap.weighsBefore
  · exact (paint_of_not_within (outside after (by omega) (by omega))).mpr gap.weighsAfter
  · intro between above below other painted
    rw [paint_of_not_within (outside between (by omega) (by omega))] at painted
    exact gap.uncovered between above below other painted

/-- The ends of a gap that is open after bridging were not filled by bridging:
a filled point has filled or covered neighbours on both sides. -/
private theorem weighs_of_gap_paint_bridge
    {before after weight point : Int}
    (gap : Gap deviation (paint range (bridge deviation colour)) before after weight)
    (lower : before < point)
    (upper : point < after) :
    Gap deviation (paint range colour) before after weight := by
  have openNeighbour : ∀ p, before < p → p < after →
      ¬ Within range p ∧ ∀ other, ¬ bridge deviation colour p other := by
    intro p above below
    have notPainted := gap.uncovered p above below
    have notWithin : ¬ Within range p := fun within =>
      notPainted range.weight ((paint_of_within within).mpr rfl)
    exact ⟨notWithin, fun other weighs =>
      notPainted other ((paint_of_not_within notWithin).mpr weighs)⟩
  have notFilled : ∀ p neighbour, before < neighbour → neighbour < after →
      (neighbour = p + 1 ∨ neighbour = p - 1) → ∀ other, ¬ Bridged deviation colour p other := by
    rintro p neighbour above below next other ⟨left, right, leftBelow, rightAbove, filled⟩
    have notBridge := (openNeighbour neighbour above below).2 other
    by_cases atRight : neighbour = right
    · exact notBridge (Or.inl (atRight ▸ filled.weighsAfter))
    by_cases atLeft : neighbour = left
    · exact notBridge (Or.inl (atLeft ▸ filled.weighsBefore))
    exact notBridge (Or.inr ⟨left, right, by omega, by omega, filled⟩)
  have endWeighs : ∀ p, paint range (bridge deviation colour) p weight →
      (∀ other, ¬ Bridged deviation colour p other) → paint range colour p weight := by
    intro p painted unfilled
    by_cases within : Within range p
    · exact (paint_of_within within).mpr ((paint_of_within within).mp painted)
    · refine (paint_of_not_within within).mpr ?_
      exact ((paint_of_not_within within).mp painted).resolve_right (unfilled weight)
  refine ⟨gap.narrow, ?_, ?_, ?_⟩
  · exact endWeighs before gap.weighsBefore
      (notFilled before (before + 1) (by omega) (by omega) (Or.inl rfl))
  · exact endWeighs after gap.weighsAfter
      (notFilled after (after - 1) (by omega) (by omega) (Or.inr rfl))
  · intro between above below other painted
    obtain ⟨notWithin, notBridge⟩ := openNeighbour between above below
    exact notBridge other (Or.inl ((paint_of_not_within notWithin).mp painted))

/-- Closing small gaps before a painting that is harmless to them makes no
difference once they are closed after it. -/
theorem bridge_paint_bridge
    (functional : colour.Functional)
    (inhabited : range.first ≤ range.last)
    (harmless : ∀ before after weight, before + 1 < after →
      Gap deviation colour before after weight → Harmless range before after weight) :
    bridge deviation (paint range (bridge deviation colour)) =
      bridge deviation (paint range colour) := by
  have grows : ∀ p w, paint range colour p w → paint range (bridge deviation colour) p w := by
    intro p w painted
    by_cases within : Within range p
    · exact (paint_of_within within).mpr ((paint_of_within within).mp painted)
    · exact (paint_of_not_within within).mpr
        (Or.inl ((paint_of_not_within within).mp painted))
  funext point weight
  apply propext
  constructor
  · rintro (painted | ⟨before, after, lower, upper, gap⟩)
    · by_cases within : Within range point
      · exact Or.inl ((paint_of_within within).mpr ((paint_of_within within).mp painted))
      rcases (paint_of_not_within within).mp painted with old | ⟨before, after, lower, upper, gap⟩
      · exact Or.inl ((paint_of_not_within within).mpr old)
      -- The point was filled before the painting; the painting leaves a gap around it.
      rcases harmless before after weight (by omega) gap with sameWeight | clear | clear | covers
      · exact Or.inr (bridged_paint_of_same_weight inhabited gap lower upper within sameWeight)
      · exact Or.inr ⟨before, after, lower, upper,
          gap_paint_of_clear gap (by omega) (Or.inl clear)⟩
      · exact Or.inr ⟨before, after, lower, upper,
          gap_paint_of_clear gap (by omega) (Or.inr clear)⟩
      · exact absurd ⟨by omega, by omega⟩ within
    · exact Or.inr ⟨before, after, lower, upper, weighs_of_gap_paint_bridge gap lower upper⟩
  · rintro (painted | ⟨before, after, lower, upper, gap⟩)
    · exact Or.inl (grows point weight painted)
    have notWithin : ∀ p, before < p → p < after → ¬ Within range p := fun p above below within =>
      gap.uncovered p above below range.weight ((paint_of_within within).mpr rfl)
    have notColoured : ∀ p, before < p → p < after → ∀ other, ¬ colour p other :=
      fun p above below other weighs => gap.uncovered p above below other
        ((paint_of_not_within (notWithin p above below)).mpr weighs)
    -- The ends of an earlier gap that overlaps this one lie outside this one.
    have enclosed : ∀ p left right other, before < p → p < after → left < p → p < right →
        Gap deviation colour left right other → left ≤ before ∧ after ≤ right := by
      intro p left right other above below leftBelow rightAbove earlier
      constructor
      · apply Int.not_lt.mp
        intro inside
        exact notColoured left (by omega) (by omega) other earlier.weighsBefore
      · apply Int.not_lt.mp
        intro inside
        exact notColoured right (by omega) (by omega) other earlier.weighsAfter
    by_cases filled : ∃ other, Bridged deviation colour point other
    · -- The gap was closed before the painting, and with the same weight.
      obtain ⟨other, left, right, leftBelow, rightAbove, earlier⟩ := filled
      obtain ⟨leftOutside, rightOutside⟩ :=
        enclosed point left right other lower upper leftBelow rightAbove earlier
      have sameWeight : other = weight := by
        by_cases within : Within range before
        · have paintedWeight := (paint_of_within within).mp gap.weighsBefore
          rcases harmless left right other (by omega) earlier with same | clear | clear | covers
          · exact same.symm.trans paintedWeight
          · simp only [Within] at within
            omega
          · simp only [Within] at within
            omega
          · exact absurd ⟨by omega, by omega⟩ (notWithin point lower upper)
        · have beforeWeighs := (paint_of_not_within within).mp gap.weighsBefore
          by_cases atLeft : left = before
          · exact functional before other weight (atLeft ▸ earlier.weighsBefore) beforeWeighs
          · exact absurd beforeWeighs (earlier.uncovered before (by omega) (by omega) weight)
      refine Or.inl ((paint_of_not_within (notWithin point lower upper)).mpr (Or.inr ?_))
      exact sameWeight ▸ ⟨left, right, leftBelow, rightAbove, earlier⟩
    · refine Or.inr ⟨before, after, lower, upper, gap.narrow, grows before weight gap.weighsBefore,
        grows after weight gap.weighsAfter, ?_⟩
      intro between above below other painted
      rcases (paint_of_not_within (notWithin between above below)).mp painted with
        weighs | ⟨left, right, leftBelow, rightAbove, earlier⟩
      · exact notColoured between above below other weighs
      · obtain ⟨leftOutside, rightOutside⟩ :=
          enclosed between left right other above below leftBelow rightAbove earlier
        exact filled ⟨other, left, right, by omega, by omega, earlier⟩

/-! ## Paintings that change places -/

/-- The gaps that a painting leaves in a colouring without small gaps lie at an
end of the painted range, and have its weight. -/
theorem Gapless.ends_of_gap_paint
    (gapless : Gapless deviation colour)
    {before after weight : Int}
    (wide : before + 1 < after)
    (gap : Gap deviation (paint range colour) before after weight) :
    range.weight = weight ∧ (before = range.last ∨ after = range.first) := by
  have outside : ∀ p, before < p → p < after → ¬ Within range p := fun p above below within =>
    gap.uncovered p above below range.weight ((paint_of_within within).mpr rfl)
  have justAfter := outside (before + 1) (by omega) wide
  have justBefore := outside (after - 1) (by omega) (by omega)
  by_cases atBefore : Within range before
  · refine ⟨(paint_of_within atBefore).mp gap.weighsBefore, Or.inl ?_⟩
    simp only [Within] at atBefore justAfter
    omega
  by_cases atAfter : Within range after
  · refine ⟨(paint_of_within atAfter).mp gap.weighsAfter, Or.inr ?_⟩
    simp only [Within] at atAfter justBefore
    omega
  -- Otherwise the gap was there before the painting.
  exfalso
  refine gapless (before + 1) weight ⟨before, after, by omega, wide, gap.narrow,
    (paint_of_not_within atBefore).mp gap.weighsBefore,
    (paint_of_not_within atAfter).mp gap.weighsAfter, ?_⟩
  intro between above below other weighs
  exact gap.uncovered between above below other
    ((paint_of_not_within (outside between above below)).mpr weighs)

theorem paint_comm
    {x y : Segment}
    (interchangeable : Interchangeable deviation x y) :
    paint y (paint x colour) = paint x (paint y colour) := by
  funext point weight
  by_cases inX : Within x point
  · by_cases inY : Within y point
    · simp only [paint, inX, inY, if_true]
      simp only [Within] at inX inY
      simp only [Interchangeable, Apart] at interchangeable
      have sameWeight : x.weight = y.weight := by omega
      rw [sameWeight]
    · simp [paint, inX, inY]
  · by_cases inY : Within y point <;> simp [paint, inX, inY]

theorem harmless_of_interchangeable
    {x y : Segment}
    (interchangeable : Interchangeable deviation x y)
    (xInhabited : x.first ≤ x.last)
    (yInhabited : y.first ≤ y.last)
    {before after : Int}
    (narrow : after - before ≤ deviation)
    (ends : before = x.last ∨ after = x.first) :
    Harmless y before after x.weight := by
  simp only [Interchangeable, Apart, Segment.length] at interchangeable
  simp only [Harmless]
  omega

/-- Two interchangeable paintings give the same colours in either order. -/
theorem bridge_paint_comm
    {x y : Segment}
    (functional : colour.Functional)
    (gapless : colour.Gapless deviation)
    (interchangeable : Interchangeable deviation x y)
    (xInhabited : x.first ≤ x.last)
    (yInhabited : y.first ≤ y.last) :
    bridge deviation (paint y (bridge deviation (paint x colour))) =
      bridge deviation (paint x (bridge deviation (paint y colour))) := by
  have settled : ∀ {x y : Segment}, Interchangeable deviation x y → x.first ≤ x.last →
      y.first ≤ y.last → bridge deviation (paint y (bridge deviation (paint x colour))) =
        bridge deviation (paint y (paint x colour)) := by
    intro x y interchangeable xInhabited yInhabited
    apply bridge_paint_bridge (functional.paint x) yInhabited
    intro before after weight wide gap
    obtain ⟨rfl, ends⟩ := gapless.ends_of_gap_paint wide gap
    exact harmless_of_interchangeable interchangeable xInhabited yInhabited gap.narrow ends
  rw [settled interchangeable xInhabited yInhabited,
    settled interchangeable.symm yInhabited xInhabited, paint_comm interchangeable]

end Colouring

end UsageBilling.Coverage

import UsageBilling.Proofs.Coverage.Insertion

/-!
Contract: insertions that may change places.

Owns:
- ordered segments are known by the weights of points and by which neighbouring
  points one segment holds;
- kept coverage as a colouring without small gaps;
- interchangeable ranges give the same coverage in either order.

Does not own: ranges that are not interchangeable, or sequences of insertions.
-/

namespace UsageBilling.Coverage

variable {c : Coverage} {x y : Segment} {left right : List Segment} {deviation : Nat}

theorem ext_of_segments
    {c c' : Coverage}
    (deviation : c.deviation = c'.deviation)
    (segments : c.segments = c'.segments) :
    c = c' := by
  cases c
  cases c'
  simp only at deviation segments
  rw [deviation, segments]

/-! ## Segments known by their points -/

/-- Whether two lists of segments hold the same points and neighbouring points,
with the same weights. -/
def SameSpans (left right : List Segment) : Prop :=
  ∀ point next weight, point ≤ next → next ≤ point + 1 →
    (Spans left point next weight ↔ Spans right point next weight)

theorem SameSpans.symm
    (same : SameSpans left right) :
    SameSpans right left :=
  fun point next weight lower upper => (same point next weight lower upper).symm

private theorem SameSpans.head_le
    {s t : Segment}
    (same : SameSpans (s :: left) (t :: right))
    (leftOrdered : Ordered (s :: left))
    (rightOrdered : Ordered (t :: right)) :
    t.first ≤ s.first ∧ (s.first = t.first → s.weight = t.weight ∧ t.last ≤ s.last) := by
  obtain ⟨sInhabited, sBelow, leftRest⟩ := (ordered_cons_iff s left).mp leftOrdered
  obtain ⟨tInhabited, tBelow, _⟩ := (ordered_cons_iff t right).mp rightOrdered
  have sWeighs : Weighs (t :: right) s.first s.weight :=
    (same s.first s.first s.weight (Int.le_refl _) (by omega)).mp
      ⟨s, by simp, Int.le_refl _, sInhabited, rfl⟩
  constructor
  · obtain ⟨u, member, lower, _, _⟩ := sWeighs
    rcases List.mem_cons.mp member with rfl | inRest
    · exact lower
    · have := tBelow u inRest
      omega
  · intro sameFirst
    have tWeighs : Weighs (t :: right) s.first t.weight :=
      ⟨t, by simp, by omega, by omega, rfl⟩
    refine ⟨rightOrdered.weight_unique sWeighs tWeighs, ?_⟩
    apply Int.not_lt.mp
    intro longer
    -- The segment that holds the point after `s` together with its last point is `s`.
    obtain ⟨u, member, lower, upper, _⟩ :=
      (same s.last (s.last + 1) t.weight (by omega) (Int.le_refl _)).mpr
        ⟨t, by simp, by omega, by omega, rfl⟩
    have uHolds : u.first ≤ s.last ∧ s.last ≤ u.last := by omega
    have sameSegment : u = s :=
      leftOrdered.eq_of_holds member (by simp) uHolds ⟨sInhabited, Int.le_refl _⟩
    subst sameSegment
    omega

private theorem SameSpans.tail
    {s : Segment}
    (same : SameSpans (s :: left) (s :: right))
    (leftOrdered : Ordered (s :: left))
    (rightOrdered : Ordered (s :: right)) :
    SameSpans left right := by
  intro point next weight lower upper
  have whole := same point next weight lower upper
  obtain ⟨_, leftBelow, leftRest⟩ := (ordered_cons_iff s left).mp leftOrdered
  obtain ⟨_, rightBelow, rightRest⟩ := (ordered_cons_iff s right).mp rightOrdered
  by_cases beyond : s.last < point
  · simp only [spans_cons] at whole
    have notHead : ¬ (s.first ≤ point ∧ next ≤ s.last ∧ s.weight = weight) := by omega
    simpa only [notHead, false_or] using whole
  · have notLeft : ¬ Spans left point next weight := not_spans_of_lt_first fun t member => by
      have := leftBelow t member
      omega
    have notRight : ¬ Spans right point next weight := not_spans_of_lt_first fun t member => by
      have := rightBelow t member
      omega
    exact iff_of_false notLeft notRight

/-- Ordered segments are known by their points. -/
theorem SameSpans.eq
    (same : SameSpans left right)
    (leftOrdered : Ordered left)
    (rightOrdered : Ordered right) :
    left = right := by
  have headSpans : ∀ {s : Segment} {rest : List Segment}, Ordered (s :: rest) →
      Weighs (s :: rest) s.first s.weight := fun ordered =>
    ⟨_, by simp, Int.le_refl _, ordered.inhabited _ (by simp), rfl⟩
  induction left generalizing right with
  | nil =>
    cases right with
    | nil => rfl
    | cons t right =>
      have weighs := (same t.first t.first t.weight (Int.le_refl _) (by omega)).mpr
        (headSpans rightOrdered)
      simp at weighs
  | cons s left inductionHypothesis =>
    cases right with
    | nil =>
      have weighs := (same s.first s.first s.weight (Int.le_refl _) (by omega)).mp
        (headSpans leftOrdered)
      simp at weighs
    | cons t right =>
      obtain ⟨tFirst, tEnds⟩ := same.head_le leftOrdered rightOrdered
      obtain ⟨sFirst, sEnds⟩ := same.symm.head_le rightOrdered leftOrdered
      have sameFirst : s.first = t.first := Int.le_antisymm sFirst tFirst
      obtain ⟨sameWeight, tLast⟩ := tEnds sameFirst
      obtain ⟨_, sLast⟩ := sEnds sameFirst.symm
      have sameHead : s = t := by
        obtain ⟨first, last, weight⟩ := s
        obtain ⟨first', last', weight'⟩ := t
        simp only [Segment.mk.injEq]
        exact ⟨sameFirst, Int.le_antisymm sLast tLast, sameWeight⟩
      subst sameHead
      rw [inductionHypothesis (same.tail leftOrdered rightOrdered)
        ((ordered_cons_iff s left).mp leftOrdered).2.2
        ((ordered_cons_iff s right).mp rightOrdered).2.2]

/-! ## Kept coverage as a colouring -/

theorem Kept.functional
    (kept : c.Kept) :
    Colouring.Functional (Weighs c.segments) :=
  fun _ _ _ first second => kept.ordered.weight_unique first second

theorem Kept.gapless
    (kept : c.Kept) :
    Colouring.Gapless c.deviation (Weighs c.segments) := by
  rintro point weight ⟨before, after, lower, upper, gap⟩
  obtain ⟨s, leftMember, sLower, sUpper, sWeight⟩ := gap.weighsBefore
  obtain ⟨t, rightMember, tLower, tUpper, tWeight⟩ := gap.weighsAfter
  have uncovered : ∀ u ∈ c.segments, ∀ p, before < p → p < after →
      ¬ (u.first ≤ p ∧ p ≤ u.last) := fun u member p above below held =>
    gap.uncovered p above below u.weight ⟨u, member, held.1, held.2, rfl⟩
  have sEnds := uncovered s leftMember (before + 1) (by omega) (by omega)
  have tBegins := uncovered t rightMember (after - 1) (by omega) (by omega)
  have nothingBetween : ∀ u ∈ c.segments, ¬ (s.last < u.first ∧ u.last < t.first) := by
    rintro u member ⟨above, below⟩
    have inhabited := kept.ordered.inhabited u member
    exact uncovered u member u.first (by omega) (by omega) ⟨Int.le_refl _, inhabited⟩
  have wide := kept.wellKept.gap_of_nothing_between leftMember rightMember (by omega)
    (sWeight.trans tWeight.symm) nothingBetween
  have narrow := gap.narrow
  omega

/-- If touching segments of one weight are joined, neighbouring points of one
weight are held by one segment. -/
theorem Kept.spans_iff_weighs
    (kept : c.Kept)
    (joins : c.deviation ≠ 0)
    (point weight : Int) :
    Spans c.segments point (point + 1) weight ↔
      Weighs c.segments point weight ∧ Weighs c.segments (point + 1) weight := by
  constructor
  · rintro ⟨s, member, lower, upper, sameWeight⟩
    exact ⟨⟨s, member, lower, by omega, sameWeight⟩, s, member, by omega, upper, sameWeight⟩
  · rintro ⟨⟨s, leftMember, sLower, sUpper, sWeight⟩, t, rightMember, tLower, tUpper, tWeight⟩
    by_cases reaches : point + 1 ≤ s.last
    · exact ⟨s, leftMember, sLower, reaches, sWeight⟩
    by_cases begins : t.first ≤ point
    · exact ⟨t, rightMember, begins, tUpper, tWeight⟩
    exfalso
    have nothingBetween : ∀ u ∈ c.segments, ¬ (s.last < u.first ∧ u.last < t.first) := by
      rintro u member ⟨above, below⟩
      have inhabited := kept.ordered.inhabited u member
      omega
    have wide := kept.wellKept.gap_of_nothing_between leftMember rightMember (by omega)
      (sWeight.trans tWeight.symm) nothingBetween
    omega

/-- Where touching segments of one weight are joined, coverage is known by the
weights of points. -/
theorem Kept.sameSpans_of_weighs
    {c' : Coverage}
    (kept : c.Kept)
    (kept' : c'.Kept)
    (joins : c.deviation ≠ 0)
    (joins' : c'.deviation ≠ 0)
    (sameWeights : ∀ point weight,
      Weighs c.segments point weight ↔ Weighs c'.segments point weight) :
    SameSpans c.segments c'.segments := by
  intro point next weight lower upper
  rcases (by omega : next = point ∨ next = point + 1) with rfl | rfl
  · exact sameWeights next weight
  · rw [kept.spans_iff_weighs joins, kept'.spans_iff_weighs joins', sameWeights, sameWeights]

/-! ## Interchangeable insertions -/

/-- Without a deviation, ranges of one weight and ranges apart from each other
may be inserted in either order, segment by segment. -/
theorem Kept.sameSpans_insertSegment_comm
    (kept : c.Kept)
    (none : c.deviation = 0)
    (interchangeable : Interchangeable 0 x y)
    (xInhabited : x.first ≤ x.last)
    (yInhabited : y.first ≤ y.last) :
    SameSpans ((c.insertSegment x).insertSegment y).segments
      ((c.insertSegment y).insertSegment x).segments := by
  intro point next weight lower upper
  have near : point ≤ next ∧ next ≤ point + 1 := ⟨lower, upper⟩
  rw [(kept.insertSegment xInhabited).spans_insertSegment_of_no_deviation none yInhabited near,
    (kept.insertSegment yInhabited).spans_insertSegment_of_no_deviation none xInhabited near,
    kept.spans_insertSegment_of_no_deviation none xInhabited near,
    kept.spans_insertSegment_of_no_deviation none yInhabited near]
  simp only [Interchangeable, Apart] at interchangeable
  by_cases held : Spans c.segments point next weight
  · simp only [held, true_and]
    omega
  · simp only [held, false_and, and_false, or_false]
    omega

/-- Interchangeable ranges may be inserted in either order. -/
theorem Kept.insertSegment_comm
    (kept : c.Kept)
    (interchangeable : Interchangeable c.deviation x y)
    (xInhabited : x.first ≤ x.last)
    (yInhabited : y.first ≤ y.last) :
    (c.insertSegment x).insertSegment y = (c.insertSegment y).insertSegment x := by
  have keptX := kept.insertSegment xInhabited
  have keptY := kept.insertSegment yInhabited
  have keptXY := keptX.insertSegment yInhabited
  have keptYX := keptY.insertSegment xInhabited
  have sameWeights : ∀ point weight,
      Weighs ((c.insertSegment x).insertSegment y).segments point weight ↔
        Weighs ((c.insertSegment y).insertSegment x).segments point weight := by
    intro point weight
    rw [keptX.weighs_insertSegment yInhabited, keptY.weighs_insertSegment xInhabited,
      kept.weighs_insertSegment xInhabited, kept.weighs_insertSegment yInhabited,
      deviation_insertSegment, deviation_insertSegment,
      Colouring.bridge_paint_comm kept.functional kept.gapless interchangeable
        xInhabited yInhabited]
  have same : SameSpans ((c.insertSegment x).insertSegment y).segments
      ((c.insertSegment y).insertSegment x).segments := by
    by_cases joins : c.deviation = 0
    · rw [joins] at interchangeable
      exact kept.sameSpans_insertSegment_comm joins interchangeable xInhabited yInhabited
    · exact keptXY.sameSpans_of_weighs keptYX (by simpa using joins) (by simpa using joins)
        sameWeights
  apply Coverage.ext_of_segments
  · simp only [deviation_insertSegment]
  · exact same.eq keptXY.ordered keptYX.ordered

end UsageBilling.Coverage

import UsageBilling.Proofs.Coverage.Commutation

/-!
Contract: the ranges whose order some coverage tells apart.

Owns:
- coverage of one point, and the gap to it that a range closes;
- ranges that are not interchangeable, and coverage to which their order matters.

Does not own: the commutation of interchangeable ranges.

A range that overlaps another shows in what is covered by both. One that does
not overlap it can still join something across it, if it comes first: the other
range then takes back its own points, but not the gaps beside them.
-/

namespace UsageBilling.Coverage

variable {range x y : Segment} {deviation : Nat}

def ofPoint (deviation : Nat) (point weight : Int) : Coverage :=
  ⟨deviation, [⟨point, point, weight⟩]⟩

theorem kept_ofPoint
    (deviation : Nat)
    (point weight : Int) :
    (ofPoint deviation point weight).Kept :=
  ⟨Int.le_refl point⟩

theorem weighs_ofPoint_iff
    (deviation : Nat)
    (point weight other weight' : Int) :
    Weighs (ofPoint deviation point weight).segments other weight' ↔
      other = point ∧ weight = weight' := by
  simp only [ofPoint, spans_cons, spans_nil, or_false]
  omega

theorem insertSegment_ofPoint
    {weight : Int}
    (inhabited : range.first ≤ range.last)
    (differ : weight ≠ range.weight) :
    (ofPoint deviation range.first weight).insertSegment range = ⟨deviation, [range]⟩ := by
  have painted : paint range [⟨range.first, range.first, weight⟩] = ⟨[], range, []⟩ := by
    have notBeyond : ¬ range.last < range.first := by omega
    simp [paint, entirelyBefore, overlapped, inhabited, absorb, remainderBefore, remainderAfter,
      differ, notBeyond]
  rw [ofPoint, insertSegment]
  simp only [painted]
  rw [Cursor.coalesce_of_settled]
  · rfl
  · simp [Cursor.SettledBefore]
  · simp [Cursor.SettledAfter]

/-- A range closes a small gap to a point of its weight. -/
private theorem weighs_insertSegment_ofPoint
    {point end_ : Int}
    (inhabited : range.first ≤ range.last)
    (between : range.last < point ∧ point < end_ ∧ end_ - range.last ≤ deviation ∨
      end_ < point ∧ point < range.first ∧ range.first - end_ ≤ deviation) :
    Weighs ((ofPoint deviation end_ range.weight).insertSegment range).segments point
      range.weight := by
  have painted : ∀ p, (range.first ≤ p ∧ p ≤ range.last) ∨ p = end_ →
      Colouring.paint range (Weighs (ofPoint deviation end_ range.weight).segments) p
        range.weight := by
    intro p held
    by_cases within : Within range p
    · exact (Colouring.paint_of_within within).mpr rfl
    · rw [Colouring.paint_of_not_within within, weighs_ofPoint_iff]
      exact ⟨held.resolve_left within, rfl⟩
  have unpainted : ∀ p other, ¬ (range.first ≤ p ∧ p ≤ range.last) → p ≠ end_ →
      ¬ Colouring.paint range (Weighs (ofPoint deviation end_ range.weight).segments) p other := by
    intro p other outside notEnd
    rw [Colouring.paint_of_not_within outside, weighs_ofPoint_iff]
    exact fun held => notEnd held.1
  rw [(kept_ofPoint deviation end_ range.weight).weighs_insertSegment inhabited]
  rcases between with ⟨lower, upper, narrow⟩ | ⟨lower, upper, narrow⟩
  · exact Or.inr ⟨range.last, end_, lower, upper, narrow, painted _ (by omega),
      painted _ (by omega), fun p above below other => unpainted p other (by omega) (by omega)⟩
  · exact Or.inr ⟨end_, range.first, lower, upper, narrow, painted _ (by omega),
      painted _ (by omega), fun p above below other => unpainted p other (by omega) (by omega)⟩

/-- Ranges of two weights that share a point show the later of the two. -/
private theorem not_comm_of_overlap
    (differ : x.weight ≠ y.weight)
    {point : Int}
    (inX : Within x point)
    (inY : Within y point) :
    ((empty deviation).insertSegment x).insertSegment y ≠
      ((empty deviation).insertSegment y).insertSegment x := by
  intro same
  have xInhabited := Int.le_trans inX.1 inX.2
  have yInhabited := Int.le_trans inY.1 inY.2
  have keptX := (kept_empty deviation).insertSegment xInhabited
  have keptY := (kept_empty deviation).insertSegment yInhabited
  have showsY := keptX.weighs_insertSegment_of_within yInhabited inY
  have showsX := keptY.weighs_insertSegment_of_within xInhabited inX
  rw [same] at showsY
  exact differ ((keptY.insertSegment xInhabited).functional point _ _ showsX showsY)

/-- A gap that is closed before the other range comes stays closed. It stays
open if the other range comes first and is put between. -/
private theorem not_comm_of_closed_gap
    {end_ point : Int}
    {segments : List Segment}
    (xInhabited : x.first ≤ x.last)
    (yInhabited : y.first ≤ y.last)
    (between : x.last < point ∧ point < end_ ∧ end_ - x.last ≤ deviation ∨
      end_ < point ∧ point < x.first ∧ x.first - end_ ≤ deviation)
    (outside : ¬ Within y point)
    (apart : ((ofPoint deviation end_ x.weight).insertSegment y).insertSegment x =
      ⟨deviation, segments⟩)
    (uncovered : ∀ s ∈ segments, ¬ (s.first ≤ point ∧ point ≤ s.last)) :
    ((ofPoint deviation end_ x.weight).insertSegment x).insertSegment y ≠
      ((ofPoint deviation end_ x.weight).insertSegment y).insertSegment x := by
  intro same
  have closed := ((kept_ofPoint deviation end_ x.weight).insertSegment
    xInhabited).weighs_insertSegment_of_not_within yInhabited outside
      (weighs_insertSegment_ofPoint xInhabited between)
  rw [same, apart] at closed
  obtain ⟨s, member, lower, upper, _⟩ := closed
  exact uncovered s member ⟨lower, upper⟩

private theorem wellKept_pair
    {s t : Segment}
    (differ : s.weight ≠ t.weight)
    (sInhabited : s.first ≤ s.last)
    (tInhabited : t.first ≤ t.last)
    (below : s.last < t.first) :
    WellKept deviation [s, t] :=
  ⟨sInhabited, ⟨below, fun same => absurd same differ⟩, tInhabited⟩

/-- Across a gap, one range reaches the first point of the other. -/
private theorem not_comm_of_gap
    (differ : x.weight ≠ y.weight)
    (xInhabited : x.first ≤ x.last)
    (yInhabited : y.first ≤ y.last)
    (apart : x.last + 1 < y.first)
    (narrow : y.first - x.last ≤ deviation) :
    ((ofPoint deviation y.first x.weight).insertSegment x).insertSegment y ≠
      ((ofPoint deviation y.first x.weight).insertSegment y).insertSegment x := by
  have separate : WellKept deviation ([] ++ x :: [y]) :=
    wellKept_pair differ xInhabited yInhabited (by omega)
  have placed : ((ofPoint deviation y.first x.weight).insertSegment y).insertSegment x =
      ⟨deviation, [x, y]⟩ := by
    rw [insertSegment_ofPoint yInhabited differ]
    simpa using insertSegment_of_wellKept separate
  apply not_comm_of_closed_gap xInhabited yInhabited (Or.inl ⟨Int.lt_succ x.last, apart, narrow⟩)
    (by simp only [Within]; omega) placed
  simp only [List.mem_cons, List.not_mem_nil, or_false, forall_eq_or_imp, forall_eq]
  omega

/-- Across a short range that it touches, one range reaches behind the other. -/
private theorem not_comm_of_short_second
    (differ : x.weight ≠ y.weight)
    (xInhabited : x.first ≤ x.last)
    (yInhabited : y.first ≤ y.last)
    (touching : x.last + 1 = y.first)
    (short : y.length + 1 < deviation) :
    ((ofPoint deviation (y.last + 2) x.weight).insertSegment x).insertSegment y ≠
      ((ofPoint deviation (y.last + 2) x.weight).insertSegment y).insertSegment x := by
  let behind : Segment := ⟨y.last + 2, y.last + 2, x.weight⟩
  simp only [Segment.length] at short
  have withY : WellKept deviation ([] ++ y :: [behind]) :=
    wellKept_pair differ.symm yInhabited (Int.le_refl _) (by simp only [behind]; omega)
  have withX : WellKept deviation ([] ++ x :: [y, behind]) :=
    ⟨xInhabited, ⟨by omega, fun same => absurd same differ⟩, withY⟩
  have placed : ((ofPoint deviation (y.last + 2) x.weight).insertSegment y).insertSegment x =
      ⟨deviation, [x, y, behind]⟩ := by
    have first : (ofPoint deviation (y.last + 2) x.weight).insertSegment y =
        ⟨deviation, [y, behind]⟩ := by
      simpa [ofPoint, behind] using insertSegment_of_wellKept withY
    rw [first]
    simpa using insertSegment_of_wellKept withX
  have reached : x.last < y.last + 1 ∧ y.last + 1 < y.last + 2 ∧
      y.last + 2 - x.last ≤ deviation := by omega
  apply not_comm_of_closed_gap xInhabited yInhabited (Or.inl reached)
    (by simp only [Within]; omega) placed
  simp only [List.mem_cons, List.not_mem_nil, or_false, forall_eq_or_imp, forall_eq, behind]
  omega

/-- Across a short range that it touches, one range reaches before the other. -/
private theorem not_comm_of_short_first
    (differ : x.weight ≠ y.weight)
    (xInhabited : x.first ≤ x.last)
    (yInhabited : y.first ≤ y.last)
    (touching : x.last + 1 = y.first)
    (short : x.length + 1 < deviation) :
    ((ofPoint deviation (x.first - 2) y.weight).insertSegment y).insertSegment x ≠
      ((ofPoint deviation (x.first - 2) y.weight).insertSegment x).insertSegment y := by
  let before : Segment := ⟨x.first - 2, x.first - 2, y.weight⟩
  simp only [Segment.length] at short
  have withX : WellKept deviation ([before] ++ x :: []) :=
    wellKept_pair differ.symm (Int.le_refl _) xInhabited (by simp only [before]; omega)
  have withY : WellKept deviation ([before, x] ++ y :: []) :=
    ⟨Int.le_refl _, ⟨by simp only [before]; omega, fun same => absurd same differ.symm⟩,
      wellKept_pair differ xInhabited yInhabited (by omega)⟩
  have placed : ((ofPoint deviation (x.first - 2) y.weight).insertSegment x).insertSegment y =
      ⟨deviation, [before, x, y]⟩ := by
    have first : (ofPoint deviation (x.first - 2) y.weight).insertSegment x =
        ⟨deviation, [before, x]⟩ := by
      simpa [ofPoint, before] using insertSegment_of_wellKept withX
    rw [first]
    simpa using insertSegment_of_wellKept withY
  have reached : x.first - 2 < x.first - 1 ∧ x.first - 1 < y.first ∧
      y.first - (x.first - 2) ≤ deviation := by omega
  apply not_comm_of_closed_gap yInhabited xInhabited (Or.inr reached)
    (by simp only [Within]; omega) placed
  simp only [List.mem_cons, List.not_mem_nil, or_false, forall_eq_or_imp, forall_eq, before]
  omega

/-- Whether coverage shows two ranges alike in either order. -/
def Commutes (c : Coverage) (x y : Segment) : Prop :=
  (c.insertSegment x).insertSegment y = (c.insertSegment y).insertSegment x

/-- The order of ranges of two weights matters to coverage of some point near
them, unless one lies apart before the other. -/
private theorem apart_of_commutes
    (differ : x.weight ≠ y.weight)
    (xInhabited : x.first ≤ x.last)
    (yInhabited : y.first ≤ y.last)
    (below : x.last < y.first)
    (commutes : ∀ point, x.first - 2 ≤ point → point ≤ y.last + 2 →
      ∀ weight ∈ [x.weight, y.weight], (ofPoint deviation point weight).Commutes x y) :
    Apart deviation x y := by
  rw [Apart]
  apply Decidable.byContradiction
  intro close
  by_cases touching : x.last + 1 = y.first
  · by_cases short : y.length + 1 < deviation
    · exact not_comm_of_short_second differ xInhabited yInhabited touching short
        (commutes _ (by omega) (by omega) _ (by simp))
    · exact not_comm_of_short_first differ xInhabited yInhabited touching (by omega)
        (commutes _ (by omega) (by omega) _ (by simp)).symm
  · exact not_comm_of_gap differ xInhabited yInhabited (by omega) (by omega)
      (commutes _ (by omega) (by omega) _ (by simp))

/-- Ranges are interchangeable if neither coverage of nothing nor coverage of a
point near them tells their order. -/
theorem interchangeable_of_commutes
    (xInhabited : x.first ≤ x.last)
    (yInhabited : y.first ≤ y.last)
    (ofNothing : (empty deviation).Commutes x y)
    (ofPoints : ∀ point, min x.first y.first - 2 ≤ point → point ≤ max x.last y.last + 2 →
      ∀ weight ∈ [x.weight, y.weight], (ofPoint deviation point weight).Commutes x y) :
    Interchangeable deviation x y := by
  by_cases same : x.weight = y.weight
  · exact Or.inl same
  by_cases below : x.last < y.first
  · apply Or.inr ∘ Or.inl
    apply apart_of_commutes same xInhabited yInhabited below
    intro point lower upper
    exact ofPoints point (by omega) (by omega)
  by_cases above : y.last < x.first
  · apply Or.inr ∘ Or.inr
    apply apart_of_commutes (Ne.symm same) yInhabited xInhabited above
    intro point lower upper weight ofEither
    exact (ofPoints point (by omega) (by omega) weight
      (by simpa [or_comm] using ofEither)).symm
  · have inX : Within x (max x.first y.first) := by
      simp only [Within]
      omega
    have inY : Within y (max x.first y.first) := by
      simp only [Within]
      omega
    exact absurd ofNothing (not_comm_of_overlap same inX inY)

end UsageBilling.Coverage

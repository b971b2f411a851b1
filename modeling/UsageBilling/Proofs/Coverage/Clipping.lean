import Mathlib
import UsageBilling.Coverage.Query
import UsageBilling.Proofs.Coverage.Painting

/-!
Contract: the part of ordered segments that lies in a range.

Owns:
- the points of a list of segments, their number as the total length, and the sum of
  their weights as the total weight;
- clipped segments: they are ordered, lie in the range, and have the weights
  that the points of the range had;
- a range of which every segment holds all or nothing, which is shown as one segment
  or as none.

Does not own: what a clipped segment is billed as.
-/

namespace UsageBilling.Coverage

variable {c : Coverage} {low high : Int}

/-! ## Points and their number -/

noncomputable def points : List Segment → Finset Int
  | [] => ∅
  | s :: rest => Finset.Icc s.first s.last ∪ points rest

theorem mem_points_iff
    {segments : List Segment}
    {point : Int} :
    point ∈ points segments ↔ ∃ weight, Weighs segments point weight := by
  induction segments with
  | nil => simp [points]
  | cons s rest inductionHypothesis =>
    simp only [points, Finset.mem_union, Finset.mem_Icc, inductionHypothesis, spans_cons,
      exists_or]
    simp

theorem card_Icc_eq_length
    {s : Segment}
    (inhabited : s.first ≤ s.last) :
    ((Finset.Icc s.first s.last).card : Int) = s.length := by
  rw [Int.card_Icc, Segment.length]
  omega

theorem disjoint_points
    {s : Segment}
    {rest : List Segment}
    (below : ∀ t ∈ rest, s.last < t.first) :
    Disjoint (Finset.Icc s.first s.last) (points rest) := by
  rw [Finset.disjoint_left]
  intro point inHead inRest
  have ⟨weight, t, member, lower, upper, _⟩ := mem_points_iff.mp inRest
  have := below t member
  rw [Finset.mem_Icc] at inHead
  omega

theorem Ordered.totalLength_eq_card
    {segments : List Segment}
    (ordered : Ordered segments) :
    totalLength segments = (points segments).card := by
  induction segments with
  | nil => rfl
  | cons s rest inductionHypothesis =>
    obtain ⟨inhabited, below, orderedRest⟩ := (ordered_cons_iff s rest).mp ordered
    have restLength := inductionHypothesis orderedRest
    rw [points, Finset.card_union_of_disjoint (disjoint_points below), Nat.cast_add,
      card_Icc_eq_length inhabited, ← restLength]
    rfl

/-- A total of weights is a sum over points, of any function that gives them their weights. -/
theorem Ordered.totalWeight_eq_sum
    {segments : List Segment}
    (ordered : Ordered segments)
    {weightOf : Int → Int}
    (weighs : ∀ point weight, Weighs segments point weight → weightOf point = weight) :
    totalWeight segments = ∑ point ∈ points segments, weightOf point := by
  induction segments with
  | nil => rfl
  | cons s rest inductionHypothesis =>
    have ⟨inhabited, below, orderedRest⟩ := (ordered_cons_iff s rest).mp ordered
    have ofHead : ∑ point ∈ Finset.Icc s.first s.last, weightOf point = s.length * s.weight := by
      have each : ∀ point ∈ Finset.Icc s.first s.last, weightOf point = s.weight := by
        intro point member
        have ⟨lower, upper⟩ := Finset.mem_Icc.mp member
        exact weighs point s.weight ⟨s, List.mem_cons_self, lower, upper, rfl⟩
      rw [Finset.sum_congr rfl each, Finset.sum_const, nsmul_eq_mul, card_Icc_eq_length inhabited]
    have ofRest := inductionHypothesis orderedRest fun point weight inRest =>
      weighs point weight ((spans_cons s rest point point weight).mpr (Or.inr inRest))
    rw [points, Finset.sum_union (disjoint_points below), ofHead, ← ofRest]
    rfl

/-! ## Clipped segments -/

/-- Clipping works on the cut of the segments at the range. -/
theorem inRange_eq_map_clip
    (ordered : Ordered c.segments)
    (inhabited : low ≤ high) :
    ∃ left hit right, c.segments = left ++ (hit ++ right) ∧ Cut ⟨low, high, 0⟩ left hit right ∧
      c.inRange low high = hit.map fun s => s.clip low high := by
  refine ⟨_, _, _, ?_, ordered.cut ⟨low, high, 0⟩, ?_⟩
  · rw [List.takeWhile_append_dropWhile, List.takeWhile_append_dropWhile]
  · rw [inRange, if_neg (by omega)]

theorem bounds_of_mem_inRange
    (ordered : Ordered c.segments)
    (inhabited : low ≤ high)
    (s : Segment)
    (member : s ∈ c.inRange low high) :
    low ≤ s.first ∧ s.first ≤ s.last ∧ s.last ≤ high := by
  obtain ⟨left, hit, right, split, cut, clipped⟩ := inRange_eq_map_clip ordered inhabited
  rw [clipped] at member
  obtain ⟨t, inHit, rfl⟩ := List.mem_map.mp member
  have overlap := cut.overlap t inHit
  have held := ordered.inhabited t (by simp [split, inHit])
  simp only [Segment.clip] at overlap ⊢
  omega

theorem ordered_inRange
    (ordered : Ordered c.segments)
    (inhabited : low ≤ high) :
    Ordered (c.inRange low high) := by
  refine ⟨fun s member => (bounds_of_mem_inRange ordered inhabited s member).2.1, ?_⟩
  obtain ⟨left, hit, right, split, cut, clipped⟩ := inRange_eq_map_clip ordered inhabited
  have orderedHit := ((ordered_append_iff hit right).mp
    ((ordered_append_iff left _).mp cut.ordered).2.1).1
  rw [clipped, List.pairwise_map]
  apply orderedHit.ascending.imp
  intro s t below
  simp only [Segment.clip]
  omega

/-- Nothing is in a range that ends before it begins. -/
theorem inRange_of_inverted
    (c : Coverage)
    (inverted : high < low) :
    c.inRange low high = [] :=
  if_pos inverted

theorem Ordered.inRange
    (ordered : Ordered c.segments)
    (low high : Int) :
    Ordered (c.inRange low high) := by
  rcases Int.lt_or_le high low with inverted | inhabited
  · rw [inRange_of_inverted c inverted]
    exact ordered_nil
  · exact ordered_inRange ordered inhabited

/-- Clipping keeps the weights of the points in the range. -/
theorem weighs_inRange_iff
    (ordered : Ordered c.segments)
    (inhabited : low ≤ high)
    (point weight : Int) :
    Weighs (c.inRange low high) point weight ↔
      (low ≤ point ∧ point ≤ high) ∧ Weighs c.segments point weight := by
  obtain ⟨left, hit, right, split, cut, clipped⟩ := inRange_eq_map_clip ordered inhabited
  rw [clipped]
  constructor
  · rintro ⟨s, member, lower, upper, weightEq⟩
    obtain ⟨t, inHit, rfl⟩ := List.mem_map.mp member
    simp only [Segment.clip] at lower upper weightEq
    exact ⟨by omega, t, by simp [split, inHit], by omega, by omega, weightEq⟩
  · rintro ⟨within, s, member, lower, upper, weightEq⟩
    rw [split, List.mem_append, List.mem_append] at member
    rcases member with inLeft | inHit | inRight
    · have := cut.before s inLeft
      dsimp only at this
      omega
    · refine ⟨s.clip low high, List.mem_map.mpr ⟨s, inHit, rfl⟩, ?_, ?_, weightEq⟩
      · simp only [Segment.clip]
        omega
      · simp only [Segment.clip]
        omega
    · have := cut.beyond s inRight
      dsimp only at this
      omega

/-! ## Ranges that are not cut -/

/-- Whether every segment that enters a range holds all of it. -/
def Uncut (segments : List Segment) (low high : Int) : Prop :=
  ∀ s ∈ segments, low ≤ s.last → s.first ≤ high → s.first ≤ low ∧ high ≤ s.last

theorem Uncut.eq_of_mem_inRange
    (uncut : Uncut c.segments low high)
    (ordered : Ordered c.segments)
    (inhabited : low ≤ high)
    (s : Segment)
    (member : s ∈ c.inRange low high) :
    s = ⟨low, high, s.weight⟩ ∧ Weighs c.segments low s.weight := by
  have ⟨left, hit, right, split, cut, clipped⟩ := inRange_eq_map_clip ordered inhabited
  rw [clipped] at member
  have ⟨t, inHit, ofSegment⟩ := List.mem_map.mp member
  have inSegments : t ∈ c.segments := by simp [split, inHit]
  have ⟨enters, leaves⟩ := cut.overlap t inHit
  have ⟨first, last⟩ := uncut t inSegments enters leaves
  rw [← ofSegment, Segment.clip, Int.max_eq_right first, Int.min_eq_right last]
  exact ⟨rfl, t, inSegments, first, Int.le_trans inhabited last, rfl⟩

theorem Uncut.inRange_eq_nil
    (uncut : Uncut c.segments low high)
    (ordered : Ordered c.segments)
    (inhabited : low ≤ high)
    (uncovered : ∀ weight, ¬ Weighs c.segments low weight) :
    c.inRange low high = [] :=
  List.eq_nil_iff_forall_not_mem.mpr fun s member =>
    uncovered s.weight (uncut.eq_of_mem_inRange ordered inhabited s member).2

/-- A range that is not cut is shown as one segment, if it is covered. -/
theorem Uncut.inRange_eq_singleton
    (uncut : Uncut c.segments low high)
    (ordered : Ordered c.segments)
    (inhabited : low ≤ high)
    {weight : Int}
    (weighs : Weighs c.segments low weight) :
    c.inRange low high = [⟨low, high, weight⟩] := by
  have whole := uncut.eq_of_mem_inRange ordered inhabited
  have orderedRange := ordered_inRange ordered inhabited
  have ⟨s, member, _⟩ := (weighs_inRange_iff ordered inhabited low weight).mpr
    ⟨⟨Int.le_refl _, inhabited⟩, weighs⟩
  cases shown : c.inRange low high with
  | nil =>
    rw [shown] at member
    cases member
  | cons first rest =>
    rw [shown] at whole orderedRange
    have ⟨isRange, weighsFirst⟩ := whole first List.mem_cons_self
    have alone : rest = [] := by
      apply List.eq_nil_iff_forall_not_mem.mpr
      intro next inRest
      have beyond := ((ordered_cons_iff _ _).mp orderedRange).2.1 next inRest
      have nextIsRange := (whole next (List.mem_cons_of_mem first inRest)).1
      rw [isRange, nextIsRange] at beyond
      exact Int.not_le.mpr beyond inhabited
    rw [alone, isRange, ordered.weight_unique weighsFirst weighs]

theorem inRange_point
    (ordered : Ordered c.segments)
    {point weight : Int}
    (weighs : Weighs c.segments point weight) :
    c.inRange point point = [⟨point, point, weight⟩] := by
  have uncut : Uncut c.segments point point := fun s _ enters leaves => ⟨leaves, enters⟩
  exact uncut.inRange_eq_singleton ordered (Int.le_refl point) weighs

/-! ## Points of a range -/

theorem points_inRange
    (ordered : Ordered c.segments)
    (inhabited : low ≤ high) :
    points (c.inRange low high) =
      (Finset.Icc low high).filter fun point => (c.weightAt? point).isSome := by
  ext point
  rw [mem_points_iff, Finset.mem_filter, Finset.mem_Icc, Option.isSome_iff_exists]
  simp only [weighs_inRange_iff ordered inhabited, weightAt?_eq_some_iff ordered,
    exists_and_left]

theorem totalLength_inRange
    (ordered : Ordered c.segments)
    (inhabited : low ≤ high) :
    totalLength (c.inRange low high) =
      ((Finset.Icc low high).filter fun point => (c.weightAt? point).isSome).card := by
  rw [(ordered_inRange ordered inhabited).totalLength_eq_card, points_inRange ordered inhabited]

/-- Points that are not covered add nothing to the weight of a range. -/
theorem totalWeight_inRange
    (ordered : Ordered c.segments)
    (inhabited : low ≤ high) :
    totalWeight (c.inRange low high) =
      ∑ point ∈ Finset.Icc low high, (c.weightAt? point).getD 0 := by
  have weighs : ∀ point weight, Weighs (c.inRange low high) point weight →
      (c.weightAt? point).getD 0 = weight := by
    intro point weight inRange
    have held := ((weighs_inRange_iff ordered inhabited point weight).mp inRange).2
    rw [(weightAt?_eq_some_iff ordered point weight).mpr held, Option.getD_some]
  rw [(ordered_inRange ordered inhabited).totalWeight_eq_sum weighs,
    points_inRange ordered inhabited]
  apply Finset.sum_filter_of_ne
  intro point _ adds
  cases held : c.weightAt? point with
  | none =>
    rw [held] at adds
    exact absurd rfl adds
  | some weight => rfl

end UsageBilling.Coverage

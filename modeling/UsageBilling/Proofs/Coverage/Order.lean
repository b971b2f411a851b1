import Mathlib.Data.List.Chain
import UsageBilling.Coverage.Basic

/-!
Contract: what the order of segments gives.

Owns:
- lists of segments that are not empty and do not overlap;
- the reading of such a list as weights of points;
- the step from the well-kept condition on neighbours to the order of all
  segments, and to the gap between any two that have nothing between them.

Does not own: how operations keep the order.
-/

namespace UsageBilling.Coverage

variable {deviation : Nat}

/-- Segments that are not empty, in ascending order and without overlaps. -/
structure Ordered (segments : List Segment) : Prop where
  inhabited : ∀ s ∈ segments, s.first ≤ s.last
  ascending : segments.Pairwise fun s next => s.last < next.first

/-- Whether one segment of a list holds two points, the second not before the
first, and gives them a weight. -/
def Spans (segments : List Segment) (point next weight : Int) : Prop :=
  ∃ s ∈ segments, s.first ≤ point ∧ next ≤ s.last ∧ s.weight = weight

abbrev Weighs (segments : List Segment) (point weight : Int) : Prop :=
  Spans segments point point weight

/-! ## Ordered lists -/

theorem ordered_nil : Ordered [] :=
  ⟨by simp, List.Pairwise.nil⟩

theorem ordered_cons_iff
    (s : Segment)
    (rest : List Segment) :
    Ordered (s :: rest) ↔
      s.first ≤ s.last ∧ (∀ t ∈ rest, s.last < t.first) ∧ Ordered rest := by
  constructor
  · intro ordered
    have ascending := List.pairwise_cons.mp ordered.ascending
    exact ⟨ordered.inhabited s (by simp), ascending.1,
      ⟨fun t member => ordered.inhabited t (by simp [member]), ascending.2⟩⟩
  · rintro ⟨inhabited, below, ordered⟩
    refine ⟨?_, List.pairwise_cons.mpr ⟨below, ordered.ascending⟩⟩
    intro t member
    rcases List.mem_cons.mp member with rfl | inRest
    · exact inhabited
    · exact ordered.inhabited t inRest

theorem ordered_append_iff
    (left right : List Segment) :
    Ordered (left ++ right) ↔
      Ordered left ∧ Ordered right ∧ ∀ s ∈ left, ∀ t ∈ right, s.last < t.first := by
  constructor
  · intro ordered
    have ascending := List.pairwise_append.mp ordered.ascending
    exact ⟨⟨fun s member => ordered.inhabited s (by simp [member]), ascending.1⟩,
      ⟨fun t member => ordered.inhabited t (by simp [member]), ascending.2.1⟩,
      ascending.2.2⟩
  · rintro ⟨orderedLeft, orderedRight, below⟩
    refine ⟨?_, List.pairwise_append.mpr
      ⟨orderedLeft.ascending, orderedRight.ascending, below⟩⟩
    intro s member
    rcases List.mem_append.mp member with inLeft | inRight
    · exact orderedLeft.inhabited s inLeft
    · exact orderedRight.inhabited s inRight

/-! ## Weights of points -/

@[simp]
theorem spans_nil
    (point next weight : Int) :
    ¬ Spans [] point next weight := by
  simp [Spans]

@[simp]
theorem spans_cons
    (s : Segment)
    (rest : List Segment)
    (point next weight : Int) :
    Spans (s :: rest) point next weight ↔
      (s.first ≤ point ∧ next ≤ s.last ∧ s.weight = weight) ∨
        Spans rest point next weight := by
  simp [Spans]

@[simp]
theorem spans_append
    (left right : List Segment)
    (point next weight : Int) :
    Spans (left ++ right) point next weight ↔
      Spans left point next weight ∨ Spans right point next weight := by
  simp only [Spans, List.mem_append, or_and_right, exists_or]

theorem not_spans_of_last_lt
    {segments : List Segment}
    {point next weight : Int}
    (short : ∀ s ∈ segments, s.last < next) :
    ¬ Spans segments point next weight := by
  rintro ⟨s, member, _, upper, _⟩
  have := short s member
  omega

theorem not_spans_of_lt_first
    {segments : List Segment}
    {point next weight : Int}
    (late : ∀ s ∈ segments, point < s.first) :
    ¬ Spans segments point next weight := by
  rintro ⟨s, member, lower, _⟩
  have := late s member
  omega

/-- Of ordered segments at most one holds a point. -/
theorem Ordered.eq_of_holds
    {segments : List Segment}
    (ordered : Ordered segments)
    {s t : Segment}
    (inLeft : s ∈ segments)
    (inRight : t ∈ segments)
    {point : Int}
    (leftHolds : s.first ≤ point ∧ point ≤ s.last)
    (rightHolds : t.first ≤ point ∧ point ≤ t.last) :
    s = t := by
  induction segments with
  | nil => simp at inLeft
  | cons head rest inductionHypothesis =>
    obtain ⟨_, below, orderedRest⟩ := (ordered_cons_iff head rest).mp ordered
    rcases List.mem_cons.mp inLeft with rfl | leftInRest <;>
      rcases List.mem_cons.mp inRight with rfl | rightInRest
    · rfl
    · have apart := below t rightInRest
      omega
    · have apart := below s leftInRest
      omega
    · exact inductionHypothesis orderedRest leftInRest rightInRest

theorem Ordered.weight_unique
    {segments : List Segment}
    (ordered : Ordered segments)
    {point weight other : Int}
    (first : Weighs segments point weight)
    (second : Weighs segments point other) :
    weight = other := by
  obtain ⟨s, inLeft, lower, upper, rfl⟩ := first
  obtain ⟨t, inRight, lower', upper', rfl⟩ := second
  rw [ordered.eq_of_holds inLeft inRight ⟨lower, upper⟩ ⟨lower', upper'⟩]

/-- The weight of a point is that of the one segment that holds it. -/
theorem weightAt?_eq_some_iff
    {c : Coverage}
    (ordered : Ordered c.segments)
    (point weight : Int) :
    c.weightAt? point = some weight ↔ Weighs c.segments point weight := by
  unfold weightAt?
  constructor
  · intro found
    obtain ⟨s, isFirst, weightEq⟩ := Option.map_eq_some_iff.mp found
    have holds := List.find?_some isFirst
    simp only [Segment.holds, Bool.and_eq_true, decide_eq_true_eq] at holds
    exact ⟨s, List.mem_of_find?_eq_some isFirst, holds.1, holds.2, weightEq⟩
  · rintro ⟨s, member, lower, upper, rfl⟩
    have someHolds : (c.segments.find? fun s => s.holds point).isSome := by
      rw [List.find?_isSome]
      exact ⟨s, member, by simp [Segment.holds, lower, upper]⟩
    obtain ⟨t, isFirst⟩ := Option.isSome_iff_exists.mp someHolds
    have holds := List.find?_some isFirst
    simp only [Segment.holds, Bool.and_eq_true, decide_eq_true_eq] at holds
    have same : t = s :=
      ordered.eq_of_holds (List.mem_of_find?_eq_some isFirst) member holds ⟨lower, upper⟩
    rw [isFirst, same]
    rfl

/-! ## Well-kept segments -/

theorem wellKept_nil : WellKept deviation [] :=
  trivial

theorem wellKept_iff
    (segments : List Segment) :
    WellKept deviation segments ↔
      (∀ s ∈ segments, s.first ≤ s.last) ∧ segments.IsChain (Separated deviation) := by
  induction segments with
  | nil => simp [WellKept]
  | cons s rest inductionHypothesis =>
    cases rest with
    | nil => simp [WellKept]
    | cons next rest =>
      rw [WellKept, inductionHypothesis, List.isChain_cons_cons]
      simp only [List.mem_cons, forall_eq_or_imp]
      tauto

theorem wellKept_append_iff
    (left right : List Segment) :
    WellKept deviation (left ++ right) ↔
      WellKept deviation left ∧ WellKept deviation right ∧
        ∀ s ∈ left.getLast?, ∀ t ∈ right.head?, Separated deviation s t := by
  simp only [wellKept_iff, List.isChain_append, List.forall_mem_append]
  tauto

theorem wellKept_cons_iff
    (s : Segment)
    (rest : List Segment) :
    WellKept deviation (s :: rest) ↔
      s.first ≤ s.last ∧ (∀ t ∈ rest.head?, Separated deviation s t) ∧
        WellKept deviation rest := by
  rw [show s :: rest = [s] ++ rest from rfl, wellKept_append_iff]
  simp only [WellKept, List.getLast?_singleton, Option.mem_def, Option.some.injEq,
    forall_eq']
  tauto

/-- Well-kept segments are ordered, not only next to each other. -/
theorem WellKept.ordered
    {segments : List Segment}
    (kept : WellKept deviation segments) :
    Ordered segments := by
  induction segments with
  | nil => exact ordered_nil
  | cons s rest inductionHypothesis =>
    obtain ⟨inhabited, separated, keptRest⟩ := (wellKept_cons_iff s rest).mp kept
    have orderedRest := inductionHypothesis keptRest
    refine (ordered_cons_iff s rest).mpr ⟨inhabited, ?_, orderedRest⟩
    intro t member
    cases rest with
    | nil => simp at member
    | cons next rest =>
      have below : s.last < next.first := (separated next rfl).1
      rcases List.mem_cons.mp member with rfl | inRest
      · exact below
      · obtain ⟨nextInhabited, beyond, _⟩ := (ordered_cons_iff next rest).mp orderedRest
        have further := beyond t inRest
        omega

/-- Two well-kept segments of one weight with nothing between them are farther
apart than the deviation. -/
theorem WellKept.gap_of_nothing_between
    {segments : List Segment}
    (kept : WellKept deviation segments)
    {s t : Segment}
    (leftMember : s ∈ segments)
    (rightMember : t ∈ segments)
    (below : s.last < t.first)
    (sameWeight : s.weight = t.weight)
    (nothingBetween : ∀ u ∈ segments, ¬ (s.last < u.first ∧ u.last < t.first)) :
    (deviation : Int) < t.first - s.last := by
  induction segments with
  | nil => simp at leftMember
  | cons head rest inductionHypothesis =>
    obtain ⟨_, separated, keptRest⟩ := (wellKept_cons_iff head rest).mp kept
    obtain ⟨_, beyond, orderedRest⟩ := (ordered_cons_iff head rest).mp kept.ordered
    rcases List.mem_cons.mp leftMember with rfl | leftInRest
    · have rightInRest : t ∈ rest := by
        rcases List.mem_cons.mp rightMember with rfl | inRest
        · have inhabited := kept.ordered.inhabited t leftMember
          omega
        · exact inRest
      -- The head of the rest is the only candidate that can follow directly.
      cases rest with
      | nil => simp at rightInRest
      | cons next rest =>
        have nextSeparated := separated next rfl
        rcases List.mem_cons.mp rightInRest with rfl | further
        · exact nextSeparated.2 sameWeight
        · exfalso
          apply nothingBetween next (by simp)
          obtain ⟨_, pastNext, _⟩ := (ordered_cons_iff next rest).mp orderedRest
          exact ⟨nextSeparated.1, pastNext t further⟩
    · have rightInRest : t ∈ rest := by
        rcases List.mem_cons.mp rightMember with rfl | inRest
        · have headBelow := beyond s leftInRest
          have leftInhabited := kept.ordered.inhabited s leftMember
          have headInhabited := kept.ordered.inhabited t rightMember
          omega
        · exact inRest
      apply inductionHypothesis keptRest leftInRest rightInRest
      intro u member
      exact nothingBetween u (by simp [member])

end UsageBilling.Coverage

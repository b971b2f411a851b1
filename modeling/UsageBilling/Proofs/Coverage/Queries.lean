import UsageBilling.Proofs.Coverage.Calls
import UsageBilling.Proofs.Coverage.Clipping

/-!
Contract: queries of a part of the line.

Owns:
- what a query yields, as the weights of points: segments inside the range, in order,
  which hold the points of the range with the weights that the coverage gives them;
- the length and the weight of a query, as sums over the points of the range;
- a range in two parts: the weights, lengths and weights of the parts make up those of
  the range;
- all of this for coverage that calls lead to, and for ranges of any two bounds, a range
  that ends before it begins included.

Does not own: whether a total fits in a number of some width.
-/

namespace UsageBilling.Coverage

variable {c : Coverage}

/-- A query yields segments in order and inside the range, which show the weights that
its points have. Its length and its weight are sums over these points. -/
structure ShowsWeights (c : Coverage) (low high : Int) : Prop where
  ordered : Ordered (c.inRange low high)
  inside : ∀ s ∈ c.inRange low high, low ≤ s.first ∧ s.last ≤ high
  weights : ∀ point weight, low ≤ point → point ≤ high →
    (Weighs (c.inRange low high) point weight ↔ c.weightAt? point = some weight)
  length : totalLength (c.inRange low high) =
    ((Finset.Icc low high).filter fun point => (c.weightAt? point).isSome).card
  weight : totalWeight (c.inRange low high) =
    ∑ point ∈ Finset.Icc low high, (c.weightAt? point).getD 0

/-- Queries of two ranges that touch make up the query of both. -/
structure AddUp (c : Coverage) (low middle high : Int) : Prop where
  weights : ∀ point weight, Weighs (c.inRange low high) point weight ↔
    Weighs (c.inRange low middle) point weight ∨
      Weighs (c.inRange (middle + 1) high) point weight
  length : totalLength (c.inRange low middle) + totalLength (c.inRange (middle + 1) high) =
    totalLength (c.inRange low high)
  weight : totalWeight (c.inRange low middle) + totalWeight (c.inRange (middle + 1) high) =
    totalWeight (c.inRange low high)

theorem showsWeights_of_inverted
    (c : Coverage)
    {low high : Int}
    (inverted : high < low) :
    ShowsWeights c low high := by
  have nothing := inRange_of_inverted c inverted
  have noPoint : Finset.Icc low high = ∅ := Finset.Icc_eq_empty (Int.not_le.mpr inverted)
  refine ⟨?_, ?_, ?_, ?_, ?_⟩
  · rw [nothing]
    exact ordered_nil
  · rw [nothing]
    exact fun s member => absurd member List.not_mem_nil
  · intro point weight lower upper
    exact absurd (Int.le_trans lower upper) (Int.not_le.mpr inverted)
  · rw [nothing, noPoint]
    rfl
  · rw [nothing, noPoint]
    rfl

theorem Ordered.showsWeights
    (ordered : Ordered c.segments)
    (low high : Int) :
    ShowsWeights c low high := by
  rcases Int.lt_or_le high low with inverted | inhabited
  · exact showsWeights_of_inverted c inverted
  · refine ⟨ordered_inRange ordered inhabited, ?_, ?_, totalLength_inRange ordered inhabited,
      totalWeight_inRange ordered inhabited⟩
    · intro s member
      have ⟨lower, _, upper⟩ := bounds_of_mem_inRange ordered inhabited s member
      exact ⟨lower, upper⟩
    · intro point weight lower upper
      rw [weighs_inRange_iff ordered inhabited, weightAt?_eq_some_iff ordered]
      exact and_iff_right ⟨lower, upper⟩

/-- The points of a range in two parts. -/
theorem Icc_eq_union
    {low middle high : Int}
    (lower : low ≤ middle)
    (upper : middle < high) :
    Finset.Icc low high = Finset.Icc low middle ∪ Finset.Icc (middle + 1) high ∧
      Disjoint (Finset.Icc low middle) (Finset.Icc (middle + 1) high) := by
  constructor
  · ext point
    simp only [Finset.mem_union, Finset.mem_Icc]
    omega
  · rw [Finset.disjoint_left]
    intro point inFirst inSecond
    rw [Finset.mem_Icc] at inFirst inSecond
    omega

theorem Ordered.addUp
    (ordered : Ordered c.segments)
    {low middle high : Int}
    (lower : low ≤ middle)
    (upper : middle < high) :
    AddUp c low middle high := by
  have whole : low ≤ high := Int.le_trans lower (Int.le_of_lt upper)
  have ⟨parts, apart⟩ := Icc_eq_union lower upper
  refine ⟨?_, ?_, ?_⟩
  · intro point weight
    rw [weighs_inRange_iff ordered whole, weighs_inRange_iff ordered lower,
      weighs_inRange_iff ordered upper, ← or_and_right]
    apply and_congr_left'
    omega
  · rw [totalLength_inRange ordered whole, totalLength_inRange ordered lower,
      totalLength_inRange ordered upper, parts, Finset.filter_union,
      Finset.card_union_of_disjoint (Finset.disjoint_filter_filter apart), Nat.cast_add]
  · rw [totalWeight_inRange ordered whole, totalWeight_inRange ordered lower,
      totalWeight_inRange ordered upper, parts, Finset.sum_union apart]

/-- Queries of whatever coverage calls lead to show the weights of its points exactly, for
ranges of any two bounds, and the queries of two ranges that touch add up. -/
theorem showsWeights_and_addUp_of_reached
    (deviation : Nat)
    (origin : Origin)
    (calls : List Call) :
    (∀ low high, ShowsWeights (reached deviation origin calls) low high) ∧
      ∀ low middle high, low ≤ middle → middle < high →
        AddUp (reached deviation origin calls) low middle high := by
  have ordered := (kept_reached deviation origin calls).1.ordered
  exact ⟨ordered.showsWeights, fun low middle high lower upper => ordered.addUp lower upper⟩

/-- Two segments are cut off at the bounds of a query, which are the ends of 64 bits on one
side, and one between them is shown whole. -/
example :
    let c := reached 0 .fresh [.addRange (-20) 5 3, .addRange 10 14 7, .addRange 20 30 (-2)]
    c.inRange Text.int64Min 22 = [⟨-20, 5, 3⟩, ⟨10, 14, 7⟩, ⟨20, 22, -2⟩] ∧
      c.inRange 0 22 = [⟨0, 5, 3⟩, ⟨10, 14, 7⟩, ⟨20, 22, -2⟩] ∧
      totalWeight (c.inRange 0 22) = 47 ∧ c.inRange 22 0 = [] := by
  decide

end UsageBilling.Coverage

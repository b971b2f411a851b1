import Mathlib.Algebra.Order.Floor.Ring
import Mathlib.Data.Rat.Floor
import Mathlib.Tactic.FieldSimp
import Mathlib.Tactic.Linarith
import UsageBilling.Number.Rounding

/-!
Contract: the integer nearest to a rational, a half going to the even neighbour.

Owns:
- the nearest integer, which is at most one half away, and is even at a half;
- it is the only integer of that kind, so that it changes sign with the number
  and keeps the order of numbers;
- a ratio of naturals is rounded to it.

Does not own: the number of fraction digits that a number keeps.
-/

namespace UsageBilling

variable {x y : ℚ} {k : ℤ}

/-- The integer nearest to a number; of two that are equally near, the even one. -/
def nearestEven (x : ℚ) : ℤ :=
  if x - ⌊x⌋ < 1 / 2 then ⌊x⌋
  else if 1 / 2 < x - ⌊x⌋ then ⌊x⌋ + 1
  else ⌊x⌋ + ⌊x⌋ % 2

/-! ## The nearest integer -/

/-- Whether an integer is at most one half away, and even if it is as much. -/
def IsNearestEven (x : ℚ) (k : ℤ) : Prop :=
  |x - k| < 1 / 2 ∨ |x - k| = 1 / 2 ∧ k % 2 = 0

theorem isNearestEven_nearestEven
    (x : ℚ) :
    IsNearestEven x (nearestEven x) := by
  have lower := Int.floor_le x
  have upper := Int.lt_floor_add_one x
  unfold IsNearestEven nearestEven
  split
  · rename_i below
    left
    rw [abs_of_nonneg (by linarith)]
    exact below
  · rename_i notBelow
    split
    · rename_i above
      left
      push_cast
      rw [abs_of_neg (by linarith)]
      linarith
    · rename_i notAbove
      right
      have half : x - ⌊x⌋ = 1 / 2 := le_antisymm (not_lt.mp notAbove) (not_lt.mp notBelow)
      refine ⟨?_, by omega⟩
      rcases Int.emod_two_eq_zero_or_one ⌊x⌋ with even | odd
      · rw [even, add_zero, half, abs_of_pos one_half_pos]
      · rw [odd]
        push_cast
        rw [show x - (⌊x⌋ + 1) = -(1 / 2) by linarith, abs_neg, abs_of_pos one_half_pos]

theorem IsNearestEven.abs_sub_le
    (nearest : IsNearestEven x k) :
    |x - k| ≤ 1 / 2 := by
  rcases nearest with below | ⟨half, _⟩
  · exact below.le
  · exact half.le

/-- Nearest integers are in the order of their numbers. Two neighbours that are the
wrong way round would both be a half away, and one of them is odd. -/
theorem IsNearestEven.le_of_le
    {j : ℤ}
    (nearest : IsNearestEven x j)
    (nearest' : IsNearestEven y k)
    (atMost : x ≤ y) :
    j ≤ k := by
  by_contra less
  have gap : (k : ℚ) + 1 ≤ j := by exact_mod_cast not_le.mp less
  have below := abs_le.mp nearest.abs_sub_le
  have above := abs_le.mp nearest'.abs_sub_le
  have xHalf : x - j = -(1 / 2) := by linarith
  have yHalf : y - k = 1 / 2 := by linarith
  have neighbours : j = k + 1 := by
    have : (j : ℚ) = k + 1 := by linarith
    exact_mod_cast this
  unfold IsNearestEven at nearest nearest'
  rw [xHalf, abs_neg, abs_of_pos one_half_pos] at nearest
  rw [yHalf, abs_of_pos one_half_pos] at nearest'
  have evenLeft := (nearest.resolve_left (lt_irrefl _)).2
  have evenRight := (nearest'.resolve_left (lt_irrefl _)).2
  omega

theorem IsNearestEven.eq_nearestEven
    (nearest : IsNearestEven x k) :
    nearestEven x = k :=
  le_antisymm ((isNearestEven_nearestEven x).le_of_le nearest (le_refl x))
    (nearest.le_of_le (isNearestEven_nearestEven x) (le_refl x))

theorem nearestEven_eq_iff :
    nearestEven x = k ↔ IsNearestEven x k :=
  ⟨fun same => same ▸ isNearestEven_nearestEven x, IsNearestEven.eq_nearestEven⟩

/-! ## Laws -/

theorem abs_sub_nearestEven_le
    (x : ℚ) :
    |x - nearestEven x| ≤ 1 / 2 :=
  (isNearestEven_nearestEven x).abs_sub_le

theorem nearestEven_mono
    (atMost : x ≤ y) :
    nearestEven x ≤ nearestEven y :=
  (isNearestEven_nearestEven x).le_of_le (isNearestEven_nearestEven y) atMost

@[simp]
theorem nearestEven_intCast
    (k : ℤ) :
    nearestEven k = k := by
  apply IsNearestEven.eq_nearestEven
  left
  rw [sub_self, abs_zero]
  exact one_half_pos

theorem nearestEven_nonneg
    (nonneg : 0 ≤ x) :
    0 ≤ nearestEven x := by
  rw [← nearestEven_intCast 0, Int.cast_zero]
  exact nearestEven_mono nonneg

theorem nearestEven_neg
    (x : ℚ) :
    nearestEven (-x) = -nearestEven x := by
  apply IsNearestEven.eq_nearestEven
  have flipped : -x - (-nearestEven x : ℤ) = -(x - nearestEven x) := by
    push_cast
    ring
  rw [IsNearestEven, flipped, abs_neg, Int.neg_emod_two]
  exact isNearestEven_nearestEven x

/-- A number rounds to a value below an even bound if it lies below it by more than
one half. -/
theorem nearestEven_lt_iff
    (even : k % 2 = 0) :
    nearestEven x < k ↔ x < k - 1 / 2 := by
  have near := abs_le.mp (abs_sub_nearestEven_le x)
  constructor
  · intro below
    have atMost : (nearestEven x : ℚ) + 1 ≤ k := by exact_mod_cast below
    apply lt_of_le_of_ne (by linarith)
    intro half
    have toBound : IsNearestEven x k := by
      right
      rw [half, show (k : ℚ) - 1 / 2 - k = -(1 / 2) by ring, abs_neg, abs_of_pos one_half_pos]
      exact ⟨rfl, even⟩
    rw [toBound.eq_nearestEven] at below
    exact lt_irrefl k below
  · intro below
    have : (nearestEven x : ℚ) < k := by linarith
    exact_mod_cast this

/-! ## Ratios -/

/-- Rounding a ratio of naturals takes the nearest integer. -/
theorem nearestEven_div
    (numerator : ℕ)
    {denominator : ℕ}
    (positive : 0 < denominator) :
    nearestEven (numerator / denominator) = HalfRule.toEven.round numerator denominator := by
  have positiveRat : (0 : ℚ) < denominator := Nat.cast_pos.mpr positive
  have floor : ⌊(numerator : ℚ) / denominator⌋ = (numerator / denominator : ℕ) := by
    rw [Rat.floor_natCast_div_natCast]
    rfl
  have rest : (numerator : ℚ) / denominator - (numerator / denominator : ℕ) =
      (numerator % denominator : ℕ) / denominator := by
    rw [eq_div_iff positiveRat.ne', sub_mul, div_mul_cancel₀ _ positiveRat.ne', sub_eq_iff_eq_add']
    exact_mod_cast (Nat.div_add_mod' numerator denominator).symm
  have belowHalf : ((numerator % denominator : ℕ) : ℚ) / denominator < 1 / 2 ↔
      2 * (numerator % denominator) < denominator := by
    rw [div_lt_div_iff₀ positiveRat two_pos, one_mul, mul_comm]
    exact_mod_cast Iff.rfl
  have aboveHalf : 1 / 2 < ((numerator % denominator : ℕ) : ℚ) / denominator ↔
      denominator < 2 * (numerator % denominator) := by
    rw [div_lt_div_iff₀ two_pos positiveRat, one_mul, mul_comm]
    exact_mod_cast Iff.rfl
  unfold nearestEven HalfRule.round
  rw [floor, Int.cast_natCast, rest]
  simp only [belowHalf, aboveHalf]
  split
  · rfl
  · split
    · rfl
    · rfl

end UsageBilling

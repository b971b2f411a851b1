import Mathlib.Data.Nat.Cast.Field
import Mathlib.Data.Rat.Floor
import Mathlib.Tactic.Linarith
import Mathlib.Tactic.NormNum
import Mathlib.Tactic.Positivity
import UsageBilling.Proofs.Decimal.Addition

/-!
Contract: decimals in the order of their values.

Owns:
- comparison, which is that of values;
- the values of integers;
- rounding up to an integer, which gives the least integer that is not below the
  value.

Does not own: values that are rounded to fit.
-/

namespace UsageBilling.Decimal

theorem lessThan_iff
    (a b : Decimal) :
    a.lessThan b = true ↔ a.toRat < b.toRat := by
  have positive : ∀ scale, (0 : Rat) < Power.ofTen scale :=
    fun scale => Nat.cast_pos.mpr (Power.ofTen_pos scale)
  rw [toRat_eq_div, toRat_eq_div, div_lt_div_iff₀ (positive a.scale) (positive b.scale)]
  have exact : a.lessThan b = true ↔
      a.unscaled * Power.ofTen b.scale < b.unscaled * Power.ofTen a.scale := by
    rw [lessThan, Decimal.compare, beq_iff_eq]
    exact compare_lt_iff_lt
  rw [exact]
  exact_mod_cast Iff.rfl

theorem toRat_one : one.toRat = 1 := by
  rw [toRat_eq_div]
  norm_num [one, unscaled]

/-! ## Integers -/

theorem toRat_ofInt
    {n : Int}
    (small : n.natAbs < mantissaLimit) :
    (ofInt n).toRat = n := by
  have mantissa : min n.natAbs (mantissaLimit - 1) = n.natAbs := by
    simp only [mantissaLimit] at small ⊢
    omega
  have unscaled : (ofInt n).unscaled = n := by
    simp only [Decimal.unscaled, ofInt, mantissa, decide_eq_true_eq]
    split <;> omega
  rw [toRat, unscaled]
  exact Rat.mkRat_one n

theorem toRat_of_scale_eq_zero
    {d : Decimal}
    (whole : d.scale = 0) :
    d.toRat = d.unscaled := by
  rw [toRat, whole]
  exact Rat.mkRat_one d.unscaled

theorem ceil_natCast_div
    (numerator : ℕ)
    {denominator : ℕ}
    (positive : 0 < denominator)
    (partial_ : numerator % denominator ≠ 0) :
    ⌈(numerator : ℚ) / denominator⌉ = (numerator / denominator + 1 : ℕ) := by
  have positiveRat : (0 : ℚ) < denominator := Nat.cast_pos.mpr positive
  have parts := Nat.div_add_mod' numerator denominator
  have remainder := Nat.mod_lt numerator positive
  rw [Int.ceil_eq_iff, Int.cast_natCast, lt_div_iff₀ positiveRat, div_le_iff₀ positiveRat]
  push_cast
  rw [add_sub_cancel_right, add_mul, one_mul]
  constructor
  · exact_mod_cast show numerator / denominator * denominator < numerator by omega
  · exact_mod_cast show numerator ≤ numerator / denominator * denominator + denominator by omega

/-- Rounding up gives the least integer that is not below the number. -/
theorem toRat_ceil
    (d : Decimal) :
    d.ceil.toRat = ⌈d.toRat⌉ := by
  have scaled : d.toRat = d.unscaled / (Power.ofTen d.scale : ℚ) := toRat_eq_div d
  unfold ceil
  split
  · rename_i whole
    rw [toRat_of_scale_eq_zero whole, Int.ceil_intCast]
  · split
    · rename_i above
      obtain ⟨positive, partial_⟩ : d.negative = false ∧
          d.mantissa % Power.ofTen d.scale ≠ 0 := by
        simpa using above
      have ownUnscaled : d.unscaled = d.mantissa := by
        rw [unscaled, positive, if_neg Bool.false_ne_true]
      rw [toRat_of_scale_eq_zero rfl, scaled, ownUnscaled, Int.cast_natCast,
        ceil_natCast_div d.mantissa (Power.ofTen_pos d.scale) partial_]
      rfl
    · rename_i notAbove
      rw [toRat_of_scale_eq_zero rfl, scaled]
      cases negative : d.negative with
      | true =>
        have floor : ⌊(d.mantissa : ℚ) / Power.ofTen d.scale⌋ =
            (d.mantissa / Power.ofTen d.scale : ℕ) := by
          rw [Rat.floor_natCast_div_natCast]
          rfl
        simp only [unscaled, negative, if_true]
        push_cast
        rw [neg_div, Int.ceil_neg, floor]
        push_cast
        rfl
      | false =>
        have divides : d.mantissa % Power.ofTen d.scale = 0 := by
          simpa [negative] using notAbove
        have positive : (Power.ofTen d.scale : ℚ) ≠ 0 :=
          Nat.cast_ne_zero.mpr (Nat.pos_iff_ne_zero.mp (Power.ofTen_pos d.scale))
        simp only [unscaled, negative, Bool.false_eq_true, if_false, Int.cast_natCast]
        rw [← Nat.cast_div (Nat.dvd_of_mod_eq_zero divides) positive, Int.ceil_natCast,
          Int.cast_natCast]

end UsageBilling.Decimal

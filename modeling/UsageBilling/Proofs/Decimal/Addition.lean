import Mathlib.Tactic.FieldSimp
import Mathlib.Tactic.Ring
import UsageBilling.Decimal.Arithmetic

/-!
Contract: sums of decimals that lose no fraction digits are exact.

Owns:
- when an addition keeps all fraction digits of its operands;
- such an addition, and a sum of such additions, has the exact value.

Does not own: how far a rounded sum is from the exact one.
-/

namespace UsageBilling.Decimal

variable {a b held sum : Decimal} {terms : List Decimal}

/-! ## One addition -/

/-- Whether a sum has all fraction digits of its operands. Beside a zero the other
operand stands as it is. -/
def KeepsDigits (a b sum : Decimal) : Prop :=
  a.isZero = true ∨ b.isZero = true ∨ sum.scale = max a.scale b.scale

instance (a b sum : Decimal) : Decidable (KeepsDigits a b sum) :=
  inferInstanceAs (Decidable (_ ∨ _ ∨ _))

theorem toRat_eq_div
    (d : Decimal) :
    d.toRat = d.unscaled / (Power.ofTen d.scale : Rat) :=
  Rat.mkRat_eq_div d.unscaled (Power.ofTen d.scale)

theorem toRat_of_isZero
    (zero : a.isZero = true) :
    a.toRat = 0 := by
  have mantissa : a.mantissa = 0 := by simpa [isZero] using zero
  have unscaled : a.unscaled = 0 := by simp [Decimal.unscaled, mantissa]
  rw [toRat, unscaled, Rat.zero_mkRat]

/-- A number that is reduced by no digit stands as it is. -/
theorem parts_of_reduce?
    {negative : Bool}
    {mantissa scale : Nat}
    (reduced : reduce? negative mantissa scale = some sum)
    (sameScale : sum.scale = scale) :
    sum.negative = negative ∧ sum.mantissa = mantissa := by
  have ⟨dropped, found, made⟩ := Option.bind_eq_some_iff.mp reduced
  have bound : dropped < scale + 1 := List.mem_range.mp (List.mem_of_find?_eq_some found)
  unfold ofSignedParts? at made
  split at made
  · cases made
    have nothing : dropped = 0 := by
      simp only at sameScale
      omega
    simp only [nothing, Power.ofTen_zero, HalfRule.round_one, and_self]
  · cases made

theorem unscaled_of_parts
    {total : Int}
    (negative : sum.negative = decide (total < 0))
    (mantissa : sum.mantissa = total.natAbs) :
    sum.unscaled = total := by
  rw [unscaled, negative, mantissa]
  split
  · rename_i below
    have := of_decide_eq_true below
    omega
  · rename_i notBelow
    have := of_decide_eq_false (Bool.eq_false_iff.mpr notBelow)
    omega

/-- A mantissa brought to a larger scale has the same value. -/
theorem toRat_eq_rescaled
    {scale : Nat}
    (larger : a.scale ≤ scale) :
    a.toRat = (a.unscaled * Power.ofTen (scale - a.scale) : Int) / (Power.ofTen scale : Rat) := by
  have powers : (Power.ofTen scale : Rat) =
      Power.ofTen a.scale * Power.ofTen (scale - a.scale) := by
    rw [← Nat.cast_mul, ← Power.ofTen_add, Nat.add_sub_of_le larger]
  have positive : (Power.ofTen a.scale : Rat) ≠ 0 :=
    Nat.cast_ne_zero.mpr (Nat.pos_iff_ne_zero.mp (Power.ofTen_pos a.scale))
  have positiveRest : (Power.ofTen (scale - a.scale) : Rat) ≠ 0 :=
    Nat.cast_ne_zero.mpr (Nat.pos_iff_ne_zero.mp (Power.ofTen_pos _))
  rw [toRat_eq_div, powers]
  push_cast
  field_simp

theorem toRat_add?
    (added : a.add? b = some sum)
    (keeps : KeepsDigits a b sum) :
    sum.toRat = a.toRat + b.toRat := by
  unfold add? at added
  split at added
  · rename_i zero
    cases added
    rw [toRat_of_isZero zero, zero_add]
  · rename_i notZero
    split at added
    · rename_i zero
      cases added
      rw [toRat_of_isZero zero, add_zero]
    · rename_i notZero'
      have sameScale : sum.scale = max a.scale b.scale :=
        (keeps.resolve_left notZero).resolve_left notZero'
      have ⟨negative, mantissa⟩ := parts_of_reduce? added sameScale
      rw [toRat_eq_div, sameScale, unscaled_of_parts negative mantissa,
        toRat_eq_rescaled (Nat.le_max_left a.scale b.scale),
        toRat_eq_rescaled (Nat.le_max_right a.scale b.scale)]
      push_cast
      ring

/-! ## Sums -/

/-- Whether no addition drops a fraction digit when terms are added in order to
what is held. -/
def SumKeepsDigits : Decimal → List Decimal → Prop
  | _, [] => True
  | held, term :: rest =>
    ∀ next ∈ held.add? term, KeepsDigits held term next ∧ SumKeepsDigits next rest

instance decidableSumKeepsDigits :
    (held : Decimal) → (terms : List Decimal) → Decidable (SumKeepsDigits held terms)
  | _, [] => isTrue trivial
  | held, term :: rest =>
    have (next : Decimal) : Decidable (SumKeepsDigits next rest) :=
      decidableSumKeepsDigits next rest
    inferInstanceAs (Decidable (∀ next ∈ held.add? term, _))

theorem toRat_foldlM_add?
    (summed : terms.foldlM add? held = some sum)
    (keeps : SumKeepsDigits held terms) :
    sum.toRat = held.toRat + (terms.map toRat).sum := by
  induction terms generalizing held with
  | nil =>
    cases summed
    rw [List.map_nil, List.sum_nil, add_zero]
  | cons term rest inductionHypothesis =>
    have ⟨next, added, restSummed⟩ := Option.bind_eq_some_iff.mp summed
    have ⟨keepsNext, keepsRest⟩ := keeps next added
    rw [inductionHypothesis restSummed keepsRest, toRat_add? added keepsNext, List.map_cons,
      List.sum_cons, add_assoc]

theorem toRat_sum?
    (summed : sum? terms = some sum)
    (keeps : SumKeepsDigits zero terms) :
    sum.toRat = (terms.map toRat).sum := by
  rw [toRat_foldlM_add? summed keeps, toRat_of_isZero rfl, zero_add]

/-- A sum with one more term is the sum so far with the term added. -/
theorem sum?_append_singleton
    (summed : sum? terms = some held)
    (term : Decimal) :
    sum? (terms ++ [term]) = held.add? term := by
  unfold sum? at summed ⊢
  rw [List.foldlM_append, summed]
  show (held.add? term).bind some = held.add? term
  exact Option.bind_fun_some _

end UsageBilling.Decimal

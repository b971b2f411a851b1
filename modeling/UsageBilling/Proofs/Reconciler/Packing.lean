import UsageBilling.Reconciler.Packing

/-!
Contract: quantities survive the weights they are packed into.

Owns:
- numbers of one value have their mantissas in the ratio of their powers of
  ten;
- removing trailing zeros keeps the value;
- unpacking what was packed gives a number of the same value.

Does not own: weights that no quantity was packed into.
-/

namespace UsageBilling

namespace Decimal

theorem toRat_eq_iff
    (a b : Decimal) :
    a.toRat = b.toRat ↔
      a.unscaled * Power.ofTen b.scale = b.unscaled * Power.ofTen a.scale :=
  Rat.mkRat_eq_iff (Nat.pos_iff_ne_zero.mp (Power.ofTen_pos a.scale))
    (Nat.pos_iff_ne_zero.mp (Power.ofTen_pos b.scale))

theorem stripZeros_mul_ofTen
    (mantissa scale : Nat) :
    (stripZeros mantissa scale).1 * Power.ofTen scale =
      mantissa * Power.ofTen (stripZeros mantissa scale).2 := by
  induction scale generalizing mantissa with
  | zero => rfl
  | succ scale inductionHypothesis =>
    unfold stripZeros
    split
    · rename_i divides
      have whole : mantissa / 10 * 10 = mantissa :=
        Nat.div_mul_cancel (Nat.dvd_of_mod_eq_zero divides)
      calc (stripZeros (mantissa / 10) scale).1 * Power.ofTen (scale + 1)
          = (stripZeros (mantissa / 10) scale).1 * Power.ofTen scale * 10 := by
            rw [Power.ofTen_succ, Nat.mul_assoc]
        _ = mantissa / 10 * 10 * Power.ofTen (stripZeros (mantissa / 10) scale).2 := by
            rw [inductionHypothesis, Nat.mul_right_comm]
        _ = mantissa * Power.ofTen (stripZeros (mantissa / 10) scale).2 := by
            rw [whole]
    · rfl

theorem toRat_normalize
    (d : Decimal) :
    d.normalize.toRat = d.toRat := by
  rw [toRat_eq_iff]
  have stripped := stripZeros_mul_ofTen d.mantissa d.scale
  by_cases zero : d.mantissa = 0
  · have strippedZero : (stripZeros d.mantissa d.scale).1 = 0 := by
      have := (stripZeros_le d.mantissa d.scale).1
      omega
    simp [unscaled, normalize, zero] at strippedZero ⊢
    simp [strippedZero]
  · have asInt : ((stripZeros d.mantissa d.scale).1 : Int) * Power.ofTen d.scale =
        d.mantissa * Power.ofTen (stripZeros d.mantissa d.scale).2 := by
      exact_mod_cast stripped
    cases sign : d.negative with
    | false => simpa [unscaled, normalize, sign] using asInt
    | true => simpa [unscaled, normalize, sign, zero, Int.neg_mul] using asInt

theorem ofParts?_unscaled
    (d : Decimal) :
    ∃ made, ofParts? (d.unscaled < 0) d.unscaled.natAbs d.scale = some made ∧
      made.toRat = d.toRat := by
  have natAbs : d.unscaled.natAbs = d.mantissa := by
    unfold unscaled
    split <;> simp
  rw [ofParts?, ofSignedParts?, natAbs, dif_pos ⟨d.mantissa_lt, d.scale_le⟩]
  refine ⟨_, rfl, ?_⟩
  rw [toRat_eq_iff]
  have sameUnscaled : unscaled (withUnsignedZero
      ⟨d.unscaled < 0, d.mantissa, d.scale, d.mantissa_lt, d.scale_le⟩) = d.unscaled := by
    obtain ⟨negative, mantissa, scale, bound, scaleBound⟩ := d
    simp only [unscaled, withUnsignedZero, Bool.and_eq_true, decide_eq_true_eq, bne_iff_ne]
    cases negative with
    | false =>
      have notNegative : ¬ (mantissa : Int) < 0 := by omega
      simp [notNegative]
    | true =>
      simp only [if_true]
      split
      · rfl
      · omega
  rw [sameUnscaled]
  rfl

end Decimal

namespace PackedQuantity

theorem pack_eq_ok_iff
    (quantity : Decimal)
    (weight : Int) :
    pack quantity = .ok weight ↔
      weight = quantity.normalize.unscaled * scaleFactor + quantity.normalize.scale ∧
        Text.fitsInt64 quantity.normalize.unscaled = true ∧
        Text.fitsInt64 (quantity.normalize.unscaled * scaleFactor) = true ∧
        Text.fitsInt64 weight = true := by
  unfold pack
  simp only [Bool.and_eq_true]
  constructor
  · intro packed
    split at packed
    · rename_i fits
      cases packed
      exact ⟨rfl, fits.1.1, fits.1.2, fits.2⟩
    · cases packed
  · rintro ⟨rfl, mantissaFits, shiftedFits, weightFits⟩
    rw [if_pos ⟨⟨mantissaFits, shiftedFits⟩, weightFits⟩]

/-- Packing loses nothing: what is unpacked has the value that was packed. -/
theorem unpack_of_pack
    {quantity : Decimal}
    {weight : Int}
    (packed : pack quantity = .ok weight) :
    ∃ unpacked, unpack weight = .ok unpacked ∧ unpacked.toRat = quantity.toRat := by
  obtain ⟨weightEq, _⟩ := (pack_eq_ok_iff quantity weight).mp packed
  have scaleBound := quantity.normalize.scale_le
  simp only [Decimal.maxScale] at scaleBound
  have scaleEq : (weight % scaleFactor).toNat = quantity.normalize.scale := by
    simp only [scaleFactor] at weightEq ⊢
    omega
  have mantissaEq : weight / scaleFactor = quantity.normalize.unscaled := by
    simp only [scaleFactor] at weightEq ⊢
    omega
  obtain ⟨made, parts, sameValue⟩ := quantity.normalize.ofParts?_unscaled
  refine ⟨made, ?_, sameValue.trans quantity.toRat_normalize⟩
  simp only [unpack, scaleEq, mantissaEq, parts]

end PackedQuantity

end UsageBilling

import UsageBilling.Decimal.Basic
import UsageBilling.Failure
import UsageBilling.Text.Integer

/-!
Contract: a quantity held exactly in one integer of 64 bits.

Owns:
- packing the mantissa and the scale of a quantity, so that equal quantities
  have equal weights;
- unpacking a weight, with the weights that no quantity has.

Does not own: the coverage that carries such weights.
-/

namespace UsageBilling.PackedQuantity

/-- A weight holds the scale below this factor, and the mantissa above it. -/
def scaleFactor : Int := 32

/-- The weight of a quantity without trailing zeros, if 64 bits hold it. -/
def pack (quantity : Decimal) : Except BillingError Int :=
  let normal := quantity.normalize
  let weight := normal.unscaled * scaleFactor + normal.scale
  if Text.fitsInt64 normal.unscaled && Text.fitsInt64 (normal.unscaled * scaleFactor) &&
      Text.fitsInt64 weight then .ok weight
  else .error .overflow

/-- The quantity of a weight. A scale beyond what quantities have means that
the weight was not made by packing. -/
def unpack (weight : Int) : Except BillingError Decimal :=
  let scale := (weight % scaleFactor).toNat
  let mantissa := weight / scaleFactor
  match Decimal.ofParts? (mantissa < 0) mantissa.natAbs scale with
  | some quantity => .ok quantity
  | none => .error (.state (.corruptQuantity weight scale))

end UsageBilling.PackedQuantity

import UsageBilling.Decimal.Arithmetic
import UsageBilling.Failure
import UsageBilling.Sample

/-!
Contract: one number for the values of several samples.

Owns:
- the largest value and the sum of values, where a missing value counts as
  zero.

Does not own: which samples are counted.
-/

namespace UsageBilling

/-- How the values of samples become one. -/
inductive Aggregation where
  | max
  | sum
deriving DecidableEq, Repr

/-- The one value of samples; no samples have zero. -/
def Aggregation.apply (aggregation : Aggregation) (samples : List Sample) : Outcome Decimal :=
  let values := samples.map Sample.valueOrZero
  match aggregation with
  | .max => pure ((Decimal.maximum? values).getD Decimal.zero)
  | .sum => Outcome.orAbort .decimalSum (Decimal.sum? values)

end UsageBilling

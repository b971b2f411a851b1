import UsageBilling.Decimal.Arithmetic
import UsageBilling.Decimal.Text
import UsageBilling.Failure
import UsageBilling.Table

/-!
Contract: tariffs, and the cost of a volume under a tariff entry.

Owns:
- the two ways a service is billed, by time or by quantity;
- an entry: the price of a billable unit, and the volume that makes one unit;
- the units a volume is billed as, and their cost;
- tariffs, and the periods in which a tariff is in force.

Does not own: where entries are looked up, or the tariff of a record.
-/

namespace UsageBilling

/-- How the usage of a service is billed. -/
inductive RateUnit where
  | time
  | quantity
deriving DecidableEq, Repr, Inhabited

/-- The unit where none is named. -/
def RateUnit.unspecified : RateUnit := .quantity

def RateUnit.name : RateUnit → String
  | .time => "time"
  | .quantity => "quantity"

/-- The price of a service: `price` for each started `rate` of volume. An entry
that needs review was made for a service nobody has priced. -/
structure TariffEntry where
  service : String
  price : Decimal
  rate : Decimal
  unit : RateUnit
  needsReview : Bool
deriving DecidableEq, Repr

namespace TariffEntry

/-- An entry set by an operator. The rate must be at least one. -/
def priced (service : String) (price rate : Decimal) (unit : RateUnit) :
    Except BillingError TariffEntry :=
  if rate.lessThan Decimal.one then .error (.invalidRate service rate.toText)
  else .ok ⟨service, price, rate, unit, false⟩

/-- The free entry of a service nobody has priced. -/
def provisional (service : String) (unit : RateUnit) : TariffEntry :=
  ⟨service, Decimal.zero, Decimal.one, unit, true⟩

/-- The units that a volume is billed as. A rate above one divides the volume,
and a started unit counts as a whole one; otherwise the volume stands. -/
def billableUnits (entry : TariffEntry) (volume : Decimal) : Outcome Decimal :=
  if Decimal.one.lessThan entry.rate then do
    let quotient ← Outcome.orAbort .decimalQuotient (volume.div? entry.rate)
    pure quotient.ceil
  else pure volume

/-- The price of the units that a volume is billed as. -/
def cost (entry : TariffEntry) (volume : Decimal) : Outcome Decimal := do
  let units ← entry.billableUnits volume
  match units.mul? entry.price with
  | some cost => pure cost
  | none => Outcome.report .overflow

end TariffEntry

/-- A named collection of entries, by service. -/
structure Tariff where
  id : String
  entries : Table String TariffEntry
deriving DecidableEq, Repr

/-- The period in which a tariff is in force, without its end. -/
structure TariffAssignment where
  tariff : String
  effectiveFrom : Instant
  effectiveUntil : Option Instant
deriving DecidableEq, Repr

/-- Whether the tariff is in force at an instant. -/
def TariffAssignment.covers (assignment : TariffAssignment) (t : Instant) : Bool :=
  assignment.effectiveFrom ≤ t && assignment.effectiveUntil.all fun bound => decide (t < bound)

end UsageBilling

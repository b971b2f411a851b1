import UsageBilling.Catalog
import UsageBilling.Usage

/-!
Contract: usage turned into an invoice.

Owns:
- rating one record under a tariff;
- the tariff of a record, by assignment or by default, and the fall back to the
  default for an assigned tariff that the catalog lacks;
- subtotals per tariff, the total, and the services that await a price.

Rating provisions the services it cannot price, and what it provisions stays in
the catalog even if a later record cannot be rated.

Does not own: which usage is rated, or the identity of an invoice.
-/

namespace UsageBilling

/-- A record with its price. -/
structure RatedUsage where
  usage : UsageRecord
  billableUnits : Decimal
  unitPrice : Decimal
  cost : Decimal
  needsReview : Bool
deriving DecidableEq, Repr

/-- The lines rated under one tariff. -/
structure TariffSubtotal where
  tariff : String
  lines : List RatedUsage
  subtotal : Decimal
deriving DecidableEq, Repr

/-- The rated usage of a tenant in a period. -/
structure Invoice where
  tenant : String
  periodStart : Instant
  periodStop : Instant
  subtotals : List TariffSubtotal
  total : Decimal
  flaggedServices : List String
deriving DecidableEq, Repr

namespace Invoice

def subtotal? (invoice : Invoice) (tariff : String) : Option TariffSubtotal :=
  invoice.subtotals.find? fun subtotal => subtotal.tariff == tariff

def lineCount (invoice : Invoice) : Nat :=
  (invoice.subtotals.flatMap TariffSubtotal.lines).length

end Invoice

namespace Rating

/-- The tariff where no assignment covers a record, unless settings name
another. -/
def defaultTariff : String := "default"

def lineOf (usage : UsageRecord) (entry : TariffEntry) : Outcome RatedUsage := do
  let units ← entry.billableUnits usage.volume
  let cost ← entry.cost usage.volume
  pure ⟨usage, units, entry.price, cost, entry.needsReview⟩

/-- Rate a record under a tariff. A service without a price is provisioned with
the given unit. -/
def rateRecord (tariff : String) (usage : UsageRecord) (unit : RateUnit) (catalog : Catalog) :
    Outcome RatedUsage × Catalog :=
  match catalog.entryOrProvision tariff usage.service unit with
  | (.ok entry, provisioned) => (lineOf usage entry, provisioned)
  | (.error error, provisioned) => (Outcome.report error, provisioned)

/-- The tariff in force at an instant: that of the first assignment that covers
it, or the default. -/
def tariffAt (default_ : String) (assignments : List TariffAssignment) (t : Instant) : String :=
  match assignments.find? fun assignment => assignment.covers t with
  | some assignment => assignment.tariff
  | none => default_

/-- Rate a record under the tariff in force. If the catalog lacks an assigned
tariff, the default takes its place. Returns the tariff used. -/
def rateAssigned (default_ : String) (assignments : List TariffAssignment)
    (usage : UsageRecord) (unit : RateUnit) (catalog : Catalog) :
    Outcome (String × RatedUsage) × Catalog :=
  let assigned := tariffAt default_ assignments usage.start
  match rateRecord assigned usage unit catalog with
  | (.ok line, rated) => (.ok (assigned, line), rated)
  | (.error (.reported (.unknownTariff missing)), unrated) =>
    if missing ≠ default_ then
      let (line, rated) := rateRecord default_ usage unit unrated
      (line.map fun line => (default_, line), rated)
    else (Outcome.report (.unknownTariff missing), unrated)
  | (.error failure, unrated) => (.error failure, unrated)

/-- Add a line to the subtotal of its tariff; a tariff without one gets it at
the end. -/
def addLine (tariff : String) (line : RatedUsage) :
    List TariffSubtotal → Outcome (List TariffSubtotal)
  | [] => do
    let subtotal ← Outcome.orAbort .decimalSum (Decimal.zero.add? line.cost)
    pure [⟨tariff, [line], subtotal⟩]
  | held :: rest =>
    if held.tariff = tariff then do
      let subtotal ← Outcome.orAbort .decimalSum (held.subtotal.add? line.cost)
      pure (⟨tariff, held.lines ++ [line], subtotal⟩ :: rest)
    else do
      pure (held :: (← addLine tariff line rest))

/-- Rate records in the order given and add them to the subtotals so far. -/
def rateInOrder (default_ : String) (assignments : List TariffAssignment)
    (unitOf : UsageRecord → RateUnit) :
    List TariffSubtotal → List UsageRecord → Catalog → Outcome (List TariffSubtotal) × Catalog
  | subtotals, [], catalog => (.ok subtotals, catalog)
  | subtotals, usage :: rest, catalog =>
    match rateAssigned default_ assignments usage (unitOf usage) catalog with
    | (.error failure, rated) => (.error failure, rated)
    | (.ok (tariff, line), rated) =>
      match addLine tariff line subtotals with
      | .error failure => (.error failure, rated)
      | .ok extended => rateInOrder default_ assignments unitOf extended rest rated

/-- The services of lines that await a price, in order and each once. -/
def flaggedServices (subtotals : List TariffSubtotal) : List String :=
  let flagged := (subtotals.flatMap TariffSubtotal.lines).filter RatedUsage.needsReview
  ((flagged.map fun line => line.usage.service).mergeSort fun a b => a ≤ b).eraseDups

/-- Records in the order they are rated: by start, ties as given. -/
def ordered (usages : List UsageRecord) : List UsageRecord :=
  usages.mergeSort fun a b => a.start ≤ b.start

/-- The invoice of a tenant's records for a period. `unitOf` gives the unit with
which a service without a price is provisioned. -/
def invoice (default_ : String) (tenant : String) (period : Instant × Instant)
    (usages : List UsageRecord) (assignments : List TariffAssignment)
    (unitOf : UsageRecord → RateUnit) (catalog : Catalog) : Outcome Invoice × Catalog :=
  match rateInOrder default_ assignments unitOf [] (ordered usages) catalog with
  | (.error failure, rated) => (.error failure, rated)
  | (.ok subtotals, rated) =>
    let total := Outcome.orAbort .decimalSum
      (Decimal.sum? (subtotals.map TariffSubtotal.subtotal))
    (total.map fun total =>
      ⟨tenant, period.1, period.2, subtotals, total, flaggedServices subtotals⟩, rated)

/-- The invoice where every service without a price is billed by quantity. -/
def invoiceByQuantity (default_ : String) (tenant : String) (period : Instant × Instant)
    (usages : List UsageRecord) (assignments : List TariffAssignment) (catalog : Catalog) :
    Outcome Invoice × Catalog :=
  invoice default_ tenant period usages assignments (fun _ => .unspecified) catalog

end Rating

end UsageBilling

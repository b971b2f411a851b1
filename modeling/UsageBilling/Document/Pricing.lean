import UsageBilling.Document.Usage
import UsageBilling.Rating

/-!
Contract: tariffs, assignments and invoices in JSON documents.

Owns:
- the fields of these records, read and written.

An entry is read as it stands: whether an operator could have set it is for a
later check.

Does not own: the identity of an invoice and the time it was made.
-/

namespace UsageBilling.Document

def unitOfName? (name : String) : Option RateUnit :=
  [RateUnit.time, RateUnit.quantity].find? fun unit => unit.name == name

/-- A unit: its name, or an object that has the name as its only field, with
null. -/
def rateUnit : Decoder RateUnit
  | .text name => unitOfName? name
  | .object [(name, .null)] => unitOfName? name
  | _ => none

def ofRateUnit (unit : RateUnit) : Json :=
  .text unit.name

def tariffEntry : Decoder TariffEntry := fun json => do
  match ← slots ["service", "price", "rate", "unit", "needs_review"] json with
  | [service, price, rate, unit, needsReview] =>
    some ⟨← required text service, ← required decimal price, ← required decimal rate,
      ← defaulted RateUnit.unspecified rateUnit unit, ← defaulted false bool needsReview⟩
  | _ => none

def ofTariffEntry (e : TariffEntry) : Json :=
  .object [("service", .text e.service), ("price", ofDecimal e.price), ("rate", ofDecimal e.rate),
    ("unit", ofRateUnit e.unit), ("needs_review", .bool e.needsReview)]

def tariff : Decoder Tariff := fun json => do
  match ← slots ["id", "entries"] json with
  | [id, entries] =>
    some ⟨← required text id, Table.ofList (← required (map tariffEntry) entries)⟩
  | _ => none

def tariffAssignment : Decoder TariffAssignment := fun json => do
  match ← slots ["tariff_id", "effective_from", "effective_until"] json with
  | [tariff, from_, until_] =>
    some ⟨← required text tariff, ← required instant from_, ← optional instant until_⟩
  | _ => none

def ofTariffAssignment (a : TariffAssignment) : Json :=
  .object [("tariff_id", .text a.tariff), ("effective_from", ofInstant a.effectiveFrom),
    ("effective_until", orNull ofInstant a.effectiveUntil)]

def ofRatedUsage (line : RatedUsage) : Json :=
  .object [("record", ofUsageRecord line.usage), ("billable_units", ofDecimal line.billableUnits),
    ("unit_price", ofDecimal line.unitPrice), ("cost", ofDecimal line.cost),
    ("needs_review", .bool line.needsReview)]

def ofTariffSubtotal (s : TariffSubtotal) : Json :=
  .object [("tariff_id", .text s.tariff), ("lines", .array (s.lines.map ofRatedUsage)),
    ("subtotal", ofDecimal s.subtotal)]

def invoiceFields (invoice : Invoice) : List (String × Json) := [
  ("tenant_id", .text invoice.tenant),
  ("period_start", ofInstant invoice.periodStart),
  ("period_end", ofInstant invoice.periodStop),
  ("subtotals", .array (invoice.subtotals.map ofTariffSubtotal)),
  ("total", ofDecimal invoice.total),
  ("flagged_services", .array (invoice.flaggedServices.map .text))]

end UsageBilling.Document

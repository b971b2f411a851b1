import UsageBilling.Catalog
import UsageBilling.Sample

/-!
Contract: what is asked of a billing service.

Owns:
- the samples of one meter for one resource;
- the request to bill a tenant's period;
- the document that carries such a request together with tariffs and profiles,
  its check, and the catalog it describes.

Does not own: how a request is carried out.
-/

namespace UsageBilling

/-- Samples of one meter for one resource. A job without a tenant belongs to the
tenant that is billed. -/
structure UsageJob where
  tenant : Option String
  resource : String
  resourceName : Option String
  meter : String
  samples : List Sample

/-- A tenant's period, without its end. -/
structure PeriodRequest where
  tenant : String
  periodStart : Instant
  periodStop : Instant
  jobs : List UsageJob
  assignments : List TariffAssignment

/-- A request with the tariffs and profiles it is billed by. -/
structure BillingInput where
  tenant : String
  periodStart : Instant
  periodStop : Instant
  tariffs : List Tariff
  profiles : Table String String
  assignments : List TariffAssignment
  jobs : List UsageJob

namespace BillingInput

def catalog (input : BillingInput) : Catalog :=
  let withTariffs := input.tariffs.foldl Catalog.insertTariff Catalog.empty
  input.profiles.entries.foldl
    (fun catalog (profile, service) => catalog.withProfile profile service) withTariffs

/-- Refuse an entry that an operator could not have set. -/
def checkEntry (entry : TariffEntry) : Except BillingError Unit := do
  let _ ← TariffEntry.priced entry.service entry.price entry.rate entry.unit
  pure ()

/-- Refuse inputs with an entry that an operator could not have set. -/
def check (input : BillingInput) : Except BillingError Unit :=
  (input.tariffs.flatMap fun tariff => tariff.entries.entries).forM fun entry =>
    checkEntry entry.2

def request (input : BillingInput) : PeriodRequest :=
  ⟨input.tenant, input.periodStart, input.periodStop, input.jobs, input.assignments⟩

/-- The catalog and the request of an input that passes the check. -/
def parts (input : BillingInput) : Except BillingError (Catalog × PeriodRequest) := do
  input.check
  pure (input.catalog, input.request)

end BillingInput

end UsageBilling

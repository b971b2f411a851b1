import UsageBilling.Document.Pricing
import UsageBilling.Json.Reader
import UsageBilling.Period.Request

/-!
Contract: billing requests in JSON documents.

Owns:
- the fields of jobs, period requests and billing inputs;
- reading a billing input from the text of a document, whose nesting is limited.

Does not own: the check of tariff entries that follows.
-/

namespace UsageBilling.Document

/-- A usage job, the metadata of its samples read by the given decoder. -/
def usageJob (anyMetadata : Decoder Json) : Decoder UsageJob := fun json => do
  let names := ["tenant_id", "resource_id", "resource_name", "meter", "samples"]
  match ← slots names json with
  | [tenant, resource, resourceName, meter, samples] =>
    some ⟨← defaulted none (nullable text) tenant, ← required text resource,
      ← defaulted none (nullable text) resourceName, ← required text meter,
      ← defaulted [] (list (sample anyMetadata)) samples⟩
  | _ => none

/-- A period request, whose metadata may be nested to any depth. -/
def periodRequest : Decoder PeriodRequest := fun json => do
  match ← slots ["tenant_id", "period_start", "period_end", "jobs", "assignments"] json with
  | [tenant, start, stop, jobs, assignments] =>
    some ⟨← required text tenant, ← required instant start, ← required instant stop,
      ← required (list (usageJob anything)) jobs,
      ← defaulted [] (list tariffAssignment) assignments⟩
  | _ => none

/-- A billing input, the metadata of its samples read by the given decoder. -/
def billingInput (anyMetadata : Decoder Json) : Decoder BillingInput := fun json => do
  let names := ["tenant_id", "period_start", "period_end", "tariffs", "profiles", "assignments",
    "jobs"]
  match ← slots names json with
  | [tenant, start, stop, tariffs, profiles, assignments, jobs] =>
    some ⟨← required text tenant, ← required instant start, ← required instant stop,
      ← defaulted [] (list tariff) tariffs,
      Table.ofList (← defaulted [] (map text) profiles),
      ← defaulted [] (list tariffAssignment) assignments,
      ← defaulted [] (list (usageJob anyMetadata)) jobs⟩
  | _ => none

/-- Arrays and objects of a document may be nested this deep. Only metadata can
reach the limit. -/
def depthLimit : Nat := 127

/-- The arrays and objects around the metadata of a sample in a billing
input. -/
def metadataNesting : Nat := 5

/-- Read a billing input from the text of a document. -/
def billingInputOfText? (s : String) : Option BillingInput := do
  billingInput (anythingWithin (depthLimit - metadataNesting)) (← Json.ofText? s)

end UsageBilling.Document

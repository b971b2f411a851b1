import UsageBilling.Document.Decode
import UsageBilling.SampleStream
import UsageBilling.Window
import UsageBilling.Usage

/-!
Contract: samples, usage records and windows in JSON documents.

Owns:
- the fields of these records, read and written.

Does not own: the checks that a reader of them may want to make.
-/

namespace UsageBilling.Document

/-- An optional value, null where it is missing. -/
def orNull {α : Type} (encode : α → Json) : Option α → Json
  | some value => encode value
  | none => .null

def ofDecimal (d : Decimal) : Json :=
  .text d.toText

def ofInstant (t : Instant) : Json :=
  .text t.toText

/-- A sample, its metadata read by the given decoder. Its value may be null. -/
def sample (anyMetadata : Decoder Json) : Decoder Sample := fun json => do
  match ← slots ["timestamp", "value", "metadata"] json with
  | [timestamp, value, metadata] =>
    some ⟨← required instant timestamp,
      ← defaulted none (nullable decimal) value,
      ← defaulted .null anyMetadata metadata⟩
  | _ => none

def ofSample (s : Sample) : Json :=
  .object [("timestamp", ofInstant s.timestamp), ("value", orNull ofDecimal s.value),
    ("metadata", s.metadata)]

def usageRecord : Decoder UsageRecord := fun json => do
  let names := ["service", "start", "end", "volume", "resource_id", "resource_name"]
  match ← slots names json with
  | [service, start, stop, volume, resource, resourceName] =>
    some ⟨← required text service, ← required instant start, ← required instant stop,
      ← required decimal volume, ← optional text resource, ← optional text resourceName⟩
  | _ => none

def ofUsageRecord (r : UsageRecord) : Json :=
  .object [("service", .text r.service), ("start", ofInstant r.start), ("end", ofInstant r.stop),
    ("volume", ofDecimal r.volume), ("resource_id", orNull .text r.resource),
    ("resource_name", orNull .text r.resourceName)]

/-- A window, with whatever start and width it has. -/
def window : Decoder Window := fun json => do
  match ← slots ["start", "width_secs"] json with
  | [start, width] => some ⟨← required instant start, ← required int64 width⟩
  | _ => none

def ofWindow (w : Window) : Json :=
  .object [("start", ofInstant w.start), ("width_secs", .integer w.width)]

end UsageBilling.Document

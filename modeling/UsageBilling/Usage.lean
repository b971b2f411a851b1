import UsageBilling.Decimal.Basic
import UsageBilling.Instant.Basic

/-!
Contract: metered usage, and the key under which usage is reconciled.

Owns:
- a usage record: volume of a service from one instant to another, for a
  resource or for none;
- the key of a record, and the text that names a key in storage.

Does not own: how usage is metered, merged or priced.
-/

namespace UsageBilling

/-- The volume of a service used from `start` until `stop`. -/
structure UsageRecord where
  service : String
  start : Instant
  stop : Instant
  volume : Decimal
  resource : Option String
  resourceName : Option String
deriving DecidableEq, Repr

namespace UsageRecord

def ofService (service : String) (start stop : Instant) (volume : Decimal) : UsageRecord :=
  ⟨service, start, stop, volume, none, none⟩

def withResource (record : UsageRecord) (resource : String) (name : Option String) :
    UsageRecord :=
  { record with resource := some resource, resourceName := name }

def duration (record : UsageRecord) : Int :=
  record.stop.secondsSince record.start

end UsageRecord

/-- The key under which usage of a tenant is reconciled. Usage without a
resource has the empty resource. -/
structure UsageKey where
  tenant : String
  resource : String
  service : String
deriving DecidableEq, Repr

namespace UsageKey

def ofRecord (tenant : String) (record : UsageRecord) : UsageKey :=
  ⟨tenant, record.resource.getD "", record.service⟩

/-- The text that names a key in storage: its parts joined by colons. -/
def canonical (key : UsageKey) : String :=
  key.tenant ++ ":" ++ key.resource ++ ":" ++ key.service

/-- The order of keys: by tenant, then resource, then service. -/
def atMost (a b : UsageKey) : Bool :=
  ((compare a.tenant b.tenant).then
    ((compare a.resource b.resource).then (compare a.service b.service))) != .gt

end UsageKey

end UsageBilling

import UsageBilling.Coverage.Query
import UsageBilling.Coverage.Text
import UsageBilling.Reconciler.Packing
import UsageBilling.Table
import UsageBilling.Tariff
import UsageBilling.Window
import UsageBilling.Usage

/-!
Contract: usage merged per tenant, resource and service.

Owns:
- the coverage kept for each key: time as plain coverage, a quantity as the
  weight of the seconds it holds for;
- recording usage, so that repeated delivery changes nothing and a later
  delivery replaces an earlier one;
- reading usage back within a window;
- snapshots of coverage and their restoration;
- dropping a tenant.

Does not own: where snapshots are stored, or prices.
-/

namespace UsageBilling

/-- What is kept for one key. The unit is that of the first usage recorded or
restored for the key. -/
structure Track where
  coverage : Coverage
  unit : RateUnit
  resourceName : Option String
deriving DecidableEq, Repr

/-- Coverage by key, all with one deviation. -/
structure Reconciler where
  deviation : Nat
  tracks : Table UsageKey Track
deriving DecidableEq, Repr

namespace Reconciler

/-- The deviation where none is chosen: one second. -/
def defaultDeviation : Nat := 1

def empty (deviation : Nat) : Reconciler :=
  ⟨deviation, Table.empty⟩

/-- The track of a key, or a new one of the given unit. -/
def trackOf (r : Reconciler) (key : UsageKey) (unit : RateUnit) : Track :=
  (r.tracks.get? key).getD ⟨Coverage.empty r.deviation, unit, none⟩

/-- The weight under which usage is recorded. -/
def weightOf (usage : UsageRecord) : RateUnit → Except BillingError Int
  | .time => .ok Coverage.unitWeight
  | .quantity => PackedQuantity.pack usage.volume

/-- Record usage from the second in which it starts up to the second in which
it stops. Usage that does not reach into another second is left out. -/
def record (r : Reconciler) (tenant : String) (usage : UsageRecord) (unit : RateUnit) :
    Except BillingError Reconciler := do
  let first := usage.start.timestamp
  let last := usage.stop.timestamp - 1
  if last < first then pure r
  else
    let weight ← weightOf usage unit
    let key := UsageKey.ofRecord tenant usage
    let track := r.trackOf key unit
    let coverage ← track.coverage.insert first last weight
    let name := usage.resourceName.orElse fun _ => track.resourceName
    pure { r with
      tracks := r.tracks.insert key
        { track with coverage := coverage, resourceName := name } }

def instantOf (seconds : Int) : Except BillingError Instant :=
  match Instant.ofTimestamp? seconds 0 with
  | some t => .ok t
  | none => .error (.state (.timestampOutOfRange seconds))

/-- The volume of a segment: its seconds, or the quantity it carries. -/
def volumeOf (unit : RateUnit) (s : Segment) : Except BillingError Decimal :=
  match unit with
  | .time => .ok (Decimal.ofInt s.length)
  | .quantity => PackedQuantity.unpack s.weight

/-- The usage of one segment of a key. -/
def usageOf (key : UsageKey) (track : Track) (s : Segment) : Except BillingError UsageRecord := do
  let volume ← volumeOf track.unit s
  let start ← instantOf s.first
  let stop ← instantOf (s.last + 1)
  let usage := UsageRecord.ofService key.service start stop volume
  pure (if key.resource = "" then usage else usage.withResource key.resource track.resourceName)

/-- The order in which usage is read back: by start, service and resource. -/
def readingOrder (a b : UsageRecord) : Bool :=
  ((a.start.compare b.start).then
    ((compare a.service b.service).then
      (compare (a.resource.getD "") (b.resource.getD "")))) != .gt

/-- The usage of a tenant in the seconds from `first` to `last`. -/
def usageBetween (r : Reconciler) (tenant : String) (first last : Int) :
    Except BillingError (List UsageRecord) := do
  let owned := r.tracks.entries.filter fun entry => entry.1.tenant == tenant
  let usages ← owned.mapM fun (key, track) =>
    (track.coverage.inRange first last).mapM (usageOf key track)
  pure (usages.flatten.mergeSort readingOrder)

/-- The usage of a tenant in a window. -/
def usageIn (r : Reconciler) (tenant : String) (window : Window) :
    Outcome (List UsageRecord) := do
  let stop ← window.stop
  match r.usageBetween tenant window.start.timestamp (stop.timestamp - 1) with
  | .ok usages => pure usages
  | .error error => Outcome.report error

/-- The coverage of a key as text. -/
def snapshot (r : Reconciler) (key : UsageKey) : Option String :=
  (r.tracks.get? key).map fun track => track.coverage.toText

/-- Replace the coverage of a key by a snapshot. A key already tracked keeps its
unit and resource name. -/
def restore (r : Reconciler) (key : UsageKey) (text : String) (unit : RateUnit) : Reconciler :=
  let coverage := Coverage.ofText text r.deviation
  { r with tracks := r.tracks.insert key { r.trackOf key unit with coverage := coverage } }

def keys (r : Reconciler) (tenant : String) : List UsageKey :=
  (r.tracks.keys.filter fun key => key.tenant == tenant).mergeSort UsageKey.atMost

/-- Drop a tenant. Returns the number of keys it had. -/
def dropTenant (r : Reconciler) (tenant : String) : Nat × Reconciler :=
  let kept := r.tracks.entries.filter fun entry => entry.1.tenant != tenant
  (r.tracks.size - kept.length, { r with tracks := ⟨kept⟩ })

def size (r : Reconciler) : Nat :=
  r.tracks.size

end Reconciler

end UsageBilling

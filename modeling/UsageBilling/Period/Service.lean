import UsageBilling.Period.Metering
import UsageBilling.Rating
import UsageBilling.Reconciler.Basic
import UsageBilling.Settings
import UsageBilling.SnapshotStore

/-!
Contract: billing a tenant's period from samples to invoice.

Owns:
- the keys of metered usage, each with the unit of the first job that feeds it;
- restoring earlier coverage, recording the metered usage over it, and saving
  the result;
- reading the usage of the windows back and rating it;
- a service that bills one period after another.

A store that fails is passed over: the period is billed without history.

Does not own: the steps themselves, which the modules it joins define.
-/

namespace UsageBilling

/-- A billing service. Its store, if it has one, keeps states of type `σ`. -/
structure BillingService (σ : Type) where
  settings : Settings
  registry : MeterRegistry
  catalog : Catalog
  counts : StreamCounts
  store : Option (SnapshotStore σ)
  stored : σ

namespace BillingService

variable {σ : Type}

def start (settings : Settings) (registry : MeterRegistry) (catalog : Catalog)
    (store : Option (SnapshotStore σ)) (stored : σ) : BillingService σ :=
  ⟨settings, registry, catalog, StreamCounts.none, store, stored⟩

/-- Every record of metered jobs with the unit of its job, in order. -/
def recordsWithUnits (metered : List MeteredJob) : List (UsageRecord × RateUnit) :=
  metered.flatMap fun job => job.records.map fun record => (record, job.unit)

/-- The keys of metered usage. The first job that feeds a key sets its unit. -/
def keyUnits (tenant : String) (metered : List MeteredJob) : Table UsageKey RateUnit :=
  (recordsWithUnits metered).foldl
    (fun units (record, unit) =>
      (units.getOrInsert (UsageKey.ofRecord tenant record) unit).2)
    Table.empty

/-- The keys with their units in the order of keys. -/
def orderedKeys (units : Table UsageKey RateUnit) : List (UsageKey × RateUnit) :=
  units.entries.mergeSort fun a b => a.1.atMost b.1

/-- Restore the coverage of one key, if the store has any. -/
def restoreKey (store : SnapshotStore σ) (key : UsageKey) (unit : RateUnit)
    (reconciler : Reconciler) (stored : σ) : Reconciler × σ :=
  match store.load key stored with
  | (.ok (some text), after) => (reconciler.restore key text unit, after)
  | (_, after) => (reconciler, after)

def restoreKeys (store : SnapshotStore σ) :
    List (UsageKey × RateUnit) → Reconciler → σ → Reconciler × σ
  | [], reconciler, stored => (reconciler, stored)
  | (key, unit) :: rest, reconciler, stored =>
    let (restored, after) := restoreKey store key unit reconciler stored
    restoreKeys store rest restored after

def recordAll (tenant : String) :
    List (UsageRecord × RateUnit) → Reconciler → Except BillingError Reconciler
  | [], reconciler => .ok reconciler
  | (record, unit) :: rest, reconciler => do
    recordAll tenant rest (← reconciler.record tenant record unit)

/-- Save the coverage of one key, if there is any. -/
def saveKey (store : SnapshotStore σ) (key : UsageKey) (reconciler : Reconciler) (stored : σ) :
    σ :=
  match reconciler.snapshot key with
  | some text => (store.save key text stored).2
  | none => stored

def saveKeys (store : SnapshotStore σ) (keys : List UsageKey) (reconciler : Reconciler)
    (stored : σ) : σ :=
  keys.foldl (fun stored key => saveKey store key reconciler stored) stored

/-- The usage of windows taken in order. -/
def readBack (tenant : String) (windows : List Window) (reconciler : Reconciler) :
    Outcome (List UsageRecord) := do
  let usages ← windows.mapM (reconciler.usageIn tenant)
  pure usages.flatten

/-- Merge metered usage over restored coverage, and save the result. If a record
cannot be kept, nothing is saved. -/
def reconcile (service : BillingService σ) (tenant : String) (metered : List MeteredJob) :
    Except BillingError Reconciler × BillingService σ :=
  let keys := orderedKeys (keyUnits tenant metered)
  let fresh := Reconciler.empty service.settings.metering.deviation
  let (restored, loaded) := match service.store with
    | some store => restoreKeys store keys fresh service.stored
    | none => (fresh, service.stored)
  match recordAll tenant (recordsWithUnits metered) restored with
  | .error error => (.error error, { service with stored := loaded })
  | .ok reconciler =>
    let saved := match service.store with
      | some store => saveKeys store (keys.map Prod.fst) reconciler loaded
      | none => loaded
    (.ok reconciler, { service with stored := saved })

/-- Rate the usage of a period. A service without a price is provisioned with the
unit of its key. -/
def rateUsage (service : BillingService σ) (request : PeriodRequest)
    (units : Table UsageKey RateUnit) (usages : List UsageRecord) :
    Outcome Invoice × BillingService σ :=
  let unitOf := fun record : UsageRecord =>
    (units.get? (UsageKey.ofRecord request.tenant record)).getD .unspecified
  let (invoice, catalog) := Rating.invoice service.settings.metering.defaultTariff
    request.tenant (request.periodStart, request.periodStop) usages request.assignments
    unitOf service.catalog
  (invoice, { service with catalog := catalog })

/-- Everything that follows metering, for the metered jobs in a given order. -/
def settle (service : BillingService σ) (request : PeriodRequest) (windows : List Window)
    (metered : List MeteredJob) : Outcome Invoice × BillingService σ :=
  match service.reconcile request.tenant metered with
  | (.error error, after) => (Outcome.report error, after)
  | (.ok reconciler, after) =>
    match readBack request.tenant windows reconciler with
    | .error failure => (.error failure, after)
    | .ok usages => after.rateUsage request (keyUnits request.tenant metered) usages

/-- Bill a tenant's period. If a job cannot be metered the catalog and the counts are left as
all jobs leave them, those included that no worker may have begun by then. -/
def runPeriod (service : BillingService σ) (request : PeriodRequest) :
    Outcome Invoice × BillingService σ :=
  match Metering.windows service.settings.metering.windowWidth
      request.periodStart request.periodStop with
  | .error failure => (.error failure, service)
  | .ok windows =>
    let (results, state) := Metering.meterJobs service.registry request.tenant windows
      request.jobs ⟨service.catalog, service.counts⟩
    let metered := { service with catalog := state.catalog, counts := state.counts }
    match Metering.collect results with
    | .error failure => (.error failure, metered)
    | .ok jobs => metered.settle request windows jobs

end BillingService

end UsageBilling

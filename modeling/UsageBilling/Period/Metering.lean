import UsageBilling.Meter.Registry
import UsageBilling.Period.Request

/-!
Contract: the metered usage of a period.

Owns:
- the windows of a period, which begin where the period begins;
- which jobs are metered, and by which binding;
- the records of a job over all windows;
- the records of all jobs, in the order of the jobs.

Each job is metered by a worker of its own. Jobs are independent of each other but for the
catalog: all are metered to their ends, and the first that failed decides the outcome. A run
that returns at a failure may instead leave jobs that no worker has begun; what these would
have left in the catalog and the counts is the only difference.

Does not own: merging the records of several jobs.
-/

namespace UsageBilling

/-- The records of a job, and the unit they are billed by. -/
structure MeteredJob where
  unit : RateUnit
  records : List UsageRecord
deriving DecidableEq, Repr

/-- What metering leaves behind: the catalog with the profiles it met, and the
counts of the streams it read. -/
structure MeteringState where
  catalog : Catalog
  counts : StreamCounts
deriving DecidableEq, Repr

namespace Metering

/-- The windows of a period. The period must not be empty and must begin where
a window begins; the last window may reach beyond its end. -/
def windows (width : Int) (start stop : Instant) : Outcome (List Window) :=
  if stop ≤ start then Outcome.report (.request (.emptyPeriod start stop))
  else do
    let first ← Window.ofWidth start width
    if first.start = start then first.windowsBefore stop
    else Outcome.report (.request (.unalignedStart start width))

/-- The binding a job is metered by. Jobs of another tenant and jobs of unknown
meters are passed over. -/
def bindingOf? (registry : MeterRegistry) (tenant : String) (job : UsageJob) :
    Option MeterBinding :=
  if job.tenant.all fun owner => owner == tenant then (registry.binding job.meter).toOption
  else none

/-- The records of a stream in windows taken in order. -/
def meterWindows (binding : MeterBinding) (samples : List Sample) :
    List Window → Catalog → Outcome (List UsageRecord) × Catalog
  | [], catalog => (pure [], catalog)
  | window :: rest, catalog =>
    match binding.strategy.meter binding.service samples window catalog with
    | (.error failure, resolved) => (.error failure, resolved)
    | (.ok records, resolved) =>
      let (later, final) := meterWindows binding samples rest resolved
      (later.map (records ++ ·), final)

/-- Meter a job over the windows. Its records are those of its resource. -/
def meterJob (windows : List Window) (job : UsageJob) (binding : MeterBinding)
    (state : MeteringState) : Outcome MeteredJob × MeteringState :=
  let (samples, counts) := SampleStream.normalizeCounted job.samples state.counts
  let (records, catalog) := meterWindows binding samples windows state.catalog
  let owned := fun records : List UsageRecord =>
    records.map fun record => record.withResource job.resource job.resourceName
  (records.map fun records => ⟨binding.unit, owned records⟩, ⟨catalog, counts⟩)

def meterJobs (registry : MeterRegistry) (tenant : String) (windows : List Window) :
    List UsageJob → MeteringState → List (Outcome MeteredJob) × MeteringState
  | [], state => ([], state)
  | job :: rest, state =>
    match bindingOf? registry tenant job with
    | none => meterJobs registry tenant windows rest state
    | some binding =>
      let (metered, after) := meterJob windows job binding state
      let (later, final) := meterJobs registry tenant windows rest after
      (metered :: later, final)

/-- The result of a job as its worker hands it over. A fault that stops the worker does not
stop the run, which reports it. -/
def joined : Outcome MeteredJob → Outcome MeteredJob
  | .error (.aborted fault) => Outcome.report (.state (.workerFailed fault))
  | result => result

/-- The results of all jobs, or the failure of the first that failed. -/
def collect (results : List (Outcome MeteredJob)) : Outcome (List MeteredJob) :=
  results.mapM joined

end Metering

end UsageBilling

import UsageBilling.Catalog
import UsageBilling.Meter.PowerState
import UsageBilling.SampleStream
import UsageBilling.Usage

/-!
Contract: usage of an instance by the time it was active.

Owns:
- the timeline of a window: from which instant on which service accrues, if
  any;
- the runs of a timeline, one record for each that lasts a second.

The state of a sample holds until the next one. The latest sample before the
window stands for the state at its start.

Does not own: windows without a sample, which have no usage.
-/

namespace UsageBilling.Uptime

def profileKeys : List String := ["flavor", "instance_type"]

/-- From an instant on, the service that accrues, if any. -/
structure Phase where
  start : Instant
  service : Option String
deriving DecidableEq, Repr

/-- The samples that matter to a window, each at the instant from which its
state holds. -/
def points (windowStart : Instant) (samples : WindowPart) : List (Instant × Sample) :=
  (samples.leadIn.map fun s => (windowStart, s)).toList ++
    samples.inWindow.map fun s => (s.timestamp, s)

/-- The service of the profile seen last, or the meter's own. Only a profile is
looked up, and provisioned if it is unknown. -/
def serviceOf (meterService : String) (profile : Option String) (catalog : Catalog) :
    String × Catalog :=
  match profile with
  | some profile => catalog.resolveProfile profile
  | none => (meterService, catalog)

/-- The phases of a list of points, given the profile seen before them. A
profile stays in force until a point names another. -/
def phases (meterService : String) :
    Option String → List (Instant × Sample) → Catalog → List Phase × Catalog
  | _, [], catalog => ([], catalog)
  | seen, (start, sample) :: rest, catalog =>
    let profile := (sample.text? profileKeys).orElse fun _ => seen
    if (PowerState.ofSample sample).isBillable then
      let (service, resolved) := serviceOf meterService profile catalog
      let (later, final) := phases meterService profile rest resolved
      (⟨start, some service⟩ :: later, final)
    else
      let (later, final) := phases meterService profile rest catalog
      (⟨start, none⟩ :: later, final)

/-- A run of one service that has not ended. -/
structure Run where
  service : String
  start : Instant
deriving DecidableEq, Repr

/-- The usage of a run that ends at an instant, if it lasted a second. -/
def Run.close (run : Run) (stop : Instant) : List UsageRecord :=
  let seconds := stop.secondsSince run.start
  if 0 < seconds then
    [UsageRecord.ofService run.service run.start stop (Decimal.ofInt seconds)]
  else []

def closeOpen (run : Option Run) (stop : Instant) : List UsageRecord :=
  match run with
  | some run => run.close stop
  | none => []

/-- The usage of phases up to the end of the window, given the run that is open
before them. A run ends where its service stops accruing. -/
def accrue (windowStop : Instant) : Option Run → List Phase → List UsageRecord
  | run, [] => closeOpen run windowStop
  | run, phase :: rest =>
    match phase.service with
    | none => closeOpen run phase.start ++ accrue windowStop none rest
    | some service =>
      if run.any fun open_ => open_.service == service then accrue windowStop run rest
      else
        closeOpen run phase.start ++ accrue windowStop (some ⟨service, phase.start⟩) rest

/-- The usage of a window, and the catalog with the profiles it met. A window
without a sample has none. -/
def usage (meterService : String) (samples : WindowPart) (start stop : Instant)
    (catalog : Catalog) : List UsageRecord × Catalog :=
  if samples.inWindow.isEmpty then ([], catalog)
  else
    let (timeline, resolved) := phases meterService none (points start samples) catalog
    (accrue stop none timeline, resolved)

end UsageBilling.Uptime

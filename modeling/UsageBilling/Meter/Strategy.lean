import UsageBilling.Meter.Aggregation
import UsageBilling.Meter.RootDisk
import UsageBilling.Meter.Uptime

/-!
Contract: the ways a meter turns the samples of a window into usage.

Owns:
- the strategies and their names;
- the usage of one window under a strategy, and what it leaves in the catalog.

Does not own: which meter uses which strategy.
-/

namespace UsageBilling

/-- How a meter turns samples into usage. A network service may publish status
codes as values, in which case values above the ceiling are not counted. -/
inductive Strategy where
  | gaugeMax
  | gaugeSum
  | uptime
  | networkService (aggregation : Aggregation) (statusCeiling : Option Decimal)
  | fromImage (imageKeys : List String)
deriving DecidableEq, Repr

namespace Strategy

def name : Strategy → String
  | gaugeMax => "gauge_max"
  | gaugeSum => "gauge_sum"
  | uptime => "uptime"
  | networkService _ _ => "gauge_network_service"
  | fromImage _ => "from_image"

/-- The strategy of network services that publish a status: zero for inactive,
one for active, and higher codes that are not billed. -/
def networkStatus : Strategy :=
  networkService .max (some Decimal.one)

/-- The strategy for root disks with the usual metadata keys. -/
def bootImage : Strategy :=
  fromImage RootDisk.imageKeys

/-- The samples whose value is not above the ceiling. -/
def counted (statusCeiling : Option Decimal) (samples : List Sample) : List Sample :=
  samples.filter fun s => statusCeiling.all fun ceiling => s.valueOrZero.atMost ceiling

def wholeWindow (service : String) (start stop : Instant) (volume : Decimal) :
    List UsageRecord :=
  [UsageRecord.ofService service start stop volume]

/-- The usage of a window, and the catalog afterwards. Only uptime looks into
the catalog. -/
def meter (strategy : Strategy) (service : String) (samples : List Sample)
    (window : Window) (catalog : Catalog) : Outcome (List UsageRecord) × Catalog :=
  match SampleStream.split samples window, window.bounds with
  | .ok split, .ok (start, stop) =>
    let gauge := fun (aggregation : Aggregation) (counted : List Sample) =>
      (aggregation.apply counted).map (wholeWindow service start stop)
    match strategy with
    | gaugeMax => (gauge .max split.inWindow, catalog)
    | gaugeSum => (gauge .sum split.inWindow, catalog)
    | networkService aggregation ceiling =>
      (gauge aggregation (counted ceiling split.inWindow), catalog)
    | fromImage keys =>
      match RootDisk.size? keys split.inWindow with
      | some size => (pure (wholeWindow service start stop size), catalog)
      | none => (pure [], catalog)
    | uptime =>
      let (records, resolved) := Uptime.usage service split start stop catalog
      (pure records, resolved)
  | .error failure, _ | _, .error failure => (.error failure, catalog)

end Strategy

end UsageBilling

import UsageBilling.Meter.Strategy

/-!
Contract: which meter is billed how.

Owns:
- the binding of a meter: its strategy, default service and unit;
- lookup of meters by name;
- the meters of a usual cloud deployment.

Does not own: the samples of meters.
-/

namespace UsageBilling

/-- How a meter is billed. -/
structure MeterBinding where
  strategy : Strategy
  service : String
  unit : RateUnit
deriving DecidableEq, Repr

/-- Bindings by meter name. -/
structure MeterRegistry where
  meters : Table String MeterBinding
deriving DecidableEq, Repr

namespace MeterRegistry

def empty : MeterRegistry :=
  ⟨Table.empty⟩

def withMeter (registry : MeterRegistry) (meter : String) (strategy : Strategy)
    (service : String) (unit : RateUnit) : MeterRegistry :=
  ⟨registry.meters.insert meter ⟨strategy, service, unit⟩⟩

def binding (registry : MeterRegistry) (meter : String) : Except BillingError MeterBinding :=
  match registry.meters.get? meter with
  | some found => .ok found
  | none => .error (.unknownMeter meter)

def names (registry : MeterRegistry) : List String :=
  registry.meters.keys.mergeSort fun a b => a ≤ b

/-- The meters of a usual cloud deployment: instances by uptime, root disks and
volumes by size, addresses and load balancers by count, and traffic by sum. -/
def cloud : MeterRegistry :=
  empty
    |>.withMeter "instance" .uptime "instance" .time
    |>.withMeter "disk.size" Strategy.bootImage "volume.image" .quantity
    |>.withMeter "volume.size" .gaugeMax "volume.size" .quantity
    |>.withMeter "ip.floating" (.networkService .max none) "ip.floating" .quantity
    |>.withMeter "network.services.lb.pool" Strategy.networkStatus "network.lbaas" .quantity
    |>.withMeter "network.outgoing.bytes" .gaugeSum "network.outgoing.bytes" .quantity
    |>.withMeter "storage.objects.size" .gaugeMax "storage.objects.size" .quantity

end MeterRegistry

end UsageBilling

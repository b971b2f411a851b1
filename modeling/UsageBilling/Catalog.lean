import UsageBilling.Tariff

/-!
Contract: the catalog of tariffs, resource profiles, and provisional entries.

Owns:
- lookups of a profile's service and of a service's price;
- provisioning: a service met before anyone has priced it gets a free entry
  that is flagged for review;
- setting a price, which clears the flag.

The catalog is a value. Provisioning is made of the two steps `claimProfile` and
`claimProvisional`, each of which keeps what is already there.

Does not own: the cost of usage, or which tariff applies.
-/

namespace UsageBilling

/-- Tariffs by id, services by profile, and provisional entries by service. -/
structure Catalog where
  tariffs : Table String Tariff
  profiles : Table String String
  provisional : Table String TariffEntry
deriving DecidableEq, Repr

namespace Catalog

def empty : Catalog :=
  ⟨Table.empty, Table.empty, Table.empty⟩

instance : Inhabited Catalog :=
  ⟨empty⟩

def insertTariff (c : Catalog) (tariff : Tariff) : Catalog :=
  { c with tariffs := c.tariffs.insert tariff.id tariff }

def withProfile (c : Catalog) (profile service : String) : Catalog :=
  { c with profiles := c.profiles.insert profile service }

def tariffCount (c : Catalog) : Nat :=
  c.tariffs.size

def serviceOfProfile (c : Catalog) (profile : String) : Except BillingError String :=
  match c.profiles.get? profile with
  | some service => .ok service
  | none => .error (.unknownProfile profile)

/-- The entry of a service in a tariff; a service that the tariff does not
price has its provisional entry, if there is one. -/
def entry (c : Catalog) (tariff service : String) : Except BillingError TariffEntry :=
  match c.tariffs.get? tariff with
  | none => .error (.unknownTariff tariff)
  | some table =>
    match table.entries.get? service with
    | some entry => .ok entry
    | none =>
      match c.provisional.get? service with
      | some entry => .ok entry
      | none => .error (.unknownService service)

/-- Set a price in a tariff, which ends the review of the service. -/
def setPrice (c : Catalog) (tariff : String) (entry : TariffEntry) :
    Except BillingError Catalog :=
  match c.tariffs.get? tariff with
  | none => .error (.unknownTariff tariff)
  | some table =>
    let priced := { table with entries := table.entries.insert entry.service entry }
    .ok { c with
      tariffs := c.tariffs.insert tariff priced
      provisional := c.provisional.erase entry.service }

/-- The service of a profile. A profile without one becomes its own service. -/
def claimProfile (c : Catalog) (profile : String) : String × Catalog :=
  let (service, profiles) := c.profiles.getOrInsert profile profile
  (service, { c with profiles := profiles })

/-- Give a service a provisional entry unless it has one. -/
def claimProvisional (c : Catalog) (service : String) (unit : RateUnit) : Catalog :=
  let (_, provisional) :=
    c.provisional.getOrInsert service (TariffEntry.provisional service unit)
  { c with provisional := provisional }

/-- Provision the service of an unrecognised tag. -/
def provision (c : Catalog) (tag : String) (unit : RateUnit) : String × Catalog :=
  let (service, claimed) := c.claimProfile tag
  (service, claimed.claimProvisional service unit)

/-- The service of a profile, which is provisioned if it is unknown. Profiles
are billed by time. -/
def resolveProfile (c : Catalog) (profile : String) : String × Catalog :=
  match c.serviceOfProfile profile with
  | .ok service => (service, c)
  | .error _ => c.provision profile .time

/-- The entry of a service in a tariff, which is provisioned if the service has
none. -/
def entryOrProvision (c : Catalog) (tariff service : String) (unit : RateUnit) :
    Except BillingError TariffEntry × Catalog :=
  match c.entry tariff service with
  | .error (.unknownService _) =>
    let (registered, provisioned) := c.provision service unit
    (provisioned.entry tariff registered, provisioned)
  | found => (found, c)

def flaggedServices (c : Catalog) : List String :=
  c.provisional.keys.mergeSort fun a b => a ≤ b

def provisionalEntry? (c : Catalog) (service : String) : Option TariffEntry :=
  c.provisional.get? service

end Catalog

end UsageBilling

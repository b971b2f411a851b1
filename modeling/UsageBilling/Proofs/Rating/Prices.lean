import UsageBilling.Period.Request
import UsageBilling.Proofs.Decimal.Order
import UsageBilling.Proofs.Rating.Growth
import UsageBilling.Proofs.Traversal
import UsageBilling.Proofs.Window.Timeline

/-!
Contract: what a catalog that began as a billing input keeps to.

Owns:
- entries that an operator could have set, which are those of a rate of one or more;
- the price that a history of operations leaves a service with under a tariff: the
  last one set for it, or in the tariff as it was last inserted;
- the operations that bring an empty catalog to that of an input;
- what holds after any lawful operations on the catalog of an input: rates, free
  entries, services of profiles, repeated registrations, prices, and failures.

Does not own: what usage costs under an entry.
-/

namespace UsageBilling

/-! ## Entries that an operator could have set -/

namespace TariffEntry

theorem one_le_rate_iff
    (rate : Decimal) :
    1 ≤ rate.toRat ↔ rate.lessThan Decimal.one = false := by
  rw [← not_lt, ← Decimal.toRat_one, ← Decimal.lessThan_iff, Bool.not_eq_true]

theorem one_le_rate_of_priced
    {service : String}
    {price rate : Decimal}
    {unit : RateUnit}
    {entry : TariffEntry}
    (made : priced service price rate unit = .ok entry) :
    1 ≤ entry.rate.toRat := by
  unfold priced at made
  split at made
  · cases made
  · rename_i notLess
    cases made
    exact (one_le_rate_iff rate).mpr (Bool.eq_false_iff.mpr notLess)

theorem one_le_rate_provisional
    (service : String)
    (unit : RateUnit) :
    1 ≤ (provisional service unit).rate.toRat :=
  (one_le_rate_iff Decimal.one).mpr rfl

end TariffEntry

theorem BillingInput.checkEntry_eq_ok_iff
    (entry : TariffEntry) :
    checkEntry entry = .ok () ↔ 1 ≤ entry.rate.toRat := by
  rw [TariffEntry.one_le_rate_iff, checkEntry, TariffEntry.priced]
  cases entry.rate.lessThan Decimal.one with
  | true => simp [bind, Except.bind]
  | false => simp [bind, Except.bind, pure, Except.pure]

namespace Catalog

variable {c : Catalog} {tariff profile service tag : String} {table : Tariff}
  {entry : TariffEntry} {operation : Operation} {operations : List Operation}

/-! ## The latest price -/

/-- What an operation says of the price of a service under a tariff, if it says
anything: the price it sets, or the entry, if any, of the tariff it inserts. -/
def Operation.lists? (tariff service : String) : Operation → Option (Option TariffEntry)
  | .insertTariff table => if table.id = tariff then some (table.entries.get? service) else none
  | .setPrice id entry =>
    if id = tariff ∧ entry.service = service then some (some entry) else none
  | _ => none

/-- The price that the last operation to say something of it leaves, over one that was
held before. -/
def priceAfter (tariff service : String) :
    Option TariffEntry → List Operation → Option TariffEntry
  | held, [] => held
  | held, operation :: rest =>
    priceAfter tariff service ((operation.lists? tariff service).getD held) rest

def latestPrice (tariff service : String) (operations : List Operation) : Option TariffEntry :=
  priceAfter tariff service none operations

/-- Whether a tariff, if a catalog has it, has the given price for a service. -/
def Lists (c : Catalog) (tariff service : String) (price : Option TariffEntry) : Prop :=
  ∀ table, c.tariffs.get? tariff = some table → table.entries.get? service = price

theorem Lists.congr
    {after : Catalog}
    {price : Option TariffEntry}
    (lists : c.Lists tariff service price)
    (sameTariffs : after.tariffs = c.tariffs) :
    after.Lists tariff service price := by
  rw [Lists, sameTariffs]
  exact lists

theorem lists_insertTariff
    {price : Option TariffEntry}
    (lists : c.Lists tariff service price)
    (table : Tariff) :
    (c.insertTariff table).Lists tariff service
      (((Operation.insertTariff table).lists? tariff service).getD price) := by
  intro held found
  rw [insertTariff, Table.get?_insert] at found
  by_cases same : tariff = table.id
  · rw [if_pos same] at found
    cases found
    rw [Operation.lists?, if_pos same.symm]
    rfl
  · rw [if_neg same] at found
    rw [Operation.lists?, if_neg (Ne.symm same)]
    exact lists held found

/-- A price that cannot be set is for a tariff that the catalog lacks. -/
theorem lists_setPrice
    {price : Option TariffEntry}
    (lists : c.Lists tariff service price)
    (id : String)
    (entry : TariffEntry) :
    (c.perform (.setPrice id entry)).Lists tariff service
      (((Operation.setPrice id entry).lists? tariff service).getD price) := by
  intro held found
  rw [perform, setPrice] at found
  cases before : c.tariffs.get? id with
  | none =>
    rw [before] at found
    have other : ¬ (id = tariff ∧ entry.service = service) := by
      intro both
      rw [both.1] at before
      exact Option.some_ne_none held (found.symm.trans before)
    rw [Operation.lists?, if_neg other]
    exact lists held found
  | some table =>
    rw [before] at found
    have inserted : (c.tariffs.insert id
        { table with entries := table.entries.insert entry.service entry }).get? tariff =
          some held := found
    rw [Table.get?_insert] at inserted
    by_cases sameTariff : tariff = id
    · rw [if_pos sameTariff] at inserted
      cases inserted
      rw [Operation.lists?]
      show (table.entries.insert entry.service entry).get? service = _
      rw [Table.get?_insert]
      by_cases sameService : service = entry.service
      · rw [if_pos sameService, if_pos ⟨sameTariff.symm, sameService.symm⟩]
        rfl
      · rw [if_neg sameService, if_neg fun both => sameService both.2.symm]
        exact lists table (sameTariff ▸ before)
    · rw [if_neg sameTariff] at inserted
      rw [Operation.lists?, if_neg fun both => sameTariff both.1.symm]
      exact lists held inserted

theorem Lists.perform
    {price : Option TariffEntry}
    (lists : c.Lists tariff service price)
    (operation : Operation) :
    (c.perform operation).Lists tariff service
      ((operation.lists? tariff service).getD price) := by
  cases operation with
  | insertTariff table => exact lists_insertTariff lists table
  | withProfile profile mapped => exact lists
  | setPrice id entry => exact lists_setPrice lists id entry
  | provision tag unit => exact lists.congr (c.extends_provision tag unit).tariffs
  | resolveProfile profile => exact lists.congr (c.extends_resolveProfile profile).tariffs
  | entryOrProvision asked wanted unit =>
    exact lists.congr (c.extends_entryOrProvision asked wanted unit).tariffs

theorem Lists.performAll
    {price : Option TariffEntry}
    (lists : c.Lists tariff service price)
    (operations : List Operation) :
    (operations.foldl Catalog.perform c).Lists tariff service
      (priceAfter tariff service price operations) := by
  induction operations generalizing c price with
  | nil => exact lists
  | cons operation rest inductionHypothesis =>
    exact inductionHypothesis (lists.perform operation)

theorem lists_reached
    (operations : List Operation)
    (tariff service : String) :
    (reached operations).Lists tariff service (latestPrice tariff service operations) := by
  apply Lists.performAll
  intro table found
  cases found

/-! ## Lawful operations -/

/-- Whether the entries of an operation have passed the check of an input, or were made
as prices. -/
def Operation.Checked : Operation → Prop
  | .insertTariff table => ∀ service entry, table.entries.get? service = some entry →
    BillingInput.checkEntry entry = .ok ()
  | .setPrice _ entry => ∃ service price rate unit,
    TariffEntry.priced service price rate unit = .ok entry
  | _ => True

/-- Whether an operation is one of a catalog in use: its entries are checked, and it maps
no profile. -/
def Operation.Lawful (operation : Operation) : Prop :=
  operation.Checked ∧ ∀ profile service, operation ≠ .withProfile profile service

theorem Operation.Checked.one_le_rate
    (checked : operation.Checked)
    (lists : operation.lists? tariff service = some (some entry)) :
    1 ≤ entry.rate.toRat := by
  cases operation with
  | insertTariff table =>
    rw [lists?, Option.ite_none_right_eq_some] at lists
    exact (BillingInput.checkEntry_eq_ok_iff entry).mp
      (checked service entry (Option.some.inj lists.2))
  | setPrice id given =>
    rw [lists?, Option.ite_none_right_eq_some] at lists
    have ⟨_, same⟩ := lists
    cases same
    have ⟨_, _, _, _, made⟩ := checked
    exact TariffEntry.one_le_rate_of_priced made
  | withProfile _ _ => cases lists
  | provision _ _ => cases lists
  | resolveProfile _ => cases lists
  | entryOrProvision _ _ _ => cases lists

theorem one_le_rate_of_priceAfter
    {held : Option TariffEntry}
    (checked : ∀ operation ∈ operations, operation.Checked)
    (heldRate : ∀ entry, held = some entry → 1 ≤ entry.rate.toRat)
    (price : priceAfter tariff service held operations = some entry) :
    1 ≤ entry.rate.toRat := by
  induction operations generalizing held with
  | nil => exact heldRate entry price
  | cons operation rest inductionHypothesis =>
    have ⟨first, others⟩ := List.forall_mem_cons.mp checked
    apply inductionHypothesis others _ price
    intro listed isListed
    cases stated : operation.lists? tariff service with
    | none =>
      rw [stated] at isListed
      exact heldRate listed isListed
    | some found =>
      rw [stated] at isListed
      exact first.one_le_rate (stated.trans (congrArg some isListed))

/-! ## Services of profiles -/

theorem Operation.Lawful.profiles
    (lawful : operation.Lawful)
    (held : c.profiles.get? profile = some service) :
    (c.perform operation).profiles.get? profile = some service := by
  cases operation with
  | insertTariff table => exact held
  | withProfile other mapped => exact absurd rfl (lawful.2 other mapped)
  | setPrice id entry =>
    rw [perform, Catalog.setPrice]
    cases c.tariffs.get? id with
    | none => exact held
    | some table => exact held
  | provision tag unit => exact (c.extends_provision tag unit).profiles profile service held
  | resolveProfile resolved =>
    exact (c.extends_resolveProfile resolved).profiles profile service held
  | entryOrProvision tariff wanted unit =>
    exact (c.extends_entryOrProvision tariff wanted unit).profiles profile service held

theorem profiles_performAll
    (lawful : ∀ operation ∈ operations, operation.Lawful)
    (held : c.profiles.get? profile = some service) :
    (operations.foldl perform c).profiles.get? profile = some service := by
  induction operations generalizing c with
  | nil => exact held
  | cons operation rest inductionHypothesis =>
    have ⟨first, others⟩ := List.forall_mem_cons.mp lawful
    exact inductionHypothesis others (first.profiles held)

theorem serviceOfProfile_eq_ok_iff
    (c : Catalog)
    (profile service : String) :
    c.serviceOfProfile profile = .ok service ↔ c.profiles.get? profile = some service := by
  rw [serviceOfProfile]
  cases c.profiles.get? profile with
  | none => simp
  | some held => simp

/-- Whether a profile has a service, however it is asked for. -/
structure HasService (c : Catalog) (profile service : String) : Prop where
  found : c.serviceOfProfile profile = .ok service
  resolved : (c.resolveProfile profile).1 = service
  registered : ∀ unit, (c.provision profile unit).1 = service

theorem hasService_iff
    (c : Catalog)
    (profile service : String) :
    c.HasService profile service ↔ c.profiles.get? profile = some service := by
  constructor
  · intro has
    exact (c.serviceOfProfile_eq_ok_iff profile service).mp has.found
  · intro held
    have itself : c.serviceFor profile = service := by
      rw [serviceFor, held]
      rfl
    exact ⟨(c.serviceOfProfile_eq_ok_iff profile service).mpr held,
      (c.resolveProfile_eq profile).1.trans itself,
      fun _ => (c.claimProfile_eq profile).1.trans itself⟩

/-- Whether a profile has a service now and after any lawful operations. -/
def Keeps (c : Catalog) (profile service : String) : Prop :=
  ∀ operations : List Operation, (∀ operation ∈ operations, operation.Lawful) →
    (operations.foldl perform c).HasService profile service

theorem keeps_of_held
    (held : c.profiles.get? profile = some service) :
    c.Keeps profile service := by
  intro operations lawful
  exact (hasService_iff _ profile service).mpr (profiles_performAll lawful held)

theorem keeps_resolveProfile
    (c : Catalog)
    (profile : String) :
    (c.resolveProfile profile).2.Keeps profile (c.resolveProfile profile).1 := by
  apply keeps_of_held
  rw [(c.resolveProfile_eq profile).1]
  unfold resolveProfile serviceOfProfile
  cases held : c.profiles.get? profile with
  | some service =>
    rw [serviceFor, held]
    rfl
  | none => exact c.get?_profiles_provision profile .time

theorem keeps_provision
    (c : Catalog)
    (tag : String)
    (unit : RateUnit) :
    (c.provision tag unit).2.Keeps tag (c.provision tag unit).1 := by
  apply keeps_of_held
  rw [c.get?_profiles_provision tag unit]
  exact congrArg some (c.claimProfile_eq tag).1.symm

theorem provision_again
    (c : Catalog)
    (tag : String)
    (unit unit' : RateUnit) :
    (c.provision tag unit).2.provision tag unit' = c.provision tag unit := by
  have registered : (c.provision tag unit).1 = c.serviceFor tag := (c.claimProfile_eq tag).1
  rw [(c.provisioned_provision tag unit).provision_eq, (c.extends_provision tag unit).serviceFor,
    ← registered]

/-! ## Failures -/

/-- A service under a tariff that the catalog has can always be priced. -/
theorem exists_entryOrProvision
    (held : c.tariffs.get? tariff = some table)
    (service : String)
    (unit : RateUnit) :
    ∃ entry, (c.entryOrProvision tariff service unit).1 = .ok entry := by
  cases priced : table.entries.get? service with
  | some entry =>
    rw [entryOrProvision_of_priced held priced]
    exact ⟨entry, rfl⟩
  | none =>
    cases provisional : c.provisional.get? service with
    | some entry =>
      rw [entryOrProvision_of_provisional held priced provisional]
      exact ⟨entry, rfl⟩
    | none =>
      rw [entryOrProvision_of_unknown held priced provisional]
      exact ⟨_, rfl⟩

theorem of_entryOrProvision_eq_error
    {error : BillingError}
    {unit : RateUnit}
    (failed : (c.entryOrProvision tariff service unit).1 = .error error) :
    error = .unknownTariff tariff ∧ c.tariffs.contains tariff = false ∧
      (c.entryOrProvision tariff service unit).2 = c := by
  cases held : c.tariffs.get? tariff with
  | some table =>
    have ⟨entry, found⟩ := exists_entryOrProvision held service unit
    rw [found] at failed
    cases failed
  | none =>
    have lacks : c.tariffs.contains tariff = false := by
      rw [Table.contains, held]
      rfl
    rw [Rating.entryOrProvision_of_not_contains lacks] at failed ⊢
    cases failed
    exact ⟨rfl, lacks, rfl⟩

end Catalog

/-! ## Catalogs of billing inputs -/

namespace BillingInput

/-- The operations that make the catalog of an input. -/
def seeding (input : BillingInput) : List Catalog.Operation :=
  input.tariffs.map .insertTariff ++
    input.profiles.entries.map fun (profile, service) => .withProfile profile service

theorem catalog_eq_reached
    (input : BillingInput) :
    input.catalog = Catalog.reached input.seeding := by
  rw [catalog, Catalog.reached, seeding, List.foldl_append, List.foldl_map, List.foldl_map]
  rfl

theorem parts_eq_ok_iff
    (input : BillingInput)
    (catalog : Catalog)
    (request : PeriodRequest) :
    input.parts = .ok (catalog, request) ↔
      input.check = .ok () ∧ catalog = input.catalog ∧ request = input.request := by
  rw [parts]
  cases input.check with
  | error error => simp [bind, Except.bind]
  | ok _ => simp [bind, Except.bind, pure, Except.pure, eq_comm]

theorem checked_seeding
    {input : BillingInput}
    (passes : input.check = .ok ()) :
    ∀ operation ∈ input.seeding, operation.Checked := by
  rw [check, forM_eq_ok_iff] at passes
  intro operation member
  rcases List.mem_append.mp member with isTariff | isProfile
  · have ⟨table, inTariffs, inserts⟩ := List.mem_map.mp isTariff
    rw [← inserts]
    intro service entry found
    exact passes (service, entry)
      (List.mem_flatMap.mpr ⟨table, inTariffs, Table.mem_of_lookup found⟩)
  · have ⟨_, _, maps⟩ := List.mem_map.mp isProfile
    rw [← maps]
    trivial

end BillingInput

namespace Catalog

variable {tariff profile service tag : String} {table : Tariff} {entry : TariffEntry}
  {operations : List Operation}

theorem one_le_rate_of_entry
    (checked : ∀ operation ∈ operations, operation.Checked)
    (found : (reached operations).entry tariff service = .ok entry) :
    1 ≤ entry.rate.toRat := by
  cases held : (reached operations).tariffs.get? tariff with
  | none =>
    rw [Catalog.entry, held] at found
    cases found
  | some table =>
    have listed := lists_reached operations tariff service table held
    rw [entry_of_held held] at found
    cases priced : table.entries.get? service with
    | some price =>
      rw [priced] at found listed
      cases found
      exact one_le_rate_of_priceAfter checked (by simp) listed.symm
    | none =>
      cases provisional : (reached operations).provisional.get? service with
      | none =>
        rw [priced, provisional] at found
        cases found
      | some price =>
        rw [priced, provisional] at found
        cases found
        obtain ⟨unit, made⟩ := awaitsPrices_reached operations service entry provisional
        rw [made]
        exact TariffEntry.one_le_rate_provisional service unit

/-- What a catalog keeps to after a history of operations: entries have rates of one or
more; provisional ones are free, under review and for their own services; a profile that
has been given a service keeps it; a tag that was registered is not registered again; a
service is returned with its latest price, also to those who ask for its profile; and
only a tariff that the catalog lacks cannot be asked for a price. -/
structure KeepsTo (history : List Operation) (c : Catalog) : Prop where
  rate : ∀ tariff service entry, c.entry tariff service = .ok entry → 1 ≤ entry.rate.toRat
  provisional : ∀ service entry, c.provisional.get? service = some entry →
    entry.service = service ∧ entry.price = Decimal.zero ∧ entry.rate = Decimal.one ∧
      entry.needsReview = true
  found : ∀ profile service, c.serviceOfProfile profile = .ok service → c.Keeps profile service
  resolved : ∀ profile, (c.resolveProfile profile).2.Keeps profile (c.resolveProfile profile).1
  registered : ∀ tag unit, (c.provision tag unit).2.Keeps tag (c.provision tag unit).1
  registeredOnce : ∀ tag unit unit',
    (c.provision tag unit).2.provision tag unit' = c.provision tag unit
  priced : ∀ tariff service entry, c.tariffs.contains tariff = true →
    latestPrice tariff service history = some entry →
      c.entry tariff service = .ok entry ∧
        ∀ unit, c.entryOrProvision tariff service unit = (.ok entry, c)
  pricedByProfile : ∀ tariff profile entry, c.tariffs.contains tariff = true →
    latestPrice tariff profile history = none → c.provisional.get? profile = none →
      latestPrice tariff (c.serviceFor profile) history = some entry →
        ∀ unit, (c.entryOrProvision tariff profile unit).1 = .ok entry
  refused : ∀ tariff service unit error,
    (c.entryOrProvision tariff service unit).1 = .error error →
      error = .unknownTariff tariff ∧ c.tariffs.contains tariff = false ∧
        (c.entryOrProvision tariff service unit).2 = c

theorem keepsTo_reached
    (checked : ∀ operation ∈ operations, operation.Checked) :
    KeepsTo operations (reached operations) := by
  constructor
  case rate => exact fun _ _ _ found => one_le_rate_of_entry checked found
  case provisional =>
    intro service entry held
    have ⟨unit, made⟩ := awaitsPrices_reached operations service entry held
    rw [made]
    exact ⟨rfl, rfl, rfl, rfl⟩
  case found =>
    intro profile service found
    exact keeps_of_held ((serviceOfProfile_eq_ok_iff _ profile service).mp found)
  case resolved => exact keeps_resolveProfile _
  case registered => exact keeps_provision _
  case registeredOnce => exact provision_again _
  case priced =>
    intro tariff service entry has price
    have ⟨table, held⟩ := Option.isSome_iff_exists.mp has
    have listed := lists_reached operations tariff service table held
    rw [price] at listed
    refine ⟨?_, entryOrProvision_of_priced held listed⟩
    rw [entry_of_held held, listed]
    rfl
  case pricedByProfile =>
    intro tariff profile entry has unpriced unknown price unit
    have ⟨table, held⟩ := Option.isSome_iff_exists.mp has
    have notListed := lists_reached operations tariff profile table held
    have listed := lists_reached operations tariff ((reached operations).serviceFor profile) table
      held
    rw [unpriced] at notListed
    rw [price] at listed
    rw [entryOrProvision_of_unknown held notListed unknown, listed]
    rfl
  case refused => exact fun _ _ _ _ failed => of_entryOrProvision_eq_error failed

/-- The catalog of an input keeps to this after any lawful operations, its own tariffs
and profiles being the first of its history. -/
theorem keepsTo_of_parts
    {input : BillingInput}
    {catalog : Catalog}
    {request : PeriodRequest}
    (made : input.parts = .ok (catalog, request))
    (lawful : ∀ operation ∈ operations, operation.Lawful) :
    KeepsTo (input.seeding ++ operations) (operations.foldl perform catalog) := by
  have ⟨passes, ofInput, _⟩ := (input.parts_eq_ok_iff catalog request).mp made
  have history : operations.foldl perform catalog = reached (input.seeding ++ operations) := by
    rw [ofInput, input.catalog_eq_reached, reached, reached, List.foldl_append]
  rw [history]
  apply keepsTo_reached
  intro operation member
  rcases List.mem_append.mp member with seeds | follows
  · exact BillingInput.checked_seeding passes operation seeds
  · exact (lawful operation follows).1

/-- An input with a tariff of one price, and a profile of the service that it prices. -/
def smallInput (start stop : Instant) : BillingInput where
  tenant := "acme"
  periodStart := start
  periodStop := stop
  tariffs := [smallTariff]
  profiles := Table.empty.insert "vm" "m1.small"
  assignments := []
  jobs := []

def accelerator : TariffEntry :=
  ⟨"gpu.a100", .ofInt 2, .ofInt 60, .time, false⟩

/-- A service is provisioned and then priced, and the tariff is inserted under another
name. -/
def pricingOperations : List Operation :=
  [.provision "gpu.a100" .time, .setPrice "default" accelerator, .resolveProfile "gpu.h100",
    .insertTariff { smallTariff with id := "discount" },
    .entryOrProvision "discount" "gpu.a100" .time]

theorem checked_smallTariff :
    (Operation.insertTariff smallTariff).Checked := by
  intro service entry found
  rw [smallTariff, Table.get?_insert] at found
  split at found
  · cases found
    rfl
  · cases found

theorem keepsTo_priced_accelerator :
    ∃ catalog request,
      (smallInput (.ofSecond 0) (.ofSecond 3600)).parts = .ok (catalog, request) ∧
      (∀ operation ∈ pricingOperations, operation.Lawful) ∧
      (pricingOperations.foldl perform catalog).entry "default" "gpu.a100" = .ok accelerator := by
  let input := smallInput (.ofSecond 0) (.ofSecond 3600)
  have made : input.parts = .ok (input.catalog, input.request) := rfl
  have lawful : ∀ operation ∈ pricingOperations, operation.Lawful := by
    have unmapped : ∀ operation ∈ pricingOperations, ∀ profile service,
        operation ≠ .withProfile profile service := by
      simp [pricingOperations]
    have checked : ∀ operation ∈ pricingOperations, operation.Checked := by
      simp only [pricingOperations, List.forall_mem_cons]
      exact ⟨trivial, ⟨"gpu.a100", .ofInt 2, .ofInt 60, .time, rfl⟩, trivial,
        checked_smallTariff, trivial, by simp⟩
    exact fun operation member => ⟨checked operation member, unmapped operation member⟩
  have keeps := keepsTo_of_parts made lawful
  refine ⟨_, _, made, lawful, ?_⟩
  exact (keeps.priced "default" "gpu.a100" accelerator rfl (by decide)).1

end Catalog

end UsageBilling

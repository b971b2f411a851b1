import UsageBilling.Proofs.Rating.Tariffs
import UsageBilling.Proofs.Table

/-!
Contract: services that nobody has priced.

Owns:
- the service of a profile, which provisioning writes down and never changes;
- what provisioning a tag does to provisional entries, and the entry that it ends
  with;
- operations on a catalog and the catalogs they reach: provisional entries are free
  and need review, and one stays until a price is set for its service;
- when a service without a price ends up with a free entry and flagged, and what it
  gets otherwise.

A service name is looked up among the profiles when it is provisioned. If it is
the profile of another service, that service is provisioned in its place.

Does not own: what a catalog's prices come to.
-/

namespace UsageBilling.Catalog

variable {c : Catalog} {tariff service : String} {table : Tariff} {entry : TariffEntry}

/-! ## Services of profiles -/

/-- The service that a profile has, or is given once it is met. -/
def serviceFor (c : Catalog) (profile : String) : String :=
  (c.profiles.get? profile).getD profile

theorem claimProfile_eq
    (c : Catalog)
    (profile : String) :
    (c.claimProfile profile).1 = c.serviceFor profile ∧
      (c.claimProfile profile).2.serviceFor = c.serviceFor := by
  constructor
  · show (c.profiles.getOrInsert profile profile).1 = _
    unfold serviceFor Table.getOrInsert
    cases c.profiles.get? profile with
    | none => rfl
    | some service => rfl
  · funext other
    show ((c.profiles.getOrInsert profile profile).2.get? other).getD other = _
    rw [Table.get?_getOrInsert, serviceFor]
    cases c.profiles.get? other with
    | some service => rfl
    | none =>
      by_cases same : other = profile
      · simp [same]
      · simp [same]

theorem resolveProfile_eq
    (c : Catalog)
    (profile : String) :
    (c.resolveProfile profile).1 = c.serviceFor profile ∧
      (c.resolveProfile profile).2.serviceFor = c.serviceFor := by
  unfold resolveProfile serviceOfProfile
  cases held : c.profiles.get? profile with
  | some service =>
    refine ⟨?_, rfl⟩
    rw [serviceFor, held]
    rfl
  | none => exact c.claimProfile_eq profile

theorem serviceFor_entryOrProvision
    (c : Catalog)
    (tariff service : String)
    (unit : RateUnit) :
    (c.entryOrProvision tariff service unit).2.serviceFor = c.serviceFor := by
  unfold entryOrProvision
  split
  · exact (c.claimProfile_eq service).2
  · rfl

/-! ## Provisioning -/

theorem mem_flaggedServices_iff
    (c : Catalog)
    (service : String) :
    service ∈ c.flaggedServices ↔ ∃ entry, c.provisional.get? service = some entry := by
  rw [flaggedServices, List.mem_mergeSort, ← Option.isSome_iff_exists, Option.isSome_iff_ne_none]
  exact (not_iff_comm.mp (Table.lookup_eq_none_iff service c.provisional.entries).symm).symm

/-- Provisioning a tag gives its service a provisional entry, unless there is one. -/
theorem get?_provisional_provision
    (c : Catalog)
    (tag : String)
    (unit : RateUnit)
    (service : String) :
    (c.provision tag unit).2.provisional.get? service =
      (c.provisional.get? service).or
        (if service = c.serviceFor tag then some (TariffEntry.provisional service unit)
          else none) := by
  have claimed : (c.claimProfile tag).1 = c.serviceFor tag := (c.claimProfile_eq tag).1
  show ((c.provisional.getOrInsert (c.claimProfile tag).1
    (TariffEntry.provisional (c.claimProfile tag).1 unit)).2).get? service = _
  rw [claimed, Table.get?_getOrInsert]
  by_cases same : service = c.serviceFor tag
  · rw [if_pos same, if_pos same, same]
  · rw [if_neg same, if_neg same]

/-- Under a tariff that the catalog has, a service has the tariff's entry, or else
its provisional one. -/
theorem entry_of_held
    (held : c.tariffs.get? tariff = some table)
    (service : String) :
    c.entry tariff service =
      match (table.entries.get? service).or (c.provisional.get? service) with
      | some entry => .ok entry
      | none => .error (.unknownService service) := by
  rw [Catalog.entry, held]
  dsimp only
  cases table.entries.get? service with
  | some entry => rfl
  | none => rfl

theorem entryOrProvision_of_provisional
    (held : c.tariffs.get? tariff = some table)
    (unpriced : table.entries.get? service = none)
    (provisional : c.provisional.get? service = some entry)
    (unit : RateUnit) :
    c.entryOrProvision tariff service unit = (.ok entry, c) := by
  have found : c.entry tariff service = .ok entry := by
    rw [entry_of_held held, unpriced, provisional]
    rfl
  rw [entryOrProvision, found]

/-- A service that has no entry at all is provisioned, and gets the entry of the
service it is the profile of: the tariff's, or else the provisional one. -/
theorem entryOrProvision_of_unknown
    (held : c.tariffs.get? tariff = some table)
    (unpriced : table.entries.get? service = none)
    (unknown : c.provisional.get? service = none)
    (unit : RateUnit) :
    c.entryOrProvision tariff service unit =
      (.ok ((table.entries.get? (c.serviceFor service)).getD
          ((c.provisional.get? (c.serviceFor service)).getD
            (TariffEntry.provisional (c.serviceFor service) unit))),
        (c.provision service unit).2) := by
  have missing : c.entry tariff service = .error (.unknownService service) := by
    rw [entry_of_held held, unpriced, unknown]
    rfl
  have stillHeld : (c.provision service unit).2.tariffs.get? tariff = some table := held
  have registered : (c.provision service unit).1 = c.serviceFor service :=
    (c.claimProfile_eq service).1
  have provisioned := get?_provisional_provision c service unit (c.serviceFor service)
  rw [if_pos rfl] at provisioned
  rw [entryOrProvision, missing]
  dsimp only
  rw [registered, entry_of_held stillHeld, provisioned]
  congr 1
  cases table.entries.get? (c.serviceFor service) with
  | some entry => rfl
  | none =>
    cases c.provisional.get? (c.serviceFor service) with
    | some entry => rfl
    | none => rfl

/-! ## Operations -/

/-- What a catalog is asked to do, but for lookups, which leave it as it is. -/
inductive Operation where
  | insertTariff (tariff : Tariff)
  | withProfile (profile service : String)
  | setPrice (tariff : String) (entry : TariffEntry)
  | provision (tag : String) (unit : RateUnit)
  | resolveProfile (profile : String)
  | entryOrProvision (tariff service : String) (unit : RateUnit)
deriving DecidableEq, Repr

/-- The catalog once an operation is done. One that fails leaves it as it was. -/
def perform (c : Catalog) : Operation → Catalog
  | .insertTariff tariff => c.insertTariff tariff
  | .withProfile profile service => c.withProfile profile service
  | .setPrice tariff entry => (c.setPrice tariff entry).toOption.getD c
  | .provision tag unit => (c.provision tag unit).2
  | .resolveProfile profile => (c.resolveProfile profile).2
  | .entryOrProvision tariff service unit => (c.entryOrProvision tariff service unit).2

/-- The catalog that operations bring an empty one to. -/
def reached (operations : List Operation) : Catalog :=
  operations.foldl perform empty

/-- Whether an operation sets a price for a service. -/
def Operation.Prices (operation : Operation) (service : String) : Prop :=
  ∃ tariff entry, operation = .setPrice tariff entry ∧ entry.service = service

/-- What one operation may do to the provisional entry of a service: leave it,
take it away with a price, or make one for a service that has none. -/
inductive Changes (service : String) (operation : Operation) :
    Option TariffEntry → Option TariffEntry → Prop where
  | left (held : Option TariffEntry) : Changes service operation held held
  | priced (held : Option TariffEntry) (prices : operation.Prices service) :
      Changes service operation held none
  | made (unit : RateUnit) :
      Changes service operation none (some (TariffEntry.provisional service unit))

theorem changes_provision
    (c : Catalog)
    (operation : Operation)
    (tag : String)
    (unit : RateUnit)
    (service : String) :
    Changes service operation (c.provisional.get? service)
      ((c.provision tag unit).2.provisional.get? service) := by
  rw [get?_provisional_provision]
  cases c.provisional.get? service with
  | some entry => exact .left (some entry)
  | none =>
    rw [Option.none_or]
    split
    · exact .made unit
    · exact .left none

theorem changes_perform
    (c : Catalog)
    (operation : Operation)
    (service : String) :
    Changes service operation (c.provisional.get? service)
      ((c.perform operation).provisional.get? service) := by
  cases operation with
  | insertTariff table => exact .left _
  | withProfile profile service => exact .left _
  | setPrice tariff entry =>
    rw [perform, setPrice]
    cases c.tariffs.get? tariff with
    | none => exact .left _
    | some table =>
      show Changes service _ _ ((c.provisional.erase entry.service).get? service)
      rw [Table.get?_erase]
      split
      · rename_i same
        exact .priced _ ⟨tariff, entry, rfl, same.symm⟩
      · exact .left _
  | provision tag unit => exact c.changes_provision _ tag unit service
  | resolveProfile profile =>
    rw [perform, resolveProfile]
    split
    · exact .left _
    · exact c.changes_provision _ profile .time service
  | entryOrProvision tariff asked unit =>
    rw [perform, entryOrProvision]
    split
    · exact c.changes_provision _ asked unit service
    · exact .left _

/-! ## Provisional entries of reached catalogs -/

/-- Provisional entries are those made for services that nobody has priced. -/
def AwaitsPrices (c : Catalog) : Prop :=
  ∀ service entry, c.provisional.get? service = some entry →
    ∃ unit, entry = TariffEntry.provisional service unit

theorem AwaitsPrices.perform
    (awaits : c.AwaitsPrices)
    (operation : Operation) :
    (c.perform operation).AwaitsPrices := by
  intro service entry found
  have changes := c.changes_perform operation service
  rw [found] at changes
  generalize before : c.provisional.get? service = held at changes
  cases changes with
  | left => exact awaits service entry before
  | made unit => exact ⟨unit, rfl⟩

theorem awaitsPrices_reached
    (operations : List Operation) :
    (reached operations).AwaitsPrices := by
  have ofRun : ∀ (operations : List Operation) (c : Catalog), c.AwaitsPrices →
      (operations.foldl Catalog.perform c).AwaitsPrices := by
    intro operations
    induction operations with
    | nil => exact fun _ awaits => awaits
    | cons operation rest inductionHypothesis =>
      exact fun c awaits => inductionHypothesis (c.perform operation) (awaits.perform operation)
  apply ofRun operations empty
  intro service entry found
  cases found

/-- A service stays flagged as long as no price is set for it. -/
theorem mem_flaggedServices_of_unpriced
    (flagged : service ∈ c.flaggedServices)
    (operations : List Operation)
    (unpriced : ∀ operation ∈ operations, ¬ operation.Prices service) :
    service ∈ (operations.foldl perform c).flaggedServices := by
  induction operations generalizing c with
  | nil => exact flagged
  | cons operation rest inductionHypothesis =>
    apply inductionHypothesis
    · have ⟨entry, held⟩ := (c.mem_flaggedServices_iff service).mp flagged
      have changes := c.changes_perform operation service
      rw [held] at changes
      rw [mem_flaggedServices_iff]
      generalize (c.perform operation).provisional.get? service = after at changes ⊢
      cases changes with
      | left => exact ⟨entry, rfl⟩
      | priced _ prices => exact absurd prices (unpriced operation List.mem_cons_self)
    · exact fun other member => unpriced other (List.mem_cons_of_mem operation member)

/-! ## Services that nobody has priced -/

/-- Whether a service is left to be priced: whoever asks for its price gets a free
entry that needs review, and it is flagged until a price is set for it. -/
structure LeftForReview (c : Catalog) (tariff service : String) (unit : RateUnit) : Prop where
  free : ∃ entry, (c.entryOrProvision tariff service unit).1 = .ok entry ∧
    entry.price = Decimal.zero ∧ entry.needsReview = true
  flagged : ∀ operations : List Operation,
    (∀ operation ∈ operations, ¬ operation.Prices service) →
      service ∈
        (operations.foldl perform (c.entryOrProvision tariff service unit).2).flaggedServices

theorem AwaitsPrices.leftForReview
    (awaits : c.AwaitsPrices)
    (held : c.tariffs.get? tariff = some table)
    (unpriced : table.entries.get? service = none)
    (unit : RateUnit)
    (own : service ∈ c.flaggedServices ∨ c.serviceFor service = service) :
    LeftForReview c tariff service unit := by
  cases provisional : c.provisional.get? service with
  | some entry =>
    have answered := entryOrProvision_of_provisional held unpriced provisional unit
    have ⟨made, isProvisional⟩ := awaits service entry provisional
    have flagged := (c.mem_flaggedServices_iff service).mpr ⟨entry, provisional⟩
    constructor
    · rw [answered, isProvisional]
      exact ⟨_, rfl, rfl, rfl⟩
    · rw [answered]
      exact mem_flaggedServices_of_unpriced flagged
  | none =>
    have itself : c.serviceFor service = service := by
      rcases own with flagged | itself
      · have ⟨entry, found⟩ := (c.mem_flaggedServices_iff service).mp flagged
        rw [provisional] at found
        cases found
      · exact itself
    have answered := entryOrProvision_of_unknown held unpriced provisional unit
    rw [itself, unpriced, provisional] at answered
    have made := get?_provisional_provision c service unit service
    rw [provisional, itself, if_pos rfl] at made
    constructor
    · rw [answered]
      exact ⟨_, rfl, rfl, rfl⟩
    · rw [answered]
      exact mem_flaggedServices_of_unpriced ((mem_flaggedServices_iff _ _).mpr ⟨_, made⟩)

/-- The profile of another service is not flagged, as the other service is
provisioned in its place. -/
theorem not_mem_flaggedServices_of_profile
    (held : c.tariffs.get? tariff = some table)
    (unpriced : table.entries.get? service = none)
    (unit : RateUnit)
    (unflagged : service ∉ c.flaggedServices)
    (other : c.serviceFor service ≠ service) :
    service ∉ (c.entryOrProvision tariff service unit).2.flaggedServices ∧
      ∀ entry, table.entries.get? (c.serviceFor service) = some entry →
        (c.entryOrProvision tariff service unit).1 = .ok entry := by
  have unknown : c.provisional.get? service = none := by
    rw [mem_flaggedServices_iff, not_exists] at unflagged
    exact Option.eq_none_iff_forall_ne_some.mpr unflagged
  rw [entryOrProvision_of_unknown held unpriced unknown unit]
  constructor
  · rw [mem_flaggedServices_iff, get?_provisional_provision, unknown, if_neg other.symm]
    intro ⟨entry, found⟩
    cases found
  · intro entry priced
    rw [priced]
    rfl

/-- A service that a tariff of the catalog has no entry for gets an entry. It is left
for review exactly if it is flagged already or is not the profile of another service.
Otherwise it is not flagged, and gets the entry that the tariff has for the other
service, if there is one. -/
theorem leftForReview_iff_of_reached
    (operations : List Operation)
    (held : (reached operations).tariffs.get? tariff = some table)
    (unpriced : table.entries.get? service = none)
    (unit : RateUnit) :
    (∃ entry, ((reached operations).entryOrProvision tariff service unit).1 = .ok entry) ∧
      (LeftForReview (reached operations) tariff service unit ↔
        service ∈ (reached operations).flaggedServices ∨
          (reached operations).serviceFor service = service) ∧
      (service ∉ (reached operations).flaggedServices →
        (reached operations).serviceFor service ≠ service →
          service ∉
              ((reached operations).entryOrProvision tariff service unit).2.flaggedServices ∧
            ∀ entry, table.entries.get? ((reached operations).serviceFor service) = some entry →
              ((reached operations).entryOrProvision tariff service unit).1 = .ok entry) := by
  have awaits := awaitsPrices_reached operations
  refine ⟨?_, ⟨?_, awaits.leftForReview held unpriced unit⟩,
    not_mem_flaggedServices_of_profile held unpriced unit⟩
  · cases provisional : (reached operations).provisional.get? service with
    | some entry =>
      rw [entryOrProvision_of_provisional held unpriced provisional]
      exact ⟨_, rfl⟩
    | none =>
      rw [entryOrProvision_of_unknown held unpriced provisional]
      exact ⟨_, rfl⟩
  · intro left
    by_contra neither
    have ⟨unflagged, other⟩ := not_or.mp neither
    exact (not_mem_flaggedServices_of_profile held unpriced unit unflagged other).1
      (left.flagged [] (by simp))

/-- A tariff with one price. -/
def smallTariff : Tariff :=
  ⟨"default", Table.empty.insert "m1.small" ⟨"m1.small", .ofInt 5, .ofInt 3600, .time, false⟩⟩

/-- The tariff, and a profile of the service that it prices. -/
def profiledOperations : List Operation :=
  [.insertTariff smallTariff, .withProfile "vm" "m1.small"]

/-- A service that is no profile. -/
theorem leftForReview_without_profile :
    (reached profiledOperations).tariffs.get? "default" = some smallTariff ∧
      smallTariff.entries.get? "net.in" = none ∧
      LeftForReview (reached profiledOperations) "default" "net.in" .quantity := by
  have held : (reached profiledOperations).tariffs.get? "default" = some smallTariff := rfl
  have unpriced : smallTariff.entries.get? "net.in" = none := by decide
  have ⟨_, exactly, _⟩ := leftForReview_iff_of_reached profiledOperations held unpriced .quantity
  exact ⟨held, unpriced, exactly.mpr (Or.inr rfl)⟩

/-- The profile of a service with a price is charged that price and not flagged. -/
theorem not_forall_leftForReview :
    ¬ ∀ operations tariff table service unit,
      (reached operations).tariffs.get? tariff = some table →
        table.entries.get? service = none →
          LeftForReview (reached operations) tariff service unit := by
  intro claimed
  have left := claimed profiledOperations "default" smallTariff "vm" .time rfl (by decide)
  have flagged := left.flagged [] (by simp)
  rw [List.foldl_nil, mem_flaggedServices_iff] at flagged
  have unflagged : ((reached profiledOperations).entryOrProvision "default" "vm"
      .time).2.provisional.get? "vm" = none := by
    decide
  have ⟨entry, found⟩ := flagged
  rw [unflagged] at found
  cases found

end UsageBilling.Catalog

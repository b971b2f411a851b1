import UsageBilling.Proofs.Period.Persistence
import UsageBilling.Proofs.Rating.Provisioning

/-!
Contract: what a run provisions does not change what a later run meters.

Owns:
- steps that see nothing of a catalog but the services of its profiles, and leave
  these; all of metering is such a step;
- rating leaves the services of profiles as well, and so does a whole run;
- the windows and the results that a request is metered to are the same before and
  after any run.

Does not own: prices, which provisioning does change.
-/

namespace UsageBilling

namespace Catalog

variable {α β : Type}

/-! ## Steps that see the services of profiles only -/

/-- Whether a step gives the same for catalogs whose profiles have the same
services, and leaves these services. -/
structure SeesServices (step : Catalog → α × Catalog) : Prop where
  result : ∀ c c', c.serviceFor = c'.serviceFor → (step c).1 = (step c').1
  leaves : ∀ c, (step c).2.serviceFor = c.serviceFor

theorem seesServices_pure
    (value : α) :
    SeesServices fun c => (value, c) :=
  ⟨fun _ _ _ => rfl, fun _ => rfl⟩

theorem SeesServices.bind
    {step : Catalog → α × Catalog}
    {next : α → Catalog → β × Catalog}
    (sees : SeesServices step)
    (nextSees : ∀ value, SeesServices (next value)) :
    SeesServices fun c => next (step c).1 (step c).2 := by
  constructor
  · intro c c' same
    have sameAfter : (step c).2.serviceFor = (step c').2.serviceFor := by
      rw [sees.leaves, sees.leaves, same]
    show (next (step c).1 (step c).2).1 = (next (step c').1 (step c').2).1
    rw [sees.result c c' same]
    exact (nextSees _).result _ _ sameAfter
  · intro c
    exact ((nextSees _).leaves _).trans (sees.leaves c)

theorem SeesServices.map
    {step : Catalog → α × Catalog}
    (sees : SeesServices step)
    (f : α → β) :
    SeesServices fun c => (f (step c).1, (step c).2) :=
  sees.bind fun value => seesServices_pure (f value)

theorem seesServices_resolveProfile
    (profile : String) :
    SeesServices fun c => c.resolveProfile profile := by
  constructor
  · intro c c' same
    rw [(c.resolveProfile_eq profile).1, (c'.resolveProfile_eq profile).1, same]
  · intro c
    exact (c.resolveProfile_eq profile).2

end Catalog

open Catalog (SeesServices seesServices_pure)

/-! ## Metering -/

namespace Uptime

theorem seesServices_serviceOf
    (meterService : String)
    (profile : Option String) :
    SeesServices (serviceOf meterService profile) := by
  cases profile with
  | none => exact seesServices_pure meterService
  | some profile => exact Catalog.seesServices_resolveProfile profile

theorem seesServices_phases
    (meterService : String)
    (seen : Option String)
    (points : List (Instant × Sample)) :
    SeesServices (phases meterService seen points) := by
  induction points generalizing seen with
  | nil => exact seesServices_pure []
  | cons point rest inductionHypothesis =>
    obtain ⟨start, sample⟩ := point
    by_cases billable : (PowerState.ofSample sample).isBillable = true
    · have steps : phases meterService seen ((start, sample) :: rest) = fun c =>
          let profile := (sample.text? profileKeys).orElse fun _ => seen
          let resolved := serviceOf meterService profile c
          let later := phases meterService profile rest resolved.2
          (⟨start, some resolved.1⟩ :: later.1, later.2) := by
        funext c
        rw [phases, if_pos billable]
      rw [steps]
      exact (seesServices_serviceOf meterService _).bind fun service =>
        (inductionHypothesis _).map (⟨start, some service⟩ :: ·)
    · have steps : phases meterService seen ((start, sample) :: rest) = fun c =>
          let profile := (sample.text? profileKeys).orElse fun _ => seen
          let later := phases meterService profile rest c
          (⟨start, none⟩ :: later.1, later.2) := by
        funext c
        rw [phases, if_neg billable]
      rw [steps]
      exact (inductionHypothesis _).map (⟨start, none⟩ :: ·)

theorem seesServices_usage
    (meterService : String)
    (samples : WindowPart)
    (start stop : Instant) :
    SeesServices (usage meterService samples start stop) := by
  unfold usage
  split
  · exact seesServices_pure []
  · exact (seesServices_phases meterService none _).map (accrue stop none)

end Uptime

theorem Strategy.seesServices_meter
    (strategy : Strategy)
    (service : String)
    (samples : List Sample)
    (window : Window) :
    SeesServices (strategy.meter service samples window) := by
  unfold Strategy.meter
  split
  · split
    · exact seesServices_pure _
    · exact seesServices_pure _
    · exact seesServices_pure _
    · split
      · exact seesServices_pure _
      · exact seesServices_pure _
    · exact (Uptime.seesServices_usage service _ _ _).map pure
  · exact seesServices_pure _
  · exact seesServices_pure _

namespace Metering

/-- What the usage of one window becomes with that of the windows after it. -/
def withLater (binding : MeterBinding) (samples : List Sample) (rest : List Window) :
    Outcome (List UsageRecord) → Catalog → Outcome (List UsageRecord) × Catalog
  | .error failure, resolved => (.error failure, resolved)
  | .ok records, resolved =>
    let (later, final) := meterWindows binding samples rest resolved
    (later.map (records ++ ·), final)

theorem seesServices_meterWindows
    (binding : MeterBinding)
    (samples : List Sample)
    (windows : List Window) :
    SeesServices (meterWindows binding samples windows) := by
  induction windows with
  | nil => exact seesServices_pure _
  | cons window rest inductionHypothesis =>
    have laterSees : ∀ metered, SeesServices (withLater binding samples rest metered) := by
      intro metered
      cases metered with
      | error failure => exact seesServices_pure _
      | ok records => exact inductionHypothesis.map fun later => later.map (records ++ ·)
    have steps : meterWindows binding samples (window :: rest) = fun c =>
        withLater binding samples rest (binding.strategy.meter binding.service samples window c).1
          (binding.strategy.meter binding.service samples window c).2 := by
      funext c
      rw [meterWindows]
      split
      · rename_i metered
        rw [metered]
        rfl
      · rename_i metered
        rw [metered]
        rfl
    rw [steps]
    exact (binding.strategy.seesServices_meter binding.service samples window).bind laterSees

/-- Jobs are metered alike from states that differ in what was provisioned and
counted, and leave the services of profiles. -/
theorem meterJobs_congr
    (registry : MeterRegistry)
    (tenant : String)
    (windows : List Window)
    (jobs : List UsageJob)
    {state state' : MeteringState}
    (same : state.catalog.serviceFor = state'.catalog.serviceFor) :
    (meterJobs registry tenant windows jobs state).1 =
        (meterJobs registry tenant windows jobs state').1 ∧
      (meterJobs registry tenant windows jobs state).2.catalog.serviceFor =
        state.catalog.serviceFor := by
  induction jobs generalizing state state' with
  | nil => exact ⟨rfl, rfl⟩
  | cons job rest inductionHypothesis =>
    unfold meterJobs
    cases bindingOf? registry tenant job with
    | none => exact inductionHypothesis same
    | some binding =>
      have sees := seesServices_meterWindows binding (SampleStream.normalize job.samples) windows
      have sameRecords := sees.result state.catalog state'.catalog same
      have leaves := sees.leaves state.catalog
      have leaves' := sees.leaves state'.catalog
      have sameJob : (meterJob windows job binding state).1 =
          (meterJob windows job binding state').1 := by
        show Except.map _ (meterWindows binding _ windows state.catalog).1 = Except.map _ _
        rw [sameRecords]
      have sameAfter : (meterJob windows job binding state).2.catalog.serviceFor =
          (meterJob windows job binding state').2.catalog.serviceFor :=
        leaves.trans (same.trans leaves'.symm)
      obtain ⟨sameRest, restLeaves⟩ := inductionHypothesis sameAfter
      exact ⟨congrArg₂ List.cons sameJob sameRest, restLeaves.trans leaves⟩

end Metering

/-! ## Rating -/

namespace Rating

theorem serviceFor_rateRecord
    (tariff : String)
    (usage : UsageRecord)
    (unit : RateUnit)
    (catalog : Catalog) :
    (rateRecord tariff usage unit catalog).2.serviceFor = catalog.serviceFor := by
  have unchanged := catalog.serviceFor_entryOrProvision tariff usage.service unit
  unfold rateRecord
  split
  · rename_i found
    rw [found] at unchanged
    exact unchanged
  · rename_i failed
    rw [failed] at unchanged
    exact unchanged

theorem serviceFor_rateInOrder
    (default_ : String)
    (assignments : List TariffAssignment)
    (unitOf : UsageRecord → RateUnit)
    (subtotals : List TariffSubtotal)
    (usages : List UsageRecord)
    (catalog : Catalog) :
    (rateInOrder default_ assignments unitOf subtotals usages catalog).2.serviceFor =
      catalog.serviceFor := by
  induction usages generalizing subtotals catalog with
  | nil => rfl
  | cons usage rest inductionHypothesis =>
    have unchanged : (rateAssigned default_ assignments usage (unitOf usage)
        catalog).2.serviceFor = catalog.serviceFor := by
      rw [rateAssigned_eq]
      exact serviceFor_rateRecord _ usage (unitOf usage) catalog
    unfold rateInOrder
    split
    · rename_i failed
      rw [failed] at unchanged
      exact unchanged
    · rename_i rated
      rw [rated] at unchanged
      split
      · exact unchanged
      · exact (inductionHypothesis _ _).trans unchanged

theorem serviceFor_invoice
    (default_ tenant : String)
    (period : Instant × Instant)
    (usages : List UsageRecord)
    (assignments : List TariffAssignment)
    (unitOf : UsageRecord → RateUnit)
    (catalog : Catalog) :
    (invoice default_ tenant period usages assignments unitOf catalog).2.serviceFor =
      catalog.serviceFor := by
  have unchanged := serviceFor_rateInOrder default_ assignments unitOf [] (ordered usages) catalog
  unfold invoice
  split
  · rename_i failed
    rw [failed] at unchanged
    exact unchanged
  · rename_i rated
    rw [rated] at unchanged
    exact unchanged

end Rating

/-! ## Runs -/

namespace BillingService

variable {σ : Type}

/-- What a request is metered to depends on the settings, the registry and the
services of profiles only, and metering leaves these. -/
theorem meter_congr
    {service service' : BillingService σ}
    (sameSettings : service.settings = service'.settings)
    (sameRegistry : service.registry = service'.registry)
    (sameServices : service.catalog.serviceFor = service'.catalog.serviceFor)
    {request : PeriodRequest}
    {windows : List Window}
    {results : List (Outcome MeteredJob)}
    {metered : BillingService σ}
    (made : service.meter request = .ok (windows, results, metered)) :
    metered.catalog.serviceFor = service.catalog.serviceFor ∧
      ∃ catalog counts, service'.meter request =
        .ok (windows, results, { service' with catalog := catalog, counts := counts }) := by
  have ⟨begun, state, ofJobs, ofService⟩ := meter_eq_ok_iff.mp made
  let before : MeteringState := ⟨service.catalog, service.counts⟩
  let before' : MeteringState := ⟨service'.catalog, service'.counts⟩
  have same : before.catalog.serviceFor = before'.catalog.serviceFor := sameServices
  have ⟨sameResults, leaves⟩ :=
    Metering.meterJobs_congr service.registry request.tenant windows request.jobs same
  rw [ofJobs] at sameResults leaves
  rw [ofService]
  refine ⟨leaves, _, _, meter_eq_ok_iff.mpr ⟨?_, _, Prod.ext ?_ rfl, rfl⟩⟩
  · rw [← sameSettings]
    exact begun
  · rw [← sameRegistry]
    exact sameResults.symm

theorem catalog_reconcile
    (service : BillingService σ)
    (tenant : String)
    (metered : List MeteredJob) :
    (service.reconcile tenant metered).2.catalog = service.catalog := by
  rw [reconcile_eq]
  dsimp only
  split
  · rfl
  · rfl

theorem serviceFor_settle
    (service : BillingService σ)
    (request : PeriodRequest)
    (windows : List Window)
    (metered : List MeteredJob) :
    (service.settle request windows metered).2.catalog.serviceFor =
      service.catalog.serviceFor := by
  have unchanged := catalog_reconcile service request.tenant metered
  unfold settle
  split
  · rename_i failed
    rw [failed] at unchanged
    exact congrArg Catalog.serviceFor unchanged
  · rename_i reconciled
    rw [reconciled] at unchanged
    split
    · exact congrArg Catalog.serviceFor unchanged
    · apply (Rating.serviceFor_invoice _ _ _ _ _ _ _).trans
      exact congrArg Catalog.serviceFor unchanged

/-- A run leaves the services of profiles. -/
theorem serviceFor_afterRun
    (service : BillingService σ)
    (run : PeriodRun) :
    (service.afterRun run).catalog.serviceFor = service.catalog.serviceFor := by
  unfold afterRun runPeriodFinishing
  cases made : service.meter run.request with
  | error failure => rfl
  | ok result =>
    have ⟨windows, results, metered⟩ := result
    have sameServices : service.catalog.serviceFor = service.catalog.serviceFor := rfl
    have ⟨leaves, _⟩ := meter_congr rfl rfl sameServices made
    dsimp only
    split
    · exact leaves
    · exact (serviceFor_settle metered run.request windows _).trans leaves

end BillingService

end UsageBilling

import UsageBilling.Proofs.Period.Rerun
import UsageBilling.Proofs.Period.UptimeRuns

/-!
Contract: the time of an instance as it is metered and as it is billed.

Owns:
- the seconds that runs reach into: those they are metered for, and one more for
  each run that stops earlier within its second than it starts within its own;
- a job that is metered by uptime is billed, service by service, for the seconds that
  its runs reach into;
- an instance that is billed a second more than it is metered for.

Both ends of usage are billed by their whole seconds, while a run is metered for the
whole seconds between its ends.

Does not own: jobs that share a resource, or usage restored from a store.
-/

namespace UsageBilling

open Coverage (Ordered points totalLength mem_points_iff)
open Reconciler (segmentOf Shows)
open Uptime (RunsIn)

/-! ## The seconds of runs -/

namespace UsageRecord

/-- The records of a service. -/
def servedBy (name : String) (records : List UsageRecord) : List UsageRecord :=
  records.filter fun record => record.service = name

/-- The seconds that each record reaches into. -/
def secondsOf (records : List UsageRecord) : List Segment :=
  records.map fun record => segmentOf record Coverage.unitWeight

variable {records : List UsageRecord}

theorem mem_points_secondsOf_iff
    (records : List UsageRecord)
    (second : Int) :
    second ∈ points (secondsOf records) ↔ ∃ record ∈ records, record.Holds second := by
  rw [mem_points_iff, secondsOf]
  constructor
  · intro ⟨weight, s, member, lower, upper, _⟩
    have ⟨record, inRecords, ofRecord⟩ := List.mem_map.mp member
    simp only [← ofRecord, segmentOf] at lower upper
    exact ⟨record, inRecords, lower, by omega⟩
  · intro reached
    obtain ⟨record, member, lower, upper⟩ := reached
    refine ⟨_, _, List.mem_map_of_mem member, lower, ?_, rfl⟩
    simp only [segmentOf]
    omega

/-- Records reach into the seconds they are metered for, and into one more each if
they straddle. -/
theorem totalLength_secondsOf
    (clocked : ∀ record ∈ records, record.Clocked) :
    (totalLength (secondsOf records) : ℚ) =
      totalVolume records + (records.countP fun record => record.Straddles : ℕ) := by
  induction records with
  | nil => simp [secondsOf, totalLength, totalVolume]
  | cons record rest inductionHypothesis =>
    simp only [List.mem_cons, forall_eq_or_imp] at clocked
    have later := inductionHypothesis clocked.2
    have length : (segmentOf record Coverage.unitWeight).length =
        record.duration + if record.Straddles then 1 else 0 := by
      rw [← clocked.1.timestamp_sub_eq]
      simp only [segmentOf, Segment.length]
      omega
    have added : totalLength (secondsOf (record :: rest)) =
        (segmentOf record Coverage.unitWeight).length + totalLength (secondsOf rest) := rfl
    have volume : totalVolume (record :: rest) = record.duration + totalVolume rest := by
      rw [← clocked.1.toRat_volume]
      exact List.sum_cons
    rw [added, length, volume, List.countP_cons, Int.cast_add, later]
    simp only [decide_eq_true_eq]
    split
    · push_cast
      ring
    · push_cast
      ring

end UsageRecord

open UsageRecord (Clocked Straddles servedBy secondsOf totalVolume totalLength_secondsOf
  mem_points_secondsOf_iff)

variable {windows : List Window} {records : List UsageRecord} {name : String}

theorem Uptime.RunsIn.servedBy
    (runs : RunsIn windows records)
    (name : String) :
    RunsIn windows (servedBy name records) := by
  have member : ∀ record ∈ UsageRecord.servedBy name records, record ∈ records :=
    fun record inServed => (List.mem_filter.mp inServed).1
  exact ⟨fun record inServed => runs.inside record (member record inServed),
    runs.ascending.sublist List.filter_sublist,
    fun record inServed => runs.clocked record (member record inServed)⟩

/-- Runs do not reach into the same second. -/
theorem Uptime.RunsIn.ordered_secondsOf
    (runs : RunsIn windows records) :
    Ordered (secondsOf records) := by
  constructor
  · intro s member
    have ⟨record, inRecords, ofRecord⟩ := List.mem_map.mp member
    rw [← ofRecord]
    exact Reconciler.inhabited_segmentOf (runs.clocked record inRecords).reaches _
  · refine List.pairwise_map.mpr (runs.ascending.imp ?_)
    intro record later before
    have := Instant.timestamp_le_of_le before
    show record.stop.timestamp - 1 < later.start.timestamp
    omega

/-- All seconds of runs lie in their windows. -/
theorem Uptime.RunsIn.card_seconds
    (runs : RunsIn windows records)
    {used : Int → Prop}
    [DecidablePred used]
    (ofRuns : ∀ second, used second ↔ ∃ record ∈ records, record.Holds second) :
    ((windows.toFinset.biUnion Window.seconds).filter used).card =
      totalLength (secondsOf records) := by
  rw [runs.ordered_secondsOf.totalLength_eq_card]
  congr 2
  ext second
  rw [Finset.mem_filter, mem_points_secondsOf_iff, ← ofRuns, and_iff_right_iff_imp]
  intro isUsed
  have ⟨record, member, lower, upper⟩ := (ofRuns second).mp isUsed
  have ⟨w, inWindows, opens, closes⟩ := runs.inside record member
  apply Finset.mem_biUnion.mpr
  refine ⟨w, List.mem_toFinset.mpr inWindows, ?_⟩
  rw [Window.seconds, Finset.mem_Ico]
  omega

/-! ## The bill of an instance -/

/-- Usage that is delivered for a resource. -/
def deliveredFor (tenant resource : String) (resourceName : Option String)
    (records : List UsageRecord) : List Delivery :=
  records.map fun record => ⟨tenant, record.withResource resource resourceName⟩

theorem used_deliveredFor_iff
    (tenant resource : String)
    (resourceName : Option String)
    (records : List UsageRecord)
    (name : String)
    (second : Int) :
    Delivery.Used (deliveredFor tenant resource resourceName records) ⟨tenant, resource, name⟩
        second ↔
      ∃ record ∈ servedBy name records, record.Holds second := by
  constructor
  · intro ⟨d, delivered, sameKey, lower, upper⟩
    have ⟨record, member, made⟩ := List.mem_map.mp delivered
    rw [← made] at sameKey lower upper
    have sameName : name = record.service := (UsageKey.mk.inj sameKey).2.2
    exact ⟨record, List.mem_filter.mpr ⟨member, decide_eq_true sameName.symm⟩, lower, upper⟩
  · intro ⟨record, served, lower, upper⟩
    have ⟨member, isNamed⟩ := List.mem_filter.mp served
    have sameName : record.service = name := of_decide_eq_true isNamed
    exact ⟨_, List.mem_map_of_mem member, by rw [← sameName]; rfl, lower, upper⟩

/-- What a reconciler shows of runs that were delivered for one resource: for each
service the seconds that its runs reach into. -/
theorem totalVolume_readBack_of_runs
    {tenant resource : String}
    {resourceName : Option String}
    {r : Reconciler}
    (runs : RunsIn windows records)
    (shows : r.Shows .time (deliveredFor tenant resource resourceName records))
    (whole : ∀ w ∈ windows, w.Whole)
    (apart : windows.Pairwise fun w later => w.start.timestamp + w.width ≤ later.start.timestamp)
    {usages : List UsageRecord}
    (read : BillingService.readBack tenant windows r = .ok usages)
    (name : String) :
    totalVolume (servedBy name usages) = totalVolume (servedBy name records) +
      ((servedBy name records).countP fun record => record.Straddles : ℕ) := by
  have ⟨collected, pairs, flattened⟩ := (BillingService.readBack_eq_ok_iff _ _ _ _).mp read
  let key : UsageKey := ⟨tenant, resource, name⟩
  have ofKey : servedBy name usages = key.among usages := by
    apply List.filter_congr
    intro usage member
    rw [flattened] at member
    have ⟨own, inCollected, inOwn⟩ := List.mem_flatten.mp member
    have ⟨w, inWindows, windowRead⟩ := exists_of_mem_forall₂ pairs inCollected
    have ⟨d, delivered, sameKey⟩ := shows.exists_delivery (whole w inWindows) windowRead inOwn
    have ⟨record, _, made⟩ := List.mem_map.mp delivered
    rw [← made] at sameKey
    have sameResource : (UsageKey.ofRecord tenant usage).resource = resource :=
      congrArg UsageKey.resource sameKey
    apply decide_eq_decide.mpr
    constructor
    · intro sameName
      show (⟨tenant, (UsageKey.ofRecord tenant usage).resource, usage.service⟩ : UsageKey) = key
      rw [sameResource, sameName]
    · intro isKey
      exact congrArg UsageKey.service isKey
  have served := runs.servedBy name
  have billed : totalVolume (key.among collected.flatten) = _ :=
    shows.totalVolume_windows whole pairs
  rw [Window.sum_card_filter_seconds apart] at billed
  have seconds := served.card_seconds
    (used_deliveredFor_iff tenant resource resourceName records name)
  rw [ofKey, flattened, billed, ← totalLength_secondsOf served.clocked, ← seconds]
  rfl

namespace BillingService

variable {σ : Type} {service : BillingService σ} {request : PeriodRequest} {job : UsageJob}
  {meterService : String}

/-- A period with one job, which is billed by time, is made of its parts. -/
theorem exists_rates_of_single
    {strategy : Strategy}
    (withoutStore : service.store = none)
    (small : service.settings.metering.deviation ≤ 1)
    (single : request.jobs = [job])
    (bound : Metering.bindingOf? service.registry request.tenant job =
      some ⟨strategy, meterService, .time⟩)
    (made : Metering.windows service.settings.metering.windowWidth request.periodStart
      request.periodStop = .ok windows)
    (metered : (Metering.meterWindows ⟨strategy, meterService, .time⟩
      (SampleStream.normalize job.samples) windows service.catalog).1 = .ok records) :
    ∃ results metering jobs r usages,
      service.Rates ⟨request, id⟩ windows results metering jobs r usages ∧
        r.Shows .time (deliveredFor request.tenant job.resource job.resourceName records) := by
  let owned := records.map fun record => record.withResource job.resource job.resourceName
  have meteredJob : ∀ state : MeteringState, state.catalog = service.catalog →
      (Metering.meterJob windows job ⟨strategy, meterService, .time⟩ state).1 =
        .ok ⟨.time, owned⟩ := by
    intro state sameCatalog
    exact Metering.meterJob_eq_ok_iff.mpr ⟨records, by rw [sameCatalog, metered], rfl⟩
  obtain ⟨metering, ofService, sameStore, sameSettings⟩ : ∃ metering : BillingService σ,
      service.meter request = .ok (windows, [.ok ⟨.time, owned⟩], metering) ∧
        metering.store = none ∧ metering.settings = service.settings := by
    unfold meter
    rw [made, single]
    simp only [bind, Except.bind, Metering.meterJobs, bound]
    rw [meteredJob _ rfl]
    exact ⟨_, rfl, withoutStore, rfl⟩
  have entries : recordsWithUnits [⟨.time, owned⟩] = owned.map fun record => (record, .time) := by
    rw [recordsWithUnits, List.flatMap_singleton]
  obtain ⟨r, recorded⟩ := Reconciler.exists_recordEach_time
    (owned.map fun record => ⟨request.tenant, record⟩)
    (Reconciler.empty service.settings.metering.deviation)
  have shows := (Reconciler.shows_empty small .time).recordEach recorded
  have ofRecords : (owned.map fun record => (⟨request.tenant, record⟩ : Delivery)) =
      deliveredFor request.tenant job.resource job.resourceName records :=
    List.map_map
  rw [List.nil_append, ofRecords] at shows
  have reconciled : (metering.reconcile request.tenant [⟨.time, owned⟩]).1 = .ok r := by
    have fresh : ∀ keys, (metering.restored keys).1 =
        Reconciler.empty service.settings.metering.deviation := by
      intro keys
      rw [restored, sameStore, sameSettings]
    rw [reconcile_eq]
    dsimp only
    rw [entries, fresh, recordAll_eq_recordEach, recorded]
  have covers := Metering.covers_of_windows made
  obtain ⟨collected, read⟩ : ∃ collected,
      windows.mapM (r.usageIn request.tenant) = .ok collected := by
    apply exists_mapM_eq_ok
    intro w member
    obtain ⟨whole, _, _, stop, stops⟩ := covers.whole.of_mem_successive covers.run w member
    exact shows.exists_usageIn whole stops request.tenant
  refine ⟨_, metering, [⟨.time, owned⟩], r, collected.flatten,
    ⟨ofService, rfl, reconciled, ?_⟩, shows⟩
  exact (readBack_eq_ok_iff _ _ _ _).mpr ⟨collected, (mapM_eq_ok_iff _ _ _).mp read, rfl⟩

/-- An instance is billed for each service what it is metered for, and one second more
for each run that stops earlier within its second than it starts within its own. So it
is billed what it is metered for exactly if there is no such run. -/
theorem totalVolume_ratedUsage_of_uptime
    (service : BillingService σ)
    (withoutStore : service.store = none)
    (small : service.settings.metering.deviation ≤ 1)
    (request : PeriodRequest)
    (single : request.jobs = [job])
    (bound : Metering.bindingOf? service.registry request.tenant job =
      some ⟨.uptime, meterService, .time⟩)
    (plain : ∀ s ∈ job.samples, s.timestamp.isLeap = false)
    (made : Metering.windows service.settings.metering.windowWidth request.periodStart
      request.periodStop = .ok windows) :
    ∃ records usages,
      (Metering.meterWindows ⟨.uptime, meterService, .time⟩ (SampleStream.normalize job.samples)
        windows service.catalog).1 = .ok records ∧
      service.ratedUsage ⟨request, id⟩ = .ok usages ∧
      ∀ name, totalVolume (servedBy name usages) = totalVolume (servedBy name records) +
          ((servedBy name records).countP fun record => record.Straddles : ℕ) ∧
        (totalVolume (servedBy name usages) = totalVolume (servedBy name records) ↔
          ∀ record ∈ servedBy name records, ¬ record.Straddles) := by
  have covers := Metering.covers_of_windows made
  have whole : ∀ w ∈ windows, w.Whole := fun w member =>
    (covers.whole.of_mem_successive covers.run w member).1
  have stops : ∀ w ∈ windows, ∃ t, w.stop = .ok t := fun w member =>
    (covers.whole.of_mem_successive covers.run w member).2.2.2
  have apart := covers.whole.pairwise_successive covers.run
  have normalPlain : ∀ s ∈ SampleStream.normalize job.samples, s.timestamp.isLeap = false := by
    intro s member
    exact plain s (SampleStream.mem_of_mem_normalize member)
  have ⟨records, metered, runs⟩ := Uptime.exists_meterWindows_uptime whole stops apart
    normalPlain meterService .time service.catalog
  have ⟨_, _, _, r, usages, rates, shows⟩ :=
    exists_rates_of_single withoutStore small single bound made metered
  refine ⟨records, usages, metered, rates.ratedUsage_eq, ?_⟩
  intro name
  have billed := totalVolume_readBack_of_runs runs shows whole apart rates.readBack name
  refine ⟨billed, ?_⟩
  rw [billed, add_eq_left, Nat.cast_eq_zero, List.countP_eq_zero]
  simp only [decide_eq_true_eq]

theorem halfSecond_lt : 500000000 < 2000000000 := by
  decide

/-- The middle of a second. -/
def halfPast (second : Fin 86400) : Instant :=
  { Instant.ofSecond second with nanos := 500000000, nanos_lt := halfSecond_lt }

/-- An instance that is seen active in the middle of a second, and not again. -/
def lateJob (second : Fin 86400) : UsageJob :=
  ⟨none, "vm-1", none, "instance",
    [⟨halfPast second, none, .object [("status", .text "active")]⟩]⟩

/-- What the instance is metered for until the period closes. -/
def lateRecord (second closing : Fin 86400) : UsageRecord :=
  .ofService "instance" (halfPast second) (.ofSecond closing)
    (.ofInt (closing.val - 1 - second.val))

set_option maxRecDepth 20000 in
private theorem meterWindows_lateJob :
    (Metering.meterWindows ⟨.uptime, "instance", .time⟩
      (SampleStream.normalize (lateJob 600).samples) [⟨.ofSecond 0, 3600⟩]
      volumeService.catalog).1 = .ok [lateRecord 600 3600] := by
  cbv

set_option maxRecDepth 20000 in
private theorem ratedUsage_lateJob :
    volumeService.ratedUsage ⟨volumeRequest 3600 [lateJob 600], id⟩ =
      .ok [⟨"instance", .ofSecond 600, .ofSecond 3600, .ofInt 3000, some "vm-1", none⟩] := by
  cbv

private theorem plain_lateJob :
    ∀ s ∈ (lateJob 600).samples, s.timestamp.isLeap = false := by
  decide

/-- The instance is billed from the beginning of the second in which it is seen. -/
theorem totalVolume_ratedUsage_lateJob :
    ∃ records usages,
      (∀ s ∈ (lateJob 600).samples, s.timestamp.isLeap = false) ∧
      (Metering.meterWindows ⟨.uptime, "instance", .time⟩
        (SampleStream.normalize (lateJob 600).samples) [⟨.ofSecond 0, 3600⟩]
        volumeService.catalog).1 = .ok records ∧
      volumeService.ratedUsage ⟨volumeRequest 3600 [lateJob 600], id⟩ = .ok usages ∧
      totalVolume (servedBy "instance" usages) = totalVolume (servedBy "instance" records) + 1 := by
  have ⟨records, usages, metered, rated, billed⟩ := totalVolume_ratedUsage_of_uptime
    volumeService rfl (by decide) (volumeRequest 3600 [lateJob 600]) rfl rfl plain_lateJob rfl
  refine ⟨records, usages, plain_lateJob, metered, rated, ?_⟩
  rw [(billed "instance").1, Except.ok.inj (metered.symm.trans meterWindows_lateJob)]
  have one :
      (servedBy "instance" [lateRecord 600 3600]).countP (fun record => record.Straddles) = 1 := by
    decide
  rw [one, Nat.cast_one]

/-- The instance is metered for 2999 seconds and billed for 3000. -/
theorem not_forall_billed_as_metered :
    ¬ ∀ (service : BillingService Unit) (request : PeriodRequest) (job : UsageJob)
        (meterService : String) (windows : List Window) (records usages : List UsageRecord),
      service.store = none → service.settings.metering.deviation ≤ 1 → request.jobs = [job] →
      Metering.bindingOf? service.registry request.tenant job =
        some ⟨.uptime, meterService, .time⟩ →
      (∀ s ∈ job.samples, s.timestamp.isLeap = false) →
      Metering.windows service.settings.metering.windowWidth request.periodStart
        request.periodStop = .ok windows →
      (Metering.meterWindows ⟨.uptime, meterService, .time⟩ (SampleStream.normalize job.samples)
        windows service.catalog).1 = .ok records →
      service.ratedUsage ⟨request, id⟩ = .ok usages →
      ∀ name, totalVolume (servedBy name usages) = totalVolume (servedBy name records) := by
  intro claimed
  have same := claimed volumeService (volumeRequest 3600 [lateJob 600]) (lateJob 600) "instance"
    [⟨.ofSecond 0, 3600⟩] _ _ rfl (by decide) rfl rfl plain_lateJob rfl meterWindows_lateJob
    ratedUsage_lateJob "instance"
  have metered : totalVolume (servedBy "instance" [lateRecord 600 3600]) = 2999 := by
    show (Decimal.ofInt 2999).toRat + 0 = 2999
    rw [Decimal.toRat_ofInt (by decide)]
    norm_num
  have billed : totalVolume (servedBy "instance" [(⟨"instance", .ofSecond 600, .ofSecond 3600,
      .ofInt 3000, some "vm-1", none⟩ : UsageRecord)]) = 3000 := by
    show (Decimal.ofInt 3000).toRat + 0 = 3000
    rw [Decimal.toRat_ofInt (by decide)]
    norm_num
  rw [metered, billed] at same
  exact absurd same (by decide)

end BillingService

end UsageBilling

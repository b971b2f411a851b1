import UsageBilling.Proofs.Period.Rerun
import UsageBilling.Proofs.Reconciler.WindowQuantities

/-!
Contract: the lines of a key that is fed by quantities.

Owns:
- the bindings that feed a key, and the usage that a run emits for it;
- a run without a store that ends with an invoice: a key that is fed by quantities, and
  by no uptime, has one line for each window with usage, for the window as a whole and
  with the quantity that was emitted last.

Does not own: the order in which jobs finish, or keys that some job feeds by time.
-/

namespace UsageBilling.BillingService

open Reconciler (ForWindows ShowsLast entriesOf recordsOf)

variable {σ : Type} {service metering : BillingService σ} {request : PeriodRequest}
  {run : PeriodRun} {key : UsageKey} {windows : List Window}
  {results : List (Outcome MeteredJob)} {jobs : List MeteredJob} {job : MeteredJob}
  {r : Reconciler} {usages : List UsageRecord}

/-- Whether a binding feeds a key: a job that is metered by it has usage of the key. -/
def Feeds (service : BillingService σ) (request : PeriodRequest) (key : UsageKey)
    (binding : MeterBinding) : Prop :=
  ∃ windows results metering job,
    service.meter request = .ok (windows, results, metering) ∧
      (binding, .ok job) ∈
        (Metering.bindings service.registry request.tenant request.jobs).zip results ∧
      ∃ record ∈ job.records, UsageKey.ofRecord request.tenant record = key

/-- The usage of a key that a run emits, in the order in which its jobs finish. -/
def emitted (service : BillingService σ) (run : PeriodRun) (key : UsageKey) : List UsageRecord :=
  key.among ((service.recordedJobs run).flatMap MeteredJob.records)

/-! ## The jobs that feed a key -/

/-- Every metered job has a binding that it is metered by. -/
theorem exists_binding
    (made : service.meter request = .ok (windows, results, metering))
    (member : .ok job ∈ results) :
    ∃ binding, (binding, .ok job) ∈
        (Metering.bindings service.registry request.tenant request.jobs).zip results ∧
      ∃ requested before, (Metering.meterJob windows requested binding before).1 = .ok job := by
  have ⟨_, state, ofJobs, _⟩ := meter_eq_ok_iff.mp made
  have each := Metering.forall₂_meterJobs service.registry request.tenant windows request.jobs
    ⟨service.catalog, service.counts⟩
  rw [ofJobs] at each
  have ⟨sameLength, ofPair⟩ := List.forall₂_iff_zip.mp each
  have paired : List.Forall₂ (fun binding result => (binding, result) ∈
      (Metering.bindings service.registry request.tenant request.jobs).zip results)
      (Metering.bindings service.registry request.tenant request.jobs) results :=
    List.forall₂_iff_zip.mpr ⟨sameLength, fun inZip => inZip⟩
  have ⟨binding, _, inZip⟩ := exists_of_mem_forall₂ paired member
  have ⟨requested, _, before, ofJob⟩ := ofPair inZip
  exact ⟨binding, inZip, requested, before, ofJob⟩

/-- Usage of a key that is fed by quantities only is a quantity for a window. -/
theorem quantity_and_fills_of_feeds
    (made : service.meter request = .ok (windows, results, metering))
    (fed : ∀ binding, service.Feeds request key binding →
      binding.unit = .quantity ∧ binding.strategy ≠ .uptime)
    (member : .ok job ∈ results)
    {record : UsageRecord}
    (inJob : record ∈ job.records)
    (ofKey : UsageKey.ofRecord request.tenant record = key) :
    job.unit = .quantity ∧ ∃ w ∈ windows, record.Fills w := by
  have ⟨binding, inZip, requested, before, ofJob⟩ := exists_binding made member
  have ⟨quantity, notUptime⟩ :=
    fed binding ⟨windows, results, metering, job, made, inZip, record, inJob, ofKey⟩
  have ⟨_, _, metered⟩ := Metering.meterJob_eq_ok_iff.mp ofJob
  refine ⟨?_, Metering.fills_of_meterJob notUptime ofJob record inJob⟩
  rw [metered]
  exact quantity

/-! ## The usage of a key -/

/-- Without a store, a run records over nothing. -/
theorem Rates.eq_takeAll
    (rates : service.Rates run windows results metering jobs r usages)
    (withoutStore : service.store = none) :
    r = (Reconciler.empty service.settings.metering.deviation).takeAll run.request.tenant
      (recordsWithUnits jobs) := by
  have ⟨_, _, ofService⟩ := exists_meter_eq rates.metered
  have reconciled := rates.reconciled
  rw [reconcile_eq_recorded metering (recordable_of_reconcile rates.reconciled), recorded,
    restored, ofService, withoutStore] at reconciled
  exact (Except.ok.inj reconciled).symm

theorem emitted_eq_recordsOf
    (rates : service.Rates run windows results metering jobs r usages)
    (ofTenant : key.tenant = run.request.tenant) :
    service.emitted run key = recordsOf run.request.tenant key (recordsWithUnits jobs) := by
  have sameRecords : (recordsWithUnits jobs).map Prod.fst = jobs.flatMap MeteredJob.records := by
    rw [recordsWithUnits, List.map_flatMap]
    congr 1
    funext job
    rw [List.map_map]
    exact List.map_id _
  rw [emitted, recordedJobs_of_rates rates, ← sameRecords, UsageKey.among, List.filter_map,
    recordsOf, entriesOf, ofTenant]
  congr 1
  apply List.filter_congr
  intro u _
  exact decide_eq_decide.mpr eq_comm

theorem forWindows_of_feeds
    (rates : service.Rates run windows results metering jobs r usages)
    (permutes : ∀ results, (run.finish results).Perm results)
    (fed : ∀ binding, service.Feeds run.request key binding →
      binding.unit = .quantity ∧ binding.strategy ≠ .uptime) :
    ForWindows run.request.periodStart.timestamp service.settings.metering.windowWidth windows
        run.request.tenant key (recordsWithUnits jobs) ∧
      ∀ u ∈ entriesOf run.request.tenant key (recordsWithUnits jobs), u.2 = .quantity := by
  have ⟨begun, _⟩ := meter_eq_ok_iff.mp rates.metered
  have covers := Metering.covers_of_windows begun
  have ofKey : ∀ u ∈ entriesOf run.request.tenant key (recordsWithUnits jobs),
      u.2 = .quantity ∧ ∃ w ∈ windows, u.1.Fills w := by
    intro u member
    have ⟨inEntries, sameKey⟩ := List.mem_filter.mp member
    have ⟨job, inJobs, inRecords⟩ := List.mem_flatMap.mp inEntries
    have ⟨record, inJob, ofRecord⟩ := List.mem_map.mp inRecords
    have recordKey := (of_decide_eq_true sameKey).symm
    rw [← ofRecord] at recordKey ⊢
    exact quantity_and_fills_of_feeds rates.metered fed (rates.mem_results permutes inJobs) inJob
      recordKey
  refine ⟨⟨?_, recordable_of_reconcile rates.reconciled, fun u member => (ofKey u member).2⟩,
    fun u member => (ofKey u member).1⟩
  intro w inWindows
  have ⟨whole, sameWidth, _⟩ := covers.whole.of_mem_successive covers.run w inWindows
  exact ⟨whole, sameWidth, covers.whole.dvd_of_mem_successive covers.run w inWindows⟩

/-- A key that is fed by quantities, and by no uptime, has one line for each window of
the period with usage of the key, and no others. The line lasts for the window as a
whole and has the quantity that was emitted last for it. -/
theorem showsLast_of_feeds
    (service : BillingService σ)
    (withoutStore : service.store = none)
    (narrow : service.settings.metering.deviation ≤ service.settings.metering.windowWidth)
    (run : PeriodRun)
    (permutes : ∀ results, (run.finish results).Perm results)
    (key : UsageKey)
    (ofTenant : key.tenant = run.request.tenant)
    (fed : ∀ binding, service.Feeds run.request key binding →
      binding.unit = .quantity ∧ binding.strategy ≠ .uptime)
    {invoice : Invoice}
    (billed : (service.runPeriodFinishing run.finish run.request).1 = .ok invoice) :
    ∃ windows, Metering.windows service.settings.metering.windowWidth run.request.periodStart
        run.request.periodStop = .ok windows ∧
      (∀ record ∈ service.emitted run key, ∃ w ∈ windows, record.Fills w) ∧
      (∀ line ∈ key.among invoice.usages, ∃ w ∈ windows, line.Fills w) ∧
      ∀ w ∈ windows, ShowsLast w (service.emitted run key)
        (w.starting (key.among invoice.usages)) := by
  have ⟨windows, results, metering, jobs, r, usages, rates⟩ := exists_rates_of_invoice billed
  have ⟨begun, _⟩ := meter_eq_ok_iff.mp rates.metered
  have covers := Metering.covers_of_windows begun
  have ⟨forWindows, quantities⟩ := forWindows_of_feeds rates permutes fed
  have ⟨collected, pairs, flattened⟩ := (readBack_eq_ok_iff _ _ _ _).mp rates.readBack
  have apart : windows.Pairwise fun w later => w.start ≠ later.start := by
    refine (covers.whole.pairwise_successive covers.run).imp_of_mem fun {w later} inWindows _ => ?_
    intro before sameStart
    have positive := (forWindows.onGrid w inWindows).whole.width
    rw [sameStart] at before
    omega
  rw [rates.eq_takeAll withoutStore, ← ofTenant] at pairs
  rw [← ofTenant] at forWindows quantities
  have ⟨linesFill, shows⟩ :=
    forWindows.showsLast_of_windows quantities narrow apart pairs
  have sameUsage : (key.among invoice.usages).Perm (key.among usages) :=
    (usages_of_billed rates billed).filter _
  rw [emitted_eq_recordsOf rates ofTenant, ← ofTenant]
  rw [← flattened] at linesFill shows
  refine ⟨windows, begun, ?_, ?_, ?_⟩
  · intro record member
    have ⟨u, inEntries, ofRecord⟩ := List.mem_map.mp member
    rw [← ofRecord]
    exact forWindows.fills u inEntries
  · intro line member
    exact linesFill line (sameUsage.mem_iff.mp member)
  · intro w inWindows
    exact (shows w inWindows).of_perm (sameUsage.filter _)

def volumeKey : UsageKey :=
  ⟨"acme", "vol-1", "volume.size"⟩

private theorem bindings_resizedRun :
    Metering.bindings volumeService.registry "acme" (resizedRun 600 1200 3600).request.jobs =
      [⟨.gaugeMax, "volume.size", .quantity⟩, ⟨.gaugeMax, "volume.size", .quantity⟩] := by
  cbv

set_option maxRecDepth 20000 in
private theorem emitted_resizedRun :
    volumeService.emitted (resizedRun 600 1200 3600) volumeKey =
      [(Reconciler.quantityDelivery 20 0 3600).usage,
        (Reconciler.quantityDelivery 30 0 3600).usage] := by
  cbv

set_option maxRecDepth 20000 in
private theorem isSome_resizedRun :
    (volumeService.runPeriodFinishing id
      (resizedRun 600 1200 3600).request).1.toOption.isSome = true := by
  cbv

/-- Two sizes of a volume in one window make one line, with the size of the job that
finished last. -/
theorem showsLast_resizedRun :
    ∃ invoice,
      (volumeService.runPeriodFinishing id (resizedRun 600 1200 3600).request).1 = .ok invoice ∧
      ∃ line, Window.starting ⟨.ofSecond 0, 3600⟩ (volumeKey.among invoice.usages) = [line] ∧
        line.Fills ⟨.ofSecond 0, 3600⟩ ∧ line.volume.toRat = (Decimal.ofInt 30).toRat := by
  have fed : ∀ binding,
      volumeService.Feeds (resizedRun 600 1200 3600).request volumeKey binding →
        binding.unit = .quantity ∧ binding.strategy ≠ .uptime := by
    intro binding ⟨_, _, _, _, _, inZip, _⟩
    have member := (List.of_mem_zip inZip).1
    have known : binding = ⟨.gaugeMax, "volume.size", .quantity⟩ := by
      have inBindings := bindings_resizedRun ▸ member
      simpa using inBindings
    rw [known]
    exact ⟨rfl, by decide⟩
  cases billed :
      (volumeService.runPeriodFinishing id (resizedRun 600 1200 3600).request).1 with
  | error failure =>
    have invoiced := isSome_resizedRun
    rw [billed] at invoiced
    cases invoiced
  | ok invoice =>
    have ⟨windows, begun, _, _, shows⟩ := showsLast_of_feeds volumeService rfl (by decide)
      (resizedRun 600 1200 3600) (fun results => List.Perm.refl results) volumeKey rfl fed billed
    have made : Metering.windows 3600 (.ofSecond 0) (.ofSecond 3600) =
        .ok [⟨.ofSecond 0, 3600⟩] := by
      rfl
    have inWindows : ⟨.ofSecond 0, 3600⟩ ∈ windows := by
      rw [← Except.ok.inj (made.symm.trans begun)]
      exact List.mem_singleton_self _
    have used := (shows _ inWindows).used
    rw [emitted_resizedRun] at used
    exact ⟨invoice, rfl, used _ rfl⟩

end UsageBilling.BillingService

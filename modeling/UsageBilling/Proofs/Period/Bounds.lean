import UsageBilling.Proofs.Rating.Lines
import UsageBilling.Proofs.Period.Reconciling
import UsageBilling.Proofs.Period.Windows
import UsageBilling.Proofs.Reconciler.Windows

/-!
Contract: where the usage on an invoice lies.

Owns:
- every record on an invoice lies in a window of the period;
- a service and a job that bill every window;
- the periods that are billed within their bounds: those that end where a window
  ends.

Does not own: the volume of the records.
-/

namespace UsageBilling.BillingService

open Metering

variable {σ : Type} {service after : BillingService σ} {request : PeriodRequest}
  {invoice : Invoice} {windows : List Window} {width : Int} {opening closing : Instant}
  {tenant : String}

/-! ## Usage lies in windows -/

/-- An invoice is made from what a sound reconciler shows in the windows of the
period. -/
theorem exists_readBack_of_runPeriod
    (ran : service.runPeriod request = (.ok invoice, after)) :
    ∃ windows r usages,
      Metering.windows service.settings.metering.windowWidth request.periodStart
          request.periodStop = .ok windows ∧
        r.Sound ∧ readBack request.tenant windows r = .ok usages ∧
        invoice.usages.Perm usages := by
  unfold runPeriod at ran
  split at ran
  · cases (Prod.mk.inj ran).1
  · rename_i windows made
    simp only at ran
    split at ran
    · cases (Prod.mk.inj ran).1
    · rename_i jobs _
      unfold settle at ran
      split at ran
      · cases (Prod.mk.inj ran).1
      · rename_i r _ reconciled
        split at ran
        · cases (Prod.mk.inj ran).1
        · rename_i usages read
          have sound := sound_reconcile (congrArg Prod.fst reconciled)
          refine ⟨windows, r, usages, made, sound, read, ?_⟩
          unfold rateUsage at ran
          exact Rating.usages_invoice (Prod.ext (Prod.mk.inj ran).1 rfl)

theorem exists_window_of_mem_readBack
    {r : Reconciler}
    (sound : r.Sound)
    (whole : ∀ w ∈ windows, w.Whole)
    {usages : List UsageRecord}
    (read : readBack tenant windows r = .ok usages)
    {usage : UsageRecord}
    (member : usage ∈ usages) :
    ∃ w ∈ windows, ∃ t, w.stop = .ok t ∧
      w.start ≤ usage.start ∧ usage.start < usage.stop ∧ usage.stop ≤ t := by
  obtain ⟨collected, windowsRead, rfl⟩ := (readBack_eq_ok_iff _ _ _ _).mp read
  obtain ⟨windowUsages, inCollected, inWindow⟩ := List.mem_flatten.mp member
  obtain ⟨w, inWindows, windowRead⟩ := exists_of_mem_forall₂ windowsRead inCollected
  obtain ⟨t, stops⟩ := Reconciler.exists_stop_of_usageIn windowRead
  exact ⟨w, inWindows, t, stops,
    sound.bounds_of_mem_usageIn (whole w inWindows) stops windowRead inWindow⟩

/-- Whatever was restored and metered, billed usage begins in the period and
stops with one of its windows. -/
theorem bounds_of_runPeriod
    (ran : service.runPeriod request = (.ok invoice, after))
    (made : Metering.windows service.settings.metering.windowWidth request.periodStart
      request.periodStop = .ok windows)
    {usage : UsageRecord}
    (billed : usage ∈ invoice.usages) :
    request.periodStart ≤ usage.start ∧ usage.start < usage.stop ∧
      ∃ w ∈ windows, ∃ t, w.stop = .ok t ∧ usage.stop ≤ t := by
  obtain ⟨_, r, usages, sameWindows, sound, read, sameUsage⟩ := exists_readBack_of_runPeriod ran
  cases Except.ok.inj (made.symm.trans sameWindows)
  have covers := covers_of_windows made
  have whole : ∀ w ∈ windows, w.Whole := fun w member =>
    (covers.whole.of_mem_successive covers.run w member).1
  obtain ⟨w, member, t, stops, lower, filled, upper⟩ :=
    exists_window_of_mem_readBack sound whole read (sameUsage.mem_iff.mp billed)
  refine ⟨?_, filled, w, member, t, stops, upper⟩
  have later := (covers.whole.of_mem_successive covers.run w member).2.2.1
  have startsLater := Instant.timestamp_le_of_le lower
  rw [Instant.le_iff_of_whole covers.whole.start]
  exact Int.le_trans later startsLater

/-! ## A run that bills every window -/

/-- A registry with one meter, which bills the time of each window. -/
def leaseRegistry : MeterRegistry :=
  MeterRegistry.empty.withMeter "lease" .gaugeMax "lease" .time

/-- A catalog that gives that meter's service away. -/
def leaseCatalog : Catalog :=
  Catalog.empty.insertTariff
    ⟨"default", Table.empty.insert "lease" (TariffEntry.provisional "lease" .time)⟩

/-- A service for leases with windows of a width and without a store. -/
def leaseService (width : Int) : BillingService Unit :=
  start ⟨⟨width, 0, "default"⟩, Settings.standard.storage⟩ leaseRegistry leaseCatalog none ()

/-- A lease over a period. The meter needs no samples. -/
def leaseRequest (opening closing : Instant) : PeriodRequest :=
  ⟨"acme", opening, closing, [⟨none, "unit-1", none, "lease", []⟩], []⟩

def leaseRecord (opening closing : Instant) : UsageRecord :=
  ⟨"lease", opening, closing, Decimal.zero, some "unit-1", none⟩

theorem exists_meterWindows_lease
    (stops : ∀ w ∈ windows, ∃ t, w.stop = .ok t)
    (catalog : Catalog) :
    ∃ records, meterWindows ⟨.gaugeMax, "lease", .time⟩ [] windows catalog =
        (.ok records, catalog) ∧
      List.Forall₂ (fun w record => ∃ t, w.stop = .ok t ∧
        record.withResource "unit-1" none = leaseRecord w.start t) windows records := by
  induction windows with
  | nil => exact ⟨[], rfl, List.Forall₂.nil⟩
  | cons w rest inductionHypothesis =>
    simp only [List.mem_cons, forall_eq_or_imp] at stops
    obtain ⟨⟨t, stopsAt⟩, restStops⟩ := stops
    obtain ⟨records, metered, ofWindows⟩ := inductionHypothesis restStops
    refine ⟨UsageRecord.ofService "lease" w.start t Decimal.zero :: records, ?_,
      List.Forall₂.cons ⟨t, stopsAt, rfl⟩ ofWindows⟩
    have bounds : w.bounds = .ok (w.start, t) :=
      Window.bounds_eq_ok_iff.mpr ⟨rfl, stopsAt⟩
    have one : Strategy.gaugeMax.meter "lease" [] w catalog =
        (.ok [UsageRecord.ofService "lease" w.start t Decimal.zero], catalog) := by
      simp only [Strategy.meter, SampleStream.split, bounds, bind, Except.bind, pure, Except.pure,
        List.filter_nil, SampleStream.ordered, List.mergeSort_nil]
      rfl
    rw [meterWindows, one]
    simp only [metered]
    rfl

theorem exists_meterJobs_lease
    (opening closing : Instant)
    (stops : ∀ w ∈ windows, ∃ t, w.stop = .ok t)
    (state : MeteringState) :
    ∃ records counts,
      meterJobs leaseRegistry "acme" windows (leaseRequest opening closing).jobs state =
          ([.ok ⟨.time, records⟩], ⟨state.catalog, counts⟩) ∧
        List.Forall₂ (fun w record => ∃ t, w.stop = .ok t ∧ record = leaseRecord w.start t)
          windows records := by
  obtain ⟨records, metered, ofWindows⟩ := exists_meterWindows_lease stops state.catalog
  have bound : bindingOf? leaseRegistry "acme" ⟨none, "unit-1", none, "lease", []⟩ =
      some ⟨.gaugeMax, "lease", .time⟩ := rfl
  have noSamples : SampleStream.normalize [] = [] := by
    rw [SampleStream.normalize, SampleStream.ordered, List.mergeSort_nil]
    rfl
  refine ⟨records.map fun record => record.withResource "unit-1" none,
    (SampleStream.normalizeCounted [] state.counts).2, ?_, ?_⟩
  · simp only [leaseRequest, meterJobs, bound, meterJob, SampleStream.normalizeCounted, noSamples,
      metered]
    rfl
  · rw [List.forall₂_map_right_iff]
    exact ofWindows

/-- The leases of windows can be recorded and read back, and what is read back
reaches the end of each window. -/
theorem exists_readBack_lease
    {records : List UsageRecord}
    (inRun : ∀ w ∈ windows, w.Whole ∧ ∃ t, w.stop = .ok t)
    (ofWindows : List.Forall₂ (fun w record => ∃ t, w.stop = .ok t ∧ record = leaseRecord w.start t)
      windows records) :
    ∃ r usages,
      recordAll "acme" (records.map fun record => (record, .time)) (Reconciler.empty 0) = .ok r ∧
        readBack "acme" windows r = .ok usages ∧ (∀ usage ∈ usages, usage.service = "lease") ∧
        ∀ w ∈ windows, ∀ t, w.stop = .ok t → ∃ usage ∈ usages, t ≤ usage.stop := by
  let deliveries : List Delivery := records.map fun record => ⟨"acme", record⟩
  obtain ⟨r, recorded⟩ := Reconciler.exists_recordEach_time deliveries (Reconciler.empty 0)
  have shows : r.Shows .time deliveries := by
    simpa using (Reconciler.shows_empty (Nat.zero_le 1) .time).recordEach recorded
  obtain ⟨collected, windowsRead⟩ : ∃ collected,
      windows.mapM (r.usageIn "acme") = .ok collected := by
    apply exists_mapM_eq_ok
    intro w member
    obtain ⟨whole, t, stops⟩ := inRun w member
    exact shows.exists_usageIn whole stops "acme"
  have pairs := (mapM_eq_ok_iff _ _ _).mp windowsRead
  refine ⟨r, collected.flatten, ?_, (readBack_eq_ok_iff _ _ _ _).mpr ⟨collected, pairs, rfl⟩,
    ?_, ?_⟩
  · rw [recordAll_eq_recordEach]
    exact recorded
  · intro usage member
    obtain ⟨usages, inCollected, inUsages⟩ := List.mem_flatten.mp member
    obtain ⟨w, inWindows, windowRead⟩ := exists_of_mem_forall₂ pairs inCollected
    obtain ⟨d, delivered, sameKey⟩ :=
      shows.exists_delivery (inRun w inWindows).1 windowRead inUsages
    obtain ⟨record, inRecords, rfl⟩ := List.mem_map.mp delivered
    obtain ⟨_, _, _, _, rfl⟩ := exists_of_mem_forall₂ ofWindows inRecords
    exact congrArg UsageKey.service sameKey
  · intro w member t stops
    have whole := (inRun w member).1
    obtain ⟨ends, endsWhole⟩ := whole.stop_eq_ok_iff.mp stops
    have positive := whole.width
    -- The last second of the window was recorded, so some record holds it.
    obtain ⟨record, inRecords, t', stops', rfl⟩ := exists_of_mem_forall₂ ofWindows.flip member
    cases Except.ok.inj (stops.symm.trans stops')
    obtain ⟨usages, inCollected, windowRead⟩ := exists_of_mem_forall₂ pairs.flip member
    have lastSecond : t.timestamp - 1 ∈ w.seconds := by
      rw [Window.seconds, Finset.mem_Ico]
      omega
    have used : Delivery.Used deliveries (UsageKey.ofRecord "acme" (leaseRecord w.start t))
        (t.timestamp - 1) := by
      refine ⟨⟨"acme", leaseRecord w.start t⟩, List.mem_map_of_mem inRecords, rfl, ?_, ?_⟩
      · show w.start.timestamp ≤ t.timestamp - 1
        omega
      · show t.timestamp - 1 < t.timestamp
        omega
    obtain ⟨usage, inUsages, holds⟩ :=
      (shows.exists_holds_iff whole windowRead lastSecond).mpr used
    refine ⟨usage, List.mem_flatten.mpr ⟨usages, inCollected, (List.mem_filter.mp inUsages).1⟩, ?_⟩
    have beyond := holds.2
    rw [Instant.le_iff_of_whole endsWhole]
    omega

theorem exists_settle_lease
    (width : Int)
    (opening closing : Instant)
    (counts : StreamCounts)
    {records : List UsageRecord}
    {r : Reconciler}
    {usages : List UsageRecord}
    (recorded : recordAll "acme" (records.map fun record => (record, .time))
      (Reconciler.empty 0) = .ok r)
    (read : readBack "acme" windows r = .ok usages)
    (ofLease : ∀ usage ∈ usages, usage.service = "lease") :
    ∃ invoice after,
      { leaseService width with counts := counts }.settle (leaseRequest opening closing) windows
          [⟨.time, records⟩] = (.ok invoice, after) ∧
        invoice.usages.Perm usages := by
  let service : BillingService Unit := { leaseService width with counts := counts }
  have free : ∀ usage ∈ usages, Rating.Free service.catalog "default" usage.service := by
    intro usage member
    rw [ofLease usage member]
    exact ⟨TariffEntry.provisional "lease" .time, rfl, rfl, rfl⟩
  have reconciled : service.reconcile "acme" [⟨.time, records⟩] = (.ok r, service) := by
    have sameRecords : recordsWithUnits [⟨.time, records⟩] =
        records.map fun record => (record, RateUnit.time) := by
      simp [recordsWithUnits]
    rw [reconcile_eq, sameRecords]
    simp only [service, restored, saved, leaseService, BillingService.start, recorded]
  obtain ⟨invoice, rated⟩ := Rating.exists_invoice_of_free "acme" (opening, closing)
    (fun record => ((keyUnits "acme" [⟨.time, records⟩]).get?
      (UsageKey.ofRecord "acme" record)).getD .unspecified) free
  refine ⟨invoice, service, ?_, Rating.usages_invoice rated⟩
  have reconciledRequest : service.reconcile (leaseRequest opening closing).tenant
      [⟨.time, records⟩] = (.ok r, service) := reconciled
  have readRequest : readBack (leaseRequest opening closing).tenant windows r = .ok usages := read
  simp only [settle, service, reconciledRequest, readRequest, rateUsage]
  exact congrArg (fun result : Outcome Invoice × Catalog =>
    (result.1, { service with catalog := result.2 })) rated

/-- A lease is billed to the end of its last window. -/
theorem exists_runPeriod_lease
    (made : Metering.windows width opening closing = .ok windows) :
    ∃ invoice after,
      (leaseService width).runPeriod (leaseRequest opening closing) = (.ok invoice, after) ∧
        ∀ w ∈ windows, ∀ t, w.stop = .ok t → ∃ usage ∈ invoice.usages, t ≤ usage.stop := by
  have covers := covers_of_windows made
  have inRun : ∀ w ∈ windows, w.Whole ∧ ∃ t, w.stop = .ok t := by
    intro w member
    obtain ⟨whole, _, _, stops⟩ := covers.whole.of_mem_successive covers.run w member
    exact ⟨whole, stops⟩
  obtain ⟨records, counts, metered, ofWindows⟩ := exists_meterJobs_lease opening closing
    (fun w member => (inRun w member).2) ⟨leaseCatalog, StreamCounts.none⟩
  obtain ⟨r, usages, recorded, read, ofLease, reaches⟩ := exists_readBack_lease inRun ofWindows
  obtain ⟨invoice, after, settled, billed⟩ :=
    exists_settle_lease width opening closing counts recorded read ofLease
  refine ⟨invoice, after, ?_, ?_⟩
  · have windowsMade : Metering.windows (leaseService width).settings.metering.windowWidth
        (leaseRequest opening closing).periodStart (leaseRequest opening closing).periodStop =
          .ok windows := made
    have meteredAll : meterJobs (leaseService width).registry (leaseRequest opening closing).tenant
        windows (leaseRequest opening closing).jobs
          ⟨(leaseService width).catalog, (leaseService width).counts⟩ =
        ([.ok ⟨.time, records⟩], ⟨leaseCatalog, counts⟩) := metered
    have jobs : Metering.collect [.ok ⟨.time, records⟩] = .ok [⟨.time, records⟩] := rfl
    simp only [runPeriod, windowsMade, meteredAll, jobs]
    exact settled
  · intro w member t stops
    obtain ⟨usage, inUsages, upper⟩ := reaches w member t stops
    exact ⟨usage, billed.mem_iff.mpr inUsages, upper⟩

/-- Whether no run of any service bills usage outside a period, windows having
the given width. -/
def BillsWithin (width : Int) (opening closing : Instant) : Prop :=
  ∀ (σ : Type) (service after : BillingService σ) (request : PeriodRequest) (invoice : Invoice),
    service.settings.metering.windowWidth = width → request.periodStart = opening →
      request.periodStop = closing → service.runPeriod request = (.ok invoice, after) →
        ∀ subtotal ∈ invoice.subtotals, ∀ line ∈ subtotal.lines,
          opening ≤ line.usage.start ∧ line.usage.start < line.usage.stop ∧
            line.usage.stop ≤ closing

/-- A period is billed within its bounds, whatever is metered and whatever a
store holds, exactly if it ends on a boundary of windows. -/
theorem billsWithin_iff_onBoundary
    (made : Metering.windows width opening closing = .ok windows) :
    BillsWithin width opening closing ↔ OnBoundary width closing := by
  constructor
  · intro within
    apply Decidable.byContradiction
    intro offBoundary
    obtain ⟨w, member, t, stops, beyond⟩ := (covers_of_windows made).exists_lt_stop offBoundary
    obtain ⟨invoice, after, ran, billed⟩ := exists_runPeriod_lease made
    obtain ⟨usage, inInvoice, reaches⟩ := billed w member t stops
    obtain ⟨line, inLines, rfl⟩ := List.mem_map.mp inInvoice
    obtain ⟨subtotal, inSubtotals, inSubtotal⟩ := List.mem_flatMap.mp inLines
    have upper := (within Unit (leaseService width) after (leaseRequest opening closing) invoice
      rfl rfl rfl ran subtotal inSubtotals line inSubtotal).2.2
    exact Instant.not_lt.mpr (Int.le_trans reaches upper) beyond
  · rintro boundary σ service after request invoice rfl rfl rfl ran subtotal inSubtotals line
      inSubtotal
    have billed : line.usage ∈ invoice.usages :=
      List.mem_map.mpr ⟨line, List.mem_flatMap.mpr ⟨subtotal, inSubtotals, inSubtotal⟩, rfl⟩
    obtain ⟨lower, filled, w, member, t, stops, upper⟩ := bounds_of_runPeriod ran made billed
    exact ⟨lower, filled,
      Int.le_trans upper ((covers_of_windows made).stop_le boundary member stops)⟩

/-- Two hours, billed within their bounds. -/
theorem billsWithin_two_hours :
    Metering.windows 3600 (.ofSecond 0) (.ofSecond 7200) =
        .ok [⟨.ofSecond 0, 3600⟩, ⟨.ofSecond 3600, 3600⟩] ∧
      BillsWithin 3600 (.ofSecond 0) (.ofSecond 7200) := by
  have made : Metering.windows 3600 (.ofSecond 0) (.ofSecond 7200) =
      .ok [⟨.ofSecond 0, 3600⟩, ⟨.ofSecond 3600, 3600⟩] := rfl
  exact ⟨made, (billsWithin_iff_onBoundary made).mpr (by decide)⟩

/-- A volume with one sample. -/
def volumeJob (size : Int) (sampled : Fin 86400) : UsageJob :=
  ⟨none, "vol-1", none, "volume.size", [⟨.ofSecond sampled, some (.ofInt size), .object []⟩]⟩

/-- The usual service with an empty tariff and no store. -/
def volumeService : BillingService Unit :=
  start Settings.standard MeterRegistry.cloud
    (Catalog.empty.insertTariff ⟨"default", Table.empty⟩) none ()

/-- A period from the first second of the first day. -/
def volumeRequest (closing : Fin 86400) (jobs : List UsageJob) : PeriodRequest :=
  ⟨"acme", .ofSecond 0, .ofSecond closing, jobs, []⟩

set_option maxRecDepth 20000 in
private theorem stops_volumeRequest :
    (volumeService.runPeriod (volumeRequest 5400 [volumeJob 20 4200])).1.map (fun invoice =>
      invoice.usages.map UsageRecord.stop) = .ok [.ofSecond 3600, .ofSecond 7200] := by
  cbv

/-- A period that ends half an hour into a window is billed to the end of the
window. -/
theorem not_billsWithin_half_window :
    ¬ BillsWithin 3600 (.ofSecond 0) (.ofSecond 5400) := by
  intro within
  obtain ⟨invoice, ran, stopsEq⟩ : ∃ invoice,
      (volumeService.runPeriod (volumeRequest 5400 [volumeJob 20 4200])).1 = .ok invoice ∧
        invoice.usages.map UsageRecord.stop = [.ofSecond 3600, .ofSecond 7200] := by
    have stops := stops_volumeRequest
    cases result : (volumeService.runPeriod (volumeRequest 5400 [volumeJob 20 4200])).1 with
    | error failure =>
      rw [result] at stops
      cases stops
    | ok invoice =>
      rw [result] at stops
      exact ⟨invoice, rfl, Except.ok.inj stops⟩
  have last : Instant.ofSecond 7200 ∈ invoice.usages.map UsageRecord.stop := by
    rw [stopsEq]
    simp
  obtain ⟨usage, inInvoice, stopEq⟩ := List.mem_map.mp last
  obtain ⟨line, inLines, rfl⟩ := List.mem_map.mp inInvoice
  obtain ⟨subtotal, inSubtotals, inSubtotal⟩ := List.mem_flatMap.mp inLines
  have upper := (within Unit volumeService _ (volumeRequest 5400 [volumeJob 20 4200])
    invoice rfl rfl rfl (Prod.ext ran rfl) subtotal inSubtotals line inSubtotal).2.2
  rw [stopEq] at upper
  exact absurd upper (by decide)

end UsageBilling.BillingService

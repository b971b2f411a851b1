import UsageBilling.Proofs.Period.FinishingOrder
import UsageBilling.Proofs.Period.WholeWindows
import UsageBilling.Proofs.Period.Windows
import UsageBilling.Proofs.SampleStream

/-!
Contract: metered usage lasts from one second into another, leap seconds apart.

Owns:
- what lasts a second between instants that are in no leap second reaches from one
  second into another;
- so does all usage that a meter makes of samples in no leap second, and all usage
  of the jobs of a request.

A leap second counts as the second before it. Usage that ends in a leap second may
thus have lasted a second and reach into no other.

Does not own: the usage of samples in leap seconds.
-/

namespace UsageBilling

open Reconciler (Reaches)

/-! ## Instants -/

namespace Instant

variable {earlier later : Instant}

theorem le_of_tdiv_pos
    {nanos : Int}
    (lasts : 0 < nanos.tdiv nanosPerSecond) :
    nanosPerSecond ≤ nanos := by
  simp only [nanosPerSecond, Nat.cast_ofNat] at lasts ⊢
  by_cases forward : 0 ≤ nanos
  · rw [Int.tdiv_eq_ediv_of_nonneg forward] at lasts
    omega
  · have mirrored := Int.neg_tdiv nanos 1000000000
    rw [Int.tdiv_eq_ediv_of_nonneg (by omega)] at mirrored
    omega

theorem leapBetween_of_plain
    (earlierPlain : earlier.isLeap = false)
    (laterPlain : later.isLeap = false) :
    later.leapBetween earlier = 0 := by
  simp [leapBetween, earlierPlain, laterPlain]

theorem timestamp_lt_of_secondsSince
    (earlierPlain : earlier.isLeap = false)
    (laterPlain : later.isLeap = false)
    (lasts : 0 < later.secondsSince earlier) :
    earlier.timestamp < later.timestamp := by
  have noLeap := leapBetween_of_plain earlierPlain laterPlain
  have laterNanos : later.nanos < nanosPerSecond := by
    simpa [isLeap] using laterPlain
  have second := le_of_tdiv_pos lasts
  rw [nanosSince, noLeap] at second
  simp only [nanosPerSecond, Nat.cast_ofNat] at laterNanos second
  omega

theorem isLeap_of_whole
    {t : Instant}
    (whole : t.nanos = 0) :
    t.isLeap = false := by
  rw [isLeap, whole]
  rfl

end Instant

/-! ## Usage by uptime -/

namespace Uptime

variable {windowStart windowStop : Instant} {samples : List Sample} {part : WindowPart}

theorem reaches_of_mem_close
    {run : Run}
    {stop : Instant}
    (startPlain : run.start.isLeap = false)
    (stopPlain : stop.isLeap = false) :
    ∀ usage ∈ run.close stop, Reaches usage := by
  intro usage member
  rw [Run.close] at member
  split at member
  · rename_i lasts
    rw [List.mem_singleton.mp member]
    exact Instant.timestamp_lt_of_secondsSince startPlain stopPlain lasts
  · cases member

theorem reaches_of_mem_closeOpen
    {run : Option Run}
    {stop : Instant}
    (startPlain : ∀ begun ∈ run, begun.start.isLeap = false)
    (stopPlain : stop.isLeap = false) :
    ∀ usage ∈ closeOpen run stop, Reaches usage := by
  cases run with
  | none =>
    intro usage member
    cases member
  | some begun => exact reaches_of_mem_close (startPlain begun rfl) stopPlain

/-- Runs begin and end at phases, or at the end of the window. -/
theorem reaches_of_mem_accrue
    {run : Option Run}
    {timeline : List Phase}
    (stopPlain : windowStop.isLeap = false)
    (runPlain : ∀ begun ∈ run, begun.start.isLeap = false)
    (plain : ∀ phase ∈ timeline, phase.start.isLeap = false) :
    ∀ usage ∈ accrue windowStop run timeline, Reaches usage := by
  induction timeline generalizing run with
  | nil => exact reaches_of_mem_closeOpen runPlain stopPlain
  | cons phase rest inductionHypothesis =>
    have phasePlain := plain phase List.mem_cons_self
    have restPlain := fun later member => plain later (List.mem_cons_of_mem phase member)
    have closes := reaches_of_mem_closeOpen runPlain phasePlain
    intro usage member
    unfold accrue at member
    split at member
    · rcases List.mem_append.mp member with closed | later
      · exact closes usage closed
      · exact inductionHypothesis (by simp) restPlain usage later
    · split at member
      · exact inductionHypothesis runPlain restPlain usage member
      · rcases List.mem_append.mp member with closed | later
        · exact closes usage closed
        · apply inductionHypothesis _ restPlain usage later
          intro begun isNew
          rw [← Option.some.inj isNew]
          exact phasePlain

/-- Each phase begins at a point. -/
theorem exists_point_of_mem_phases
    {meterService : String}
    {seen : Option String}
    {points : List (Instant × Sample)}
    {catalog : Catalog}
    {phase : Phase}
    (member : phase ∈ (phases meterService seen points catalog).1) :
    ∃ point ∈ points, phase.start = point.1 := by
  induction points generalizing seen catalog with
  | nil => cases member
  | cons point rest inductionHypothesis =>
    unfold phases at member
    split at member
    · rcases List.mem_cons.mp member with isFirst | later
      · exact ⟨point, List.mem_cons_self, congrArg Phase.start isFirst⟩
      · have ⟨other, inRest, begins⟩ := inductionHypothesis later
        exact ⟨other, List.mem_cons_of_mem point inRest, begins⟩
    · rcases List.mem_cons.mp member with isFirst | later
      · exact ⟨point, List.mem_cons_self, congrArg Phase.start isFirst⟩
      · have ⟨other, inRest, begins⟩ := inductionHypothesis later
        exact ⟨other, List.mem_cons_of_mem point inRest, begins⟩

theorem reaches_of_mem_usage
    (startPlain : windowStart.isLeap = false)
    (stopPlain : windowStop.isLeap = false)
    (plain : ∀ s ∈ part.inWindow, s.timestamp.isLeap = false)
    (meterService : String)
    (catalog : Catalog) :
    ∀ record ∈ (usage meterService part windowStart windowStop catalog).1, Reaches record := by
  unfold usage
  split
  · intro record member
    cases member
  · apply reaches_of_mem_accrue stopPlain (by simp)
    intro phase member
    have ⟨point, inPoints, begins⟩ := exists_point_of_mem_phases member
    rw [begins]
    rcases List.mem_append.mp inPoints with inLeadIn | inWindow
    · have ⟨s, _, made⟩ := Option.map_eq_some_iff.mp (Option.mem_toList.mp inLeadIn)
      rw [← made]
      exact startPlain
    · have ⟨s, inSamples, made⟩ := List.mem_map.mp inWindow
      rw [← made]
      exact plain s inSamples

end Uptime

/-! ## Usage of a window -/

section Windows

variable {w : Window} {windows : List Window} {samples : List Sample} {records : List UsageRecord}
  {catalog : Catalog}

theorem Window.Whole.bounds_plain
    (whole : w.Whole)
    {start stop : Instant}
    (bounds : w.bounds = .ok (start, stop)) :
    start.isLeap = false ∧ stop.isLeap = false ∧ start.timestamp < stop.timestamp := by
  have ⟨starts, stops⟩ := Window.bounds_eq_ok_iff.mp bounds
  have ⟨ends, wholeStop⟩ := whole.stop_eq_ok_iff.mp stops
  have positive := whole.width
  rw [starts]
  refine ⟨Instant.isLeap_of_whole whole.start, Instant.isLeap_of_whole wholeStop, ?_⟩
  omega

theorem mem_samples_of_split
    {part : WindowPart}
    (made : SampleStream.split samples w = .ok part) :
    ∀ s ∈ part.inWindow, s ∈ samples := by
  unfold SampleStream.split at made
  cases bounds : w.bounds with
  | error failure =>
    rw [bounds] at made
    cases made
  | ok ends =>
    rw [bounds] at made
    cases made
    intro s member
    exact (List.mem_filter.mp (SampleStream.mem_ordered.mp member)).1

/-- Usage of a window is of the window as a whole, or by uptime. -/
theorem reaches_of_meter
    (whole : w.Whole)
    (plain : ∀ s ∈ samples, s.timestamp.isLeap = false)
    {strategy : Strategy}
    {service : String}
    (made : (strategy.meter service samples w catalog).1 = .ok records) :
    ∀ record ∈ records, Reaches record := by
  by_cases isUptime : strategy = .uptime
  · rw [isUptime] at made
    unfold Strategy.meter at made
    split at made
    · rename_i split bounds
      have ⟨startPlain, stopPlain, _⟩ := whole.bounds_plain bounds
      have inSamples := mem_samples_of_split split
      cases made
      exact Uptime.reaches_of_mem_usage startPlain stopPlain
        (fun s member => plain s (inSamples s member)) service catalog
    · cases made
    · cases made
  · intro record member
    exact (Strategy.fills_of_meter isUptime made record member).reaches whole

/-! ## Usage of a request -/

theorem reaches_of_meterJob
    (whole : ∀ w ∈ windows, w.Whole)
    {job : UsageJob}
    (plain : ∀ s ∈ job.samples, s.timestamp.isLeap = false)
    {binding : MeterBinding}
    {state : MeteringState}
    {metered : MeteredJob}
    (made : (Metering.meterJob windows job binding state).1 = .ok metered) :
    ∀ record ∈ metered.records, Reaches record := by
  have normalPlain : ∀ s ∈ SampleStream.normalize job.samples, s.timestamp.isLeap = false := by
    intro s member
    exact plain s (SampleStream.mem_of_mem_normalize member)
  have ⟨own, ofWindows, ofJob⟩ := Metering.meterJob_eq_ok_iff.mp made
  have reaches : ∀ record ∈ own, Reaches record := Metering.forall_mem_meterWindows
    (fun w member _ _ ofWindow => reaches_of_meter (whole w member) normalPlain ofWindow) ofWindows
  intro record member
  rw [ofJob] at member
  have ⟨bare, inOwn, ofBare⟩ := List.mem_map.mp member
  rw [← ofBare]
  exact reaches bare inOwn

/-- All usage of the jobs of a request, if none of their samples is in a leap second. -/
theorem BillingService.reaches_of_meter
    {σ : Type}
    {service metering : BillingService σ}
    {request : PeriodRequest}
    {results : List (Outcome MeteredJob)}
    (made : service.meter request = .ok (windows, results, metering))
    (plain : ∀ job ∈ request.jobs, ∀ s ∈ job.samples, s.timestamp.isLeap = false)
    {metered : MeteredJob}
    (member : .ok metered ∈ results) :
    ∀ record ∈ metered.records, Reaches record := by
  have ⟨begun, state, ofJobs, _⟩ := meter_eq_ok_iff.mp made
  have covers := Metering.covers_of_windows begun
  have each := Metering.forall₂_meterJobs service.registry request.tenant windows request.jobs
    ⟨service.catalog, service.counts⟩
  rw [ofJobs] at each
  have ⟨binding, _, job, inJobs, _, ofJob⟩ := exists_of_mem_forall₂ each member
  exact reaches_of_meterJob
    (fun w inWindows => (covers.whole.of_mem_successive covers.run w inWindows).1)
    (plain job inJobs) ofJob

end Windows

end UsageBilling

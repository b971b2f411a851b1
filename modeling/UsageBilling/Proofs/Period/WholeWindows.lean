import Mathlib.Data.List.Forall2
import UsageBilling.Period.Metering
import UsageBilling.Proofs.Reconciler.Windows

/-!
Contract: metered usage window by window, and usage that lasts for whole windows.

Owns:
- what holds of the usage of each window holds of all usage of a job;
- each result of metering is that of a job with its binding;
- usage by any strategy but uptime lasts for the window that it is of.

Does not own: the volumes of usage.
-/

namespace UsageBilling

variable {w : Window} {windows : List Window} {samples : List Sample} {records : List UsageRecord}
  {binding : MeterBinding} {catalog : Catalog} {job : UsageJob} {holds : UsageRecord → Prop}

/-! ## Usage of a job -/

namespace Metering

/-- What holds of the usage of each window holds of the usage of all windows. -/
theorem forall_mem_meterWindows
    (each : ∀ w ∈ windows, ∀ catalog own,
      (binding.strategy.meter binding.service samples w catalog).1 = .ok own →
        ∀ record ∈ own, holds record)
    (made : (meterWindows binding samples windows catalog).1 = .ok records) :
    ∀ record ∈ records, holds record := by
  induction windows generalizing catalog records with
  | nil =>
    cases made
    intro record member
    cases member
  | cons w rest inductionHypothesis =>
    unfold meterWindows at made
    split at made
    · cases made
    · rename_i own resolved metered
      have ofOwn := each w List.mem_cons_self catalog own (congrArg Prod.fst metered)
      change Except.map (own ++ ·) (meterWindows binding samples rest resolved).1 =
        .ok records at made
      cases later : (meterWindows binding samples rest resolved).1 with
      | error failure =>
        rw [later] at made
        cases made
      | ok others =>
        rw [later] at made
        cases made
        have ofOthers := inductionHypothesis
          (fun w member => each w (List.mem_cons_of_mem _ member)) later
        intro record member
        exact (List.mem_append.mp member).elim (ofOwn record) (ofOthers record)

/-- A metered job has the unit of its binding, and the records of its samples as those
of its resource. -/
theorem meterJob_eq_ok_iff
    {state : MeteringState}
    {metered : MeteredJob} :
    (meterJob windows job binding state).1 = .ok metered ↔
      ∃ own, (meterWindows binding (SampleStream.normalize job.samples) windows
          state.catalog).1 = .ok own ∧
        metered = ⟨binding.unit,
          own.map fun record => record.withResource job.resource job.resourceName⟩ := by
  have sameSamples : (SampleStream.normalizeCounted job.samples state.counts).1 =
      SampleStream.normalize job.samples := rfl
  unfold meterJob
  dsimp only
  rw [sameSamples]
  cases (meterWindows binding (SampleStream.normalize job.samples) windows state.catalog).1 with
  | error failure => simp [Except.map]
  | ok own => simp [Except.map, eq_comm]

/-- The bindings of the jobs that are metered, in order. -/
def bindings (registry : MeterRegistry) (tenant : String) (jobs : List UsageJob) :
    List MeterBinding :=
  jobs.filterMap (bindingOf? registry tenant)

/-- The results of metering are those of the jobs with bindings, one by one. -/
theorem forall₂_meterJobs
    (registry : MeterRegistry)
    (tenant : String)
    (windows : List Window)
    (jobs : List UsageJob)
    (state : MeteringState) :
    List.Forall₂ (fun binding result => ∃ job ∈ jobs, ∃ before,
        (meterJob windows job binding before).1 = result)
      (bindings registry tenant jobs) (meterJobs registry tenant windows jobs state).1 := by
  induction jobs generalizing state with
  | nil => exact List.Forall₂.nil
  | cons job rest inductionHypothesis =>
    have ofRest : ∀ after, List.Forall₂ (fun binding result => ∃ other ∈ job :: rest, ∃ before,
        (meterJob windows other binding before).1 = result)
        (bindings registry tenant rest) (meterJobs registry tenant windows rest after).1 := by
      intro after
      refine (inductionHypothesis after).imp fun binding result => ?_
      intro ⟨other, member, metered⟩
      exact ⟨other, List.mem_cons_of_mem job member, metered⟩
    unfold meterJobs bindings
    rw [List.filterMap_cons]
    cases bindingOf? registry tenant job with
    | none => exact ofRest state
    | some binding =>
      exact List.Forall₂.cons ⟨job, List.mem_cons_self, state, rfl⟩ (ofRest _)

end Metering

/-! ## Usage of whole windows -/

namespace Strategy

variable {service : String}

theorem fills_of_wholeWindow
    {start stop : Instant}
    (bounds : w.bounds = .ok (start, stop))
    {volume : Outcome Decimal}
    (made : volume.map (wholeWindow service start stop) = .ok records) :
    ∀ record ∈ records, record.Fills w := by
  have ⟨starts, stops⟩ := Window.bounds_eq_ok_iff.mp bounds
  cases volume with
  | error failure => cases made
  | ok volume =>
    cases made
    intro record member
    rw [List.mem_singleton.mp member]
    exact ⟨starts, stops⟩

/-- Usage by any strategy but uptime is of the window as a whole. -/
theorem fills_of_meter
    {strategy : Strategy}
    (notUptime : strategy ≠ .uptime)
    (made : (strategy.meter service samples w catalog).1 = .ok records) :
    ∀ record ∈ records, record.Fills w := by
  unfold meter at made
  split at made
  · rename_i part start stop _ bounds
    dsimp only at made
    split at made
    · dsimp only at made
      exact fills_of_wholeWindow bounds made
    · dsimp only at made
      exact fills_of_wholeWindow bounds made
    · dsimp only at made
      exact fills_of_wholeWindow bounds made
    · split at made
      · rename_i size _
        have ofSize : Except.map (wholeWindow service start stop) (.ok size) = .ok records := made
        exact fills_of_wholeWindow bounds ofSize
      · cases made
        intro record member
        cases member
    · exact absurd rfl notUptime
  · cases made
  · cases made

end Strategy

/-- The usage of a job by any strategy but uptime. -/
theorem Metering.fills_of_meterJob
    (notUptime : binding.strategy ≠ .uptime)
    {state : MeteringState}
    {metered : MeteredJob}
    (made : (meterJob windows job binding state).1 = .ok metered) :
    ∀ record ∈ metered.records, ∃ w ∈ windows, record.Fills w := by
  have ⟨own, ofWindows, ofJob⟩ := meterJob_eq_ok_iff.mp made
  have filled : ∀ record ∈ own, ∃ w ∈ windows, record.Fills w :=
    forall_mem_meterWindows
      (fun w member _ _ ofWindow record inOwn =>
        ⟨w, member, Strategy.fills_of_meter notUptime ofWindow record inOwn⟩)
      ofWindows
  intro record member
  rw [ofJob] at member
  have ⟨bare, inOwn, ofBare⟩ := List.mem_map.mp member
  rw [← ofBare]
  exact filled bare inOwn

end UsageBilling

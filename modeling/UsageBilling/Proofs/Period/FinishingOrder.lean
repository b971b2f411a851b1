import UsageBilling.Proofs.Period.KeyUnits
import UsageBilling.Proofs.Period.Reconciling
import UsageBilling.Proofs.Reconciler.Commutation

/-!
Contract: the order in which the jobs of a period finish.

Owns:
- a run whose jobs finish in any order, and reports a failure if a job cannot be metered;
- jobs that are compatible with each other are reconciled, saved and billed
  alike in any order.

Does not own: what happens in metering, where a job does not see the others.
-/

namespace UsageBilling

open Reconciler (Compatible Independent)

namespace MeteredJob

def entries (job : MeteredJob) : List (UsageRecord × RateUnit) :=
  job.records.map fun record => (record, job.unit)

/-- Whether the usage of two jobs may be recorded in either order. -/
def CompatibleWith (deviation : Nat) (tenant : String) (job other : MeteredJob) : Prop :=
  Independent deviation tenant job.entries other.entries

instance (deviation : Nat) (tenant : String) (job other : MeteredJob) :
    Decidable (CompatibleWith deviation tenant job other) :=
  inferInstanceAs (Decidable (Independent _ _ _ _))

instance (deviation : Nat) (tenant : String) :
    Std.Symm (CompatibleWith deviation tenant) :=
  ⟨fun _ _ => Independent.symm⟩

end MeteredJob

namespace BillingService

open MeteredJob (CompatibleWith)

variable {σ : Type} {service : BillingService σ} {tenant : String} {deviation : Nat}
  {r r' : Reconciler} {metered metered' : List MeteredJob} {request : PeriodRequest}

theorem recordsWithUnits_eq_flatten
    (metered : List MeteredJob) :
    recordsWithUnits metered = (metered.map MeteredJob.entries).flatten :=
  List.flatMap_def

/-! ## Recording -/

/-- Recording in turn fails exactly if some usage cannot be recorded. -/
theorem recordAll_eq_takeAll
    (tenant : String)
    (entries : List (UsageRecord × RateUnit))
    (r : Reconciler) :
    recordAll tenant entries r =
      if ∀ u ∈ entries, Reconciler.Recordable u then .ok (r.takeAll tenant entries)
      else .error .overflow := by
  induction entries generalizing r with
  | nil => rfl
  | cons u rest inductionHypothesis =>
    rw [recordAll, Reconciler.record_eq_take]
    by_cases recordable : Reconciler.Recordable u
    · simp only [List.mem_cons, forall_eq_or_imp, recordable, true_and]
      exact inductionHypothesis _
    · simp only [List.mem_cons, forall_eq_or_imp, recordable, false_and]
      rfl

/-- Two attempts to reconcile that fail alike, or end with the same tracks. -/
inductive SameAttempt : Except BillingError Reconciler → Except BillingError Reconciler → Prop where
  | error (error : BillingError) : SameAttempt (.error error) (.error error)
  | ok {r r' : Reconciler} (same : r.Same r') (sound : r.Sound) (sound' : r'.Sound) :
    SameAttempt (.ok r) (.ok r')

/-- Jobs compatible with each other are recorded alike in any order. -/
theorem sameAttempt_recordAll
    (sound : r.Sound)
    (permuted : metered.Perm metered')
    (compatible : metered.Pairwise (CompatibleWith r.deviation tenant)) :
    SameAttempt (recordAll tenant (recordsWithUnits metered) r)
      (recordAll tenant (recordsWithUnits metered') r) := by
  have sameEntries := recordsWithUnits_perm permuted
  have sameTracks : (r.takeAll tenant (recordsWithUnits metered)).Same
      (r.takeAll tenant (recordsWithUnits metered')) := by
    rw [recordsWithUnits_eq_flatten, recordsWithUnits_eq_flatten]
    exact sound.takeAll_flatten_perm (permuted.map _) (List.pairwise_map.mpr compatible)
  rw [recordAll_eq_takeAll, recordAll_eq_takeAll]
  simp only [← sameEntries.mem_iff]
  split
  · exact .ok sameTracks (sound.takeAll tenant _).1 (sound.takeAll tenant _).1
  · exact .error .overflow

/-! ## Reconciling -/

/-- All usage of a key has one unit, within a job and across compatible jobs. -/
theorem oneUnitEach_of_compatible
    (compatible : metered.Pairwise (CompatibleWith deviation tenant)) :
    OneUnitEach tenant (recordsWithUnits metered) := by
  intro u member v member' sameKey
  obtain ⟨job, inMetered, inJob⟩ := List.mem_flatMap.mp member
  obtain ⟨other, inMetered', inOther⟩ := List.mem_flatMap.mp member'
  by_cases sameJob : job = other
  · obtain ⟨_, _, rfl⟩ := List.mem_map.mp inJob
    obtain ⟨_, _, rfl⟩ := List.mem_map.mp inOther
    rw [sameJob]
  · exact (compatible.forall inMetered inMetered' sameJob u inJob v inOther sameKey).1

theorem orderedKeys_keyUnits_perm
    (permuted : metered.Perm metered')
    (compatible : metered.Pairwise (CompatibleWith deviation tenant)) :
    orderedKeys (keyUnits tenant metered) = orderedKeys (keyUnits tenant metered') :=
  orderedKeys_eq (unique_keyUnits tenant metered) (unique_keyUnits tenant metered')
    (get?_keyUnits_perm (oneUnitEach_of_compatible compatible) permuted)

theorem saved_eq_of_same
    (service : BillingService σ)
    (same : r.Same r')
    (keys : List UsageKey)
    (stored : σ) :
    service.saved keys r stored = service.saved keys r' stored := by
  unfold saved
  cases service.store with
  | none => rfl
  | some store =>
    have sameSave : (fun stored key => saveKey store key r stored) =
        fun stored key => saveKey store key r' stored := by
      funext stored key
      rw [saveKey, saveKey, same.snapshot]
    simp only [saveKeys, sameSave]

/-- Jobs compatible with each other are reconciled alike in any order, and leave
the same service behind. -/
theorem reconcile_perm
    (permuted : metered.Perm metered')
    (compatible : metered.Pairwise
      (CompatibleWith service.settings.metering.deviation tenant)) :
    SameAttempt (service.reconcile tenant metered).1 (service.reconcile tenant metered').1 ∧
      (service.reconcile tenant metered).2 = (service.reconcile tenant metered').2 := by
  rw [reconcile_eq, reconcile_eq, ← orderedKeys_keyUnits_perm permuted compatible]
  obtain ⟨sound, sameDeviation⟩ :=
    service.sound_restored (orderedKeys (keyUnits tenant metered))
  have attempt := sameAttempt_recordAll sound permuted (sameDeviation ▸ compatible)
  revert attempt
  simp only
  generalize recordAll tenant (recordsWithUnits metered) _ = left
  generalize recordAll tenant (recordsWithUnits metered') _ = right
  intro attempt
  cases attempt with
  | error error => exact ⟨.error error, rfl⟩
  | ok same sound sound' =>
    refine ⟨.ok same sound sound', ?_⟩
    simp only [service.saved_eq_of_same same]

/-! ## Billing -/

/-- Two bills with the same invoice, if any, and the same service left behind.
Errors may differ: the first job to fail is the one that is reported. -/
def SameBill (bill bill' : Outcome Invoice × BillingService σ) : Prop :=
  bill.1.toOption = bill'.1.toOption ∧ bill.2 = bill'.2

theorem SameBill.symm
    {bill bill' : Outcome Invoice × BillingService σ}
    (same : SameBill bill bill') :
    SameBill bill' bill :=
  ⟨same.1.symm, same.2.symm⟩

theorem readBack_eq_ok_iff_of_same
    (same : r.Same r')
    (sound : r.Sound)
    (sound' : r'.Sound)
    (tenant : String)
    (windows : List Window)
    (usages : List UsageRecord) :
    readBack tenant windows r = .ok usages ↔ readBack tenant windows r' = .ok usages := by
  rw [readBack_eq_ok_iff, readBack_eq_ok_iff]
  simp only [same.usageIn_eq_ok_iff sound sound']

theorem rateUsage_congr
    {units units' : Table UsageKey RateUnit}
    (service : BillingService σ)
    (request : PeriodRequest)
    (sameLookups : ∀ key, units.get? key = units'.get? key)
    (usages : List UsageRecord) :
    service.rateUsage request units usages = service.rateUsage request units' usages := by
  simp only [rateUsage, sameLookups]

/-- Jobs compatible with each other are billed alike in any order. -/
theorem settle_perm
    (permuted : metered.Perm metered')
    (compatible : metered.Pairwise
      (CompatibleWith service.settings.metering.deviation request.tenant))
    (windows : List Window) :
    SameBill (service.settle request windows metered)
      (service.settle request windows metered') := by
  have sameUnits := get?_keyUnits_perm (oneUnitEach_of_compatible compatible) permuted
  have reconciled := reconcile_perm permuted compatible
  revert reconciled
  unfold settle
  generalize service.reconcile request.tenant metered = left
  generalize service.reconcile request.tenant metered' = right
  rintro ⟨attempt, sameService⟩
  obtain ⟨attempted, after⟩ := left
  obtain ⟨attempted', after'⟩ := right
  dsimp only at attempt sameService
  subst sameService
  cases attempt with
  | error error => exact ⟨rfl, rfl⟩
  | @ok r r' same sound sound' =>
    have sameReading := readBack_eq_ok_iff_of_same same sound sound' request.tenant windows
    simp only
    cases first : readBack request.tenant windows r with
    | ok usages =>
      rw [(sameReading usages).mp first]
      simp only [rateUsage_congr after request sameUnits]
      exact ⟨rfl, rfl⟩
    | error failure =>
      cases second : readBack request.tenant windows r' with
      | ok usages =>
        rw [(sameReading usages).mpr second] at first
        cases first
      | error failure' => exact ⟨rfl, rfl⟩

/-! ## Runs -/

/-- A worker hands over a metered job exactly if the job was metered. -/
theorem joined_eq_ok_iff
    (result : Outcome MeteredJob)
    (job : MeteredJob) :
    Metering.joined result = .ok job ↔ result = .ok job := by
  match result with
  | .ok metered => exact Iff.rfl
  | .error (.reported error) => exact Iff.rfl
  | .error (.aborted fault) =>
    constructor
    · intro handed
      cases handed
    · intro metered
      cases metered

theorem exists_reported_of_joined
    {result : Outcome MeteredJob}
    {failure : Failure}
    (failed : Metering.joined result = .error failure) :
    ∃ error, failure = .reported error := by
  match result with
  | .ok metered => cases failed
  | .error (.reported error) =>
    cases failed
    exact ⟨error, rfl⟩
  | .error (.aborted fault) =>
    cases failed
    exact ⟨.state (.workerFailed fault), rfl⟩

/-- A job that cannot be metered fails the run with an error that is reported, also if a fault
has stopped its worker. -/
theorem exists_reported_of_collect
    {results : List (Outcome MeteredJob)}
    {failure : Failure}
    (failed : Metering.collect results = .error failure) :
    ∃ error, failure = .reported error := by
  unfold Metering.collect at failed
  induction results with
  | nil => cases failed
  | cons result rest inductionHypothesis =>
    rw [List.mapM_cons] at failed
    cases handed : Metering.joined result with
    | error first =>
      rw [handed] at failed
      cases failed
      exact exists_reported_of_joined handed
    | ok job =>
      rw [handed] at failed
      cases others : rest.mapM Metering.joined with
      | error next =>
        rw [others] at failed inductionHypothesis
        cases failed
        exact inductionHypothesis rfl
      | ok jobs =>
        rw [others] at failed
        cases failed

theorem exists_collect_perm
    {results results' : List (Outcome MeteredJob)}
    (permuted : results'.Perm results)
    (collected : Metering.collect results = .ok metered) :
    ∃ metered', Metering.collect results' = .ok metered' ∧ metered'.Perm metered := by
  obtain ⟨metered', collected', sameJobs⟩ :=
    List.perm_comp_forall₂ permuted ((mapM_eq_ok_iff _ _ _).mp collected)
  exact ⟨metered', (mapM_eq_ok_iff _ _ _).mpr collected', sameJobs⟩

/-- The windows of a request, and the results of its jobs in request order. -/
def meter (service : BillingService σ) (request : PeriodRequest) :
    Outcome (List Window × List (Outcome MeteredJob) × BillingService σ) := do
  let windows ← Metering.windows service.settings.metering.windowWidth
    request.periodStart request.periodStop
  let (results, state) := Metering.meterJobs service.registry request.tenant windows
    request.jobs ⟨service.catalog, service.counts⟩
  pure (windows, results, { service with catalog := state.catalog, counts := state.counts })

/-- A request is metered exactly if its period has windows. -/
theorem meter_eq_ok_iff
    {windows : List Window}
    {results : List (Outcome MeteredJob)}
    {after : BillingService σ} :
    service.meter request = .ok (windows, results, after) ↔
      Metering.windows service.settings.metering.windowWidth request.periodStart
          request.periodStop = .ok windows ∧
        ∃ state, Metering.meterJobs service.registry request.tenant windows request.jobs
            ⟨service.catalog, service.counts⟩ = (results, state) ∧
          after = { service with catalog := state.catalog, counts := state.counts } := by
  unfold meter
  cases Metering.windows service.settings.metering.windowWidth request.periodStart
      request.periodStop with
  | error failure => simp [bind, Except.bind]
  | ok begun =>
    simp only [bind, Except.bind, pure, Except.pure, Except.ok.injEq, Prod.mk.injEq]
    constructor
    · rintro ⟨rfl, ofResults, ofService⟩
      exact ⟨rfl, _, Prod.ext ofResults rfl, ofService.symm⟩
    · rintro ⟨rfl, state, ofJobs, ofService⟩
      rw [ofJobs]
      exact ⟨rfl, rfl, ofService.symm⟩

/-- Metering changes nothing of a service but its catalog and its counts. -/
theorem exists_meter_eq
    {windows : List Window}
    {results : List (Outcome MeteredJob)}
    {after : BillingService σ}
    (made : service.meter request = .ok (windows, results, after)) :
    ∃ catalog counts, after = { service with catalog := catalog, counts := counts } := by
  have ⟨_, state, _, ofService⟩ := meter_eq_ok_iff.mp made
  exact ⟨state.catalog, state.counts, ofService⟩

theorem settings_of_meter
    {windows : List Window}
    {results : List (Outcome MeteredJob)}
    {after : BillingService σ}
    (made : service.meter request = .ok (windows, results, after)) :
    after.settings = service.settings := by
  obtain ⟨catalog, counts, rfl⟩ := exists_meter_eq made
  rfl

/-- Bill a tenant's period, the results of its jobs taken in the order in which
the jobs finish. -/
def runPeriodFinishing
    (finish : List (Outcome MeteredJob) → List (Outcome MeteredJob))
    (service : BillingService σ) (request : PeriodRequest) :
    Outcome Invoice × BillingService σ :=
  match service.meter request with
  | .error failure => (.error failure, service)
  | .ok (windows, results, metered) =>
    match Metering.collect (finish results) with
    | .error failure => (.error failure, metered)
    | .ok jobs => metered.settle request windows jobs

theorem runPeriodFinishing_id
    (service : BillingService σ)
    (request : PeriodRequest) :
    service.runPeriodFinishing id request = service.runPeriod request := by
  unfold runPeriodFinishing runPeriod meter
  cases Metering.windows service.settings.metering.windowWidth request.periodStart
    request.periodStop <;> rfl

/-- The metered jobs of a request, if all its jobs can be metered. -/
def meteredJobs (service : BillingService σ) (request : PeriodRequest) : List MeteredJob :=
  match service.meter request with
  | .error _ => []
  | .ok (_, results, _) => (Metering.collect results).toOption.getD []

/-- A period whose metered jobs are compatible with each other is billed alike
in whatever order the jobs finish: the invoice, the catalog, and all that is
stored are the same. -/
theorem sameBill_of_compatible
    (service : BillingService σ)
    (request : PeriodRequest)
    {finish : List (Outcome MeteredJob) → List (Outcome MeteredJob)}
    (permutes : ∀ results, (finish results).Perm results)
    (compatible : (service.meteredJobs request).Pairwise
      (CompatibleWith service.settings.metering.deviation request.tenant)) :
    SameBill (service.runPeriodFinishing finish request) (service.runPeriod request) := by
  rw [← runPeriodFinishing_id]
  unfold runPeriodFinishing
  cases made : service.meter request with
  | error failure => exact ⟨rfl, rfl⟩
  | ok result =>
    obtain ⟨windows, results, metered⟩ := result
    have sameSettings := settings_of_meter made
    simp only [id]
    cases inOrder : Metering.collect results with
    | error failure =>
      cases finished : Metering.collect (finish results) with
      | error failure' => exact ⟨rfl, rfl⟩
      | ok jobs =>
        obtain ⟨jobs', collected, _⟩ := exists_collect_perm (permutes results).symm finished
        rw [inOrder] at collected
        cases collected
    | ok jobs =>
      obtain ⟨jobs', finished, permuted⟩ := exists_collect_perm (permutes results) inOrder
      have ofJobs : service.meteredJobs request = jobs := by
        simp only [meteredJobs, made, inOrder]
        rfl
      rw [finished]
      rw [ofJobs, ← sameSettings] at compatible
      exact settle_perm permuted
        ((permuted.pairwise_iff (Std.Symm.symm _ _)).mpr compatible) windows

end BillingService

end UsageBilling

import UsageBilling.Proofs.Period.Bounds
import UsageBilling.Proofs.Period.FinishingOrder
import UsageBilling.Proofs.Reconciler.Snapshots
import UsageBilling.Proofs.SnapshotStore

/-!
Contract: coverage kept from one run to the next.

Owns:
- a sequence of runs of one service, and the jobs that each of them records;
- a run with a store that holds the snapshots of a reconciler: it restores what
  it needs of them, and saves the snapshots of the reconciler that has recorded
  its jobs as well;
- after any sequence of runs the store answers with the snapshots of one
  reconciler that has recorded the jobs of all of them.

Does not own: what the runs bill, or stores that lose texts.
-/

namespace UsageBilling

/-- A run for a request, the results of its jobs taken in the order in which the
jobs finish. -/
structure PeriodRun where
  request : PeriodRequest
  finish : List (Outcome MeteredJob) → List (Outcome MeteredJob)

namespace BillingService

variable {σ : Type} {service after : BillingService σ} {store : SnapshotStore σ}
  {initial stored : σ} {held : UsageKey → Option String} {tenant : String}
  {fact : (UsageKey → Option String) → σ → Prop} {r single : Reconciler} {metered : List MeteredJob}

/-- The service that a run leaves. -/
def afterRun (service : BillingService σ) (run : PeriodRun) : BillingService σ :=
  (service.runPeriodFinishing run.finish run.request).2

def afterRuns (service : BillingService σ) (runs : List PeriodRun) : BillingService σ :=
  runs.foldl afterRun service

/-- The jobs that a run records, in the order in which they finish. There are none
if a job cannot be metered or recorded: the run then ends before it saves. -/
def recordedJobs (service : BillingService σ) (run : PeriodRun) : List MeteredJob :=
  match service.meter run.request with
  | .error _ => []
  | .ok (_, results, metering) =>
    match Metering.collect (run.finish results) with
    | .error _ => []
    | .ok jobs =>
      match (metering.reconcile run.request.tenant jobs).1 with
      | .error _ => []
      | .ok _ => jobs

/-- The jobs that each of a sequence of runs records, with the tenant of the run. -/
def recordedRuns (service : BillingService σ) :
    List PeriodRun → List (String × List MeteredJob)
  | [] => []
  | run :: rest =>
    (run.request.tenant, service.recordedJobs run) :: (service.afterRun run).recordedRuns rest

/-- One reconciler records the jobs of several runs in order. -/
def recordRuns : List (String × List MeteredJob) → Reconciler → Except BillingError Reconciler
  | [], r => .ok r
  | (tenant, jobs) :: rest, r => do recordRuns rest (← recordAll tenant (recordsWithUnits jobs) r)

/-! ## Restoring and saving -/

/-- One map over another: for some keys what the upper one has, if anything. -/
def overlay {α : Type} (keys : List UsageKey) (upper lower : UsageKey → Option α)
    (key : UsageKey) : Option α :=
  if key ∈ keys then (upper key).or (lower key) else lower key

theorem overlay_singleton
    {α : Type}
    (key : UsageKey)
    (upper lower : UsageKey → Option α)
    (other : UsageKey) :
    overlay [key] upper lower other =
      if other = key then (upper key).or (lower key) else lower other := by
  by_cases same : other = key
  · simp [overlay, same]
  · simp [overlay, same]

/-- Keys may be laid over one after the other. -/
theorem overlay_cons
    {α : Type}
    (key : UsageKey)
    (keys : List UsageKey)
    (upper lower : UsageKey → Option α) :
    overlay (key :: keys) upper lower = overlay keys upper (overlay [key] upper lower) := by
  funext other
  by_cases same : other = key
  · rw [overlay, overlay, overlay, same, if_pos List.mem_cons_self, if_pos List.mem_cons_self,
      ← Option.or_assoc, Option.or_self, ite_self]
  · simp only [overlay, same, List.mem_cons, List.not_mem_nil, false_or, if_false]

/-- A key of which the store has a snapshot is restored, others are left. -/
theorem coverage?_restoreKey
    (keeps : store.KeepsLastSaved initial)
    (holds : store.Holds initial single.snapshot stored)
    (restorable : single.Restorable)
    (sameDeviation : r.deviation = single.deviation)
    (key : UsageKey)
    (unit : RateUnit) :
    (restoreKey store key unit r stored).1.coverage? =
      overlay [key] single.coverage? r.coverage? := by
  have loaded : store.load key stored = (.ok (single.snapshot key), (store.load key stored).2) :=
    Prod.ext (holds.load keeps key).1 rfl
  funext other
  rw [overlay_singleton, restoreKey, loaded]
  cases taken : single.snapshot key with
  | none =>
    rw [Reconciler.snapshot_eq_map_toText, Option.map_eq_none_iff] at taken
    rw [taken, Option.none_or]
    show r.coverage? other = _
    split
    · rename_i sameKey
      rw [sameKey]
    · rfl
  | some text =>
    show (r.restore key text unit).coverage? other = _
    rw [Reconciler.coverage?_restore, sameDeviation, restorable.ofText_snapshot taken,
      Option.some_or]

theorem restoreKey_snd
    (store : SnapshotStore σ)
    (key : UsageKey)
    (unit : RateUnit)
    (r : Reconciler)
    (stored : σ) :
    (restoreKey store key unit r stored).2 = store.perform stored (.load key) := by
  show _ = (store.load key stored).2
  rw [restoreKey]
  split
  · rename_i loaded
    rw [loaded]
  · rename_i loaded
    rw [loaded]

/-- Restoring changes no text that is held. -/
theorem follows_restoreKeys
    (follows : store.Follows fact)
    (keys : List (UsageKey × RateUnit))
    (r : Reconciler)
    (holds : fact held stored) :
    fact held (restoreKeys store keys r stored).2 := by
  induction keys generalizing r stored with
  | nil => exact holds
  | cons entry rest inductionHypothesis =>
    have loaded : fact held (restoreKey store entry.1 entry.2 r stored).2 := by
      rw [restoreKey_snd]
      exact follows held stored (.load entry.1) holds
    exact inductionHypothesis _ loaded

theorem coverage?_restoreKeys
    (keeps : store.KeepsLastSaved initial)
    (holds : store.Holds initial single.snapshot stored)
    (restorable : single.Restorable)
    (sound : r.Sound)
    (sameDeviation : r.deviation = single.deviation)
    (keys : List (UsageKey × RateUnit)) :
    (restoreKeys store keys r stored).1.coverage? =
      overlay (keys.map Prod.fst) single.coverage? r.coverage? := by
  induction keys generalizing r stored with
  | nil => rfl
  | cons entry rest inductionHypothesis =>
    have ⟨nextSound, nextDeviation⟩ := sound_restoreKey sound store entry.1 entry.2 stored
    have loaded : store.Holds initial single.snapshot
        (restoreKey store entry.1 entry.2 r stored).2 := by
      rw [restoreKey_snd]
      exact holds.perform (.load entry.1)
    have restCoverage := inductionHypothesis loaded nextSound
      (nextDeviation.trans sameDeviation)
    rw [coverage?_restoreKey keeps holds restorable sameDeviation] at restCoverage
    rw [List.map_cons, overlay_cons]
    exact restCoverage

theorem follows_saveKey
    (follows : store.Follows fact)
    (key : UsageKey)
    (r : Reconciler)
    (holds : fact held stored) :
    fact (overlay [key] r.snapshot held) (saveKey store key r stored) := by
  rw [saveKey]
  cases taken : r.snapshot key with
  | none =>
    have unchanged : overlay [key] r.snapshot held = held := by
      funext other
      rw [overlay_singleton, taken, Option.none_or]
      split
      · rename_i sameKey
        rw [sameKey]
      · rfl
    rw [unchanged]
    exact holds
  | some text =>
    have saved : overlay [key] r.snapshot held = StoreCall.remember held (.save key text) := by
      funext other
      rw [overlay_singleton, taken, Option.some_or]
      rfl
    rw [saved]
    exact follows held stored (.save key text) holds

/-- Saving lays the snapshots of the keys over the texts held. -/
theorem follows_saveKeys
    (follows : store.Follows fact)
    (keys : List UsageKey)
    (r : Reconciler)
    (holds : fact held stored) :
    fact (overlay keys r.snapshot held) (saveKeys store keys r stored) := by
  induction keys generalizing held stored with
  | nil => exact holds
  | cons key rest inductionHypothesis =>
    rw [overlay_cons]
    exact inductionHypothesis (follows_saveKey follows key r holds)

/-! ## A run -/

/-- A service with a store that holds the snapshots of a reconciler. -/
structure Mirrors (service : BillingService σ) (store : SnapshotStore σ) (initial : σ)
    (single : Reconciler) : Prop where
  ofStore : service.store = some store
  deviation : single.deviation = service.settings.metering.deviation
  restorable : single.Restorable
  holds : store.Holds initial single.snapshot service.stored

theorem Mirrors.withCatalog
    (mirrors : service.Mirrors store initial single)
    (catalog : Catalog)
    (counts : StreamCounts) :
    Mirrors { service with catalog := catalog, counts := counts } store initial single :=
  ⟨mirrors.ofStore, mirrors.deviation, mirrors.restorable, mirrors.holds⟩

/-- For its keys a run restores what the reconciler has, so that recording leaves
both with the same. -/
theorem Mirrors.coverage?_takeAll
    (mirrors : service.Mirrors store initial single)
    (keeps : store.KeepsLastSaved initial)
    (tenant : String)
    (entries : List (UsageRecord × RateUnit))
    {keys : List (UsageKey × RateUnit)}
    {key : UsageKey}
    (ofRun : key ∈ keys.map Prod.fst) :
    ((service.restored keys).1.takeAll tenant entries).coverage? key =
      (single.takeAll tenant entries).coverage? key := by
  have ⟨_, sameDeviation⟩ := service.sound_restored keys
  have fresh := Reconciler.sound_empty service.settings.metering.deviation
  apply Reconciler.coverage?_takeAll_congr (sameDeviation.trans mirrors.deviation.symm)
  rw [restored, mirrors.ofStore]
  dsimp only
  rw [coverage?_restoreKeys keeps mirrors.holds mirrors.restorable fresh mirrors.deviation.symm,
    overlay, if_pos ofRun]
  exact Option.or_none

/-- What a run saves over what the store held are the snapshots of the reconciler
that has recorded the jobs of the run as well. -/
theorem Mirrors.overlay_snapshot
    (mirrors : service.Mirrors store initial single)
    (keeps : store.KeepsLastSaved initial)
    (tenant : String)
    (metered : List MeteredJob)
    (key : UsageKey) :
    let keys := orderedKeys (keyUnits tenant metered)
    let records := recordsWithUnits metered
    overlay (keys.map Prod.fst) ((service.restored keys).1.takeAll tenant records).snapshot
        single.snapshot key =
      (single.takeAll tenant records).snapshot key := by
  intro keys records
  rw [overlay, Reconciler.snapshot_eq_map_toText, Reconciler.snapshot_eq_map_toText,
    Reconciler.snapshot_eq_map_toText]
  split
  · rename_i ofRun
    rw [mirrors.coverage?_takeAll keeps tenant records ofRun]
    cases recorded : (single.takeAll tenant records).coverage? key with
    | some c => rfl
    | none => rw [Reconciler.coverage?_eq_none_of_takeAll recorded, Option.map_none, Option.or_none]
  · rename_i notOfRun
    have others : ∀ u ∈ records, key ≠ UsageKey.ofRecord tenant u.1 := by
      intro u member sameKey
      exact notOfRun ((mem_orderedKeys_iff tenant metered key).mpr ⟨u, member, sameKey⟩)
    rw [Reconciler.coverage?_takeAll_of_ne single others]

theorem Mirrors.holds_restored
    (mirrors : service.Mirrors store initial single)
    (keys : List (UsageKey × RateUnit)) :
    store.Holds initial single.snapshot (service.restored keys).2 := by
  rw [restored, mirrors.ofStore]
  exact follows_restoreKeys (store.follows_holds initial) keys _ mirrors.holds

/-- A run that records its jobs saves the snapshots of a reconciler that has
recorded them too. -/
theorem Mirrors.reconcile_of_ok
    (mirrors : service.Mirrors store initial single)
    (keeps : store.KeepsLastSaved initial)
    (reconciled : service.reconcile tenant metered = (.ok r, after)) :
    ∃ next, recordAll tenant (recordsWithUnits metered) single = .ok next ∧
      after.Mirrors store initial next := by
  rw [reconcile_eq] at reconciled
  simp only [recordAll_eq_takeAll] at reconciled ⊢
  split at reconciled
  · cases reconciled
  · rename_i recorded
    split at recorded
    · rename_i recordable
      cases recorded
      cases reconciled
      refine ⟨_, if_pos recordable, mirrors.ofStore, ?_, mirrors.restorable.takeAll tenant _, ?_⟩
      · rw [Reconciler.deviation_takeAll]
        exact mirrors.deviation
      · have loaded := mirrors.holds_restored (orderedKeys (keyUnits tenant metered))
        show store.Holds initial _ (service.saved _ _ _)
        rw [saved, mirrors.ofStore]
        exact (follows_saveKeys (store.follows_holds initial) _ _ loaded).congr
          (mirrors.overlay_snapshot keeps tenant metered)
    · cases recorded

/-- A run that cannot record its jobs only loads. -/
theorem Mirrors.reconcile_of_error
    (mirrors : service.Mirrors store initial single)
    {error : BillingError}
    (reconciled : service.reconcile tenant metered = (.error error, after)) :
    after.Mirrors store initial single := by
  rw [reconcile_eq] at reconciled
  simp only at reconciled
  split at reconciled
  · cases reconciled
    exact ⟨mirrors.ofStore, mirrors.deviation, mirrors.restorable,
      mirrors.holds_restored _⟩
  · cases reconciled

/-- Reading back and rating change nothing of a service but its catalog. -/
theorem exists_settle_eq
    (service : BillingService σ)
    (request : PeriodRequest)
    (windows : List Window)
    (metered : List MeteredJob) :
    ∃ catalog, (service.settle request windows metered).2 =
      { (service.reconcile request.tenant metered).2 with catalog := catalog } := by
  unfold settle
  split
  · rename_i reconciled
    rw [reconciled]
    exact ⟨_, rfl⟩
  · rename_i reconciled
    rw [reconciled]
    split
    · exact ⟨_, rfl⟩
    · exact ⟨_, rfl⟩

theorem Mirrors.meter
    {request : PeriodRequest}
    {windows : List Window}
    {results : List (Outcome MeteredJob)}
    (mirrors : service.Mirrors store initial single)
    (made : service.meter request = .ok (windows, results, after)) :
    after.Mirrors store initial single := by
  obtain ⟨catalog, counts, rfl⟩ := exists_meter_eq made
  exact mirrors.withCatalog catalog counts

/-- After a run the store holds the snapshots of the reconciler that has recorded
its jobs as well. -/
theorem Mirrors.afterRun
    (mirrors : service.Mirrors store initial single)
    (keeps : store.KeepsLastSaved initial)
    (run : PeriodRun) :
    ∃ next, recordAll run.request.tenant (recordsWithUnits (service.recordedJobs run)) single =
        .ok next ∧
      (service.afterRun run).Mirrors store initial next := by
  unfold BillingService.afterRun recordedJobs runPeriodFinishing
  cases made : service.meter run.request with
  | error failure => exact ⟨single, rfl, mirrors⟩
  | ok result =>
    have ⟨windows, results, metering⟩ := result
    have metered := mirrors.meter made
    dsimp only
    cases collected : Metering.collect (run.finish results) with
    | error failure => exact ⟨single, rfl, metered⟩
    | ok jobs =>
      have ⟨catalog, settled⟩ := exists_settle_eq metering run.request windows jobs
      dsimp only
      cases reconciled : metering.reconcile run.request.tenant jobs with
      | mk attempt after =>
        rw [settled, reconciled]
        cases attempt with
        | error error =>
          exact ⟨single, rfl, (metered.reconcile_of_error reconciled).withCatalog catalog _⟩
        | ok r =>
          have ⟨next, recorded, mirrorsNext⟩ := metered.reconcile_of_ok keeps reconciled
          exact ⟨next, recorded, mirrorsNext.withCatalog catalog _⟩

/-! ## Runs -/

theorem Mirrors.afterRuns
    (mirrors : service.Mirrors store initial single)
    (keeps : store.KeepsLastSaved initial)
    (runs : List PeriodRun) :
    ∃ next, recordRuns (service.recordedRuns runs) single = .ok next ∧
      (service.afterRuns runs).Mirrors store initial next := by
  induction runs generalizing service single with
  | nil => exact ⟨single, rfl, mirrors⟩
  | cons run rest inductionHypothesis =>
    have ⟨next, recorded, mirrorsNext⟩ := mirrors.afterRun keeps run
    have ⟨last, restRecorded, mirrorsLast⟩ := inductionHypothesis mirrorsNext
    refine ⟨last, ?_, mirrorsLast⟩
    rw [recordedRuns, recordRuns, recorded]
    exact restRecorded

/-- Persistence does not show: after any runs of a service whose store began empty
and answers with the texts last saved, it answers for every key with the snapshot
of one reconciler that has recorded, in the same order, the jobs of all runs. -/
theorem load_afterRuns_eq_snapshot
    (service : BillingService σ)
    {store : SnapshotStore σ}
    (ofStore : service.store = some store)
    (keeps : store.KeepsLastSaved service.stored)
    (runs : List PeriodRun) :
    ∃ single,
      recordRuns (service.recordedRuns runs)
        (Reconciler.empty service.settings.metering.deviation) = .ok single ∧
      ∀ key, (store.load key (service.afterRuns runs).stored).1 = .ok (single.snapshot key) := by
  have begins : service.Mirrors store service.stored
      (Reconciler.empty service.settings.metering.deviation) :=
    ⟨ofStore, rfl, Reconciler.restorable_empty _, store.holds_initial service.stored⟩
  have ⟨single, recorded, mirrors⟩ := begins.afterRuns keeps runs
  refine ⟨single, recorded, ?_⟩
  intro key
  exact (mirrors.holds.load keeps key).1

/-- The usual service with an empty tariff, and a map as its store. -/
def mappedService : BillingService (Table UsageKey String) :=
  start Settings.standard MeterRegistry.cloud
    (Catalog.empty.insertTariff ⟨"default", Table.empty⟩) (some .table) Table.empty

/-- A period of a volume, and then a longer one, of which the second job finishes
first. -/
def resizedRuns (early closing late last : Fin 86400) : List PeriodRun :=
  [⟨volumeRequest closing [volumeJob 20 early], id⟩,
    ⟨volumeRequest last [volumeJob 20 late, volumeJob 30 early], List.reverse⟩]

/-- The second run restores what the first has saved, and replaces it. -/
theorem snapshot_resizedRuns :
    mappedService.store = some .table ∧
      SnapshotStore.table.KeepsLastSaved mappedService.stored ∧
      ∃ single,
        recordRuns (mappedService.recordedRuns (resizedRuns 600 3600 4200 7200))
          (Reconciler.empty 1) = .ok single ∧
        (∀ key, (SnapshotStore.table.load key
          (mappedService.afterRuns (resizedRuns 600 3600 4200 7200)).stored).1 =
            .ok (single.snapshot key)) ∧
        single.snapshot ⟨"acme", "vol-1", "volume.size"⟩ = some "0:3599:0;3600:7199:640" := by
  have keeps : SnapshotStore.table.KeepsLastSaved mappedService.stored :=
    SnapshotStore.keepsLastSaved_table
  have ⟨single, recorded, loads⟩ :=
    load_afterRuns_eq_snapshot mappedService rfl keeps (resizedRuns 600 3600 4200 7200)
  have held : (mappedService.afterRuns (resizedRuns 600 3600 4200 7200)).stored.get?
      ⟨"acme", "vol-1", "volume.size"⟩ = some "0:3599:0;3600:7199:640" := by decide +kernel
  refine ⟨rfl, keeps, single, recorded, loads, ?_⟩
  rw [← held]
  exact (Except.ok.inj (loads _)).symm

end BillingService

end UsageBilling

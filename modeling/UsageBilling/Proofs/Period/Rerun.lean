import UsageBilling.Proofs.Period.LeapSeconds
import UsageBilling.Proofs.Period.Profiles
import UsageBilling.Proofs.Period.Restoring

/-!
Contract: a run made again.

Owns:
- the usage that a run hands to rating;
- what reconciling makes of the jobs of a run over what the run itself has saved:
  the same coverage and names, with the units that the keys now have;
- a run made again rates the same usage and leaves the same texts, as long as keys
  without a stored text keep their units.

The second run restores the coverage that the first has left and records the same
usage over it. Early usage damages what late usage left, and late usage repairs it.

A key without a stored text gets the unit of its first usage that is kept, and a key
with one that of its first usage. The two may differ if the first usage does not
reach into another second, which takes a sample in a leap second.

Does not own: the prices of a second run.
-/

namespace UsageBilling

namespace BillingService

open Reconciler (Recordable keptOf segment?)

variable {σ : Type} {service service' after : BillingService σ} {store : SnapshotStore σ}
  {held : UsageKey → Option String} {tenant : String} {metered : List MeteredJob}
  {r r' : Reconciler} {usages : List UsageRecord}

/-! ## The usage that is rated -/

/-- The usage that a run hands to rating. -/
def ratedUsage (service : BillingService σ) (run : PeriodRun) : Outcome (List UsageRecord) := do
  let (windows, results, metered) ← service.meter run.request
  let jobs ← Metering.collect (run.finish results)
  match (metered.reconcile run.request.tenant jobs).1 with
  | .error error => Outcome.report error
  | .ok r => readBack run.request.tenant windows r

/-- A run that is made of its parts: what was metered, reconciled and read back. -/
structure Rates (service : BillingService σ) (run : PeriodRun) (windows : List Window)
    (results : List (Outcome MeteredJob)) (metering : BillingService σ) (jobs : List MeteredJob)
    (r : Reconciler) (usages : List UsageRecord) : Prop where
  metered : service.meter run.request = .ok (windows, results, metering)
  collected : Metering.collect (run.finish results) = .ok jobs
  reconciled : (metering.reconcile run.request.tenant jobs).1 = .ok r
  readBack : BillingService.readBack run.request.tenant windows r = .ok usages

variable {run : PeriodRun} {windows : List Window} {results : List (Outcome MeteredJob)}
  {metering : BillingService σ} {jobs : List MeteredJob}

theorem Rates.ratedUsage_eq
    (rates : service.Rates run windows results metering jobs r usages) :
    service.ratedUsage run = .ok usages := by
  unfold ratedUsage
  simp only [rates.metered, rates.collected, rates.reconciled, bind, Except.bind]
  exact rates.readBack

/-- The run rates that usage. -/
theorem Rates.runPeriodFinishing_eq
    (rates : service.Rates run windows results metering jobs r usages) :
    service.runPeriodFinishing run.finish run.request =
      (metering.reconcile run.request.tenant jobs).2.rateUsage run.request
        (keyUnits run.request.tenant jobs) usages := by
  unfold runPeriodFinishing settle
  rw [rates.metered]
  dsimp only
  rw [rates.collected]
  dsimp only
  split
  · rename_i failed
    have reconciled := rates.reconciled
    rw [failed] at reconciled
    cases reconciled
  · rename_i reconciled
    have sameReconciler := rates.reconciled
    rw [reconciled] at sameReconciler ⊢
    cases sameReconciler
    rw [rates.readBack]

/-- A run that ends with an invoice is made of its parts. -/
theorem exists_rates_of_invoice
    {invoice : Invoice}
    (billed : (service.runPeriodFinishing run.finish run.request).1 = .ok invoice) :
    ∃ windows results metering jobs r usages,
      service.Rates run windows results metering jobs r usages := by
  unfold runPeriodFinishing settle at billed
  cases metered : service.meter run.request with
  | error failure =>
    rw [metered] at billed
    cases billed
  | ok parts =>
    have ⟨windows, results, metering⟩ := parts
    rw [metered] at billed
    dsimp only at billed
    cases collected : Metering.collect (run.finish results) with
    | error failure =>
      rw [collected] at billed
      cases billed
    | ok jobs =>
      rw [collected] at billed
      dsimp only at billed
      cases reconciled : metering.reconcile run.request.tenant jobs with
      | mk attempt after =>
        rw [reconciled] at billed
        cases attempt with
        | error error => cases billed
        | ok r =>
          dsimp only at billed
          cases read : readBack run.request.tenant windows r with
          | error failure =>
            rw [read] at billed
            cases billed
          | ok usages =>
            exact ⟨windows, results, metering, jobs, r, usages, metered, collected,
              congrArg Prod.fst reconciled, read⟩

/-! ## Recording again -/

variable {key : UsageKey} {unit : RateUnit} {track : Track}

/-- The reconciler that has recorded metered jobs over what was stored for them. -/
def recorded (service : BillingService σ) (tenant : String) (metered : List MeteredJob) :
    Reconciler :=
  (service.restored (orderedKeys (keyUnits tenant metered))).1.takeAll tenant
    (recordsWithUnits metered)

/-- The texts held once the snapshots of metered keys are saved. -/
def saving (tenant : String) (metered : List MeteredJob) (r : Reconciler)
    (held : UsageKey → Option String) : UsageKey → Option String :=
  overlay ((orderedKeys (keyUnits tenant metered)).map Prod.fst) r.snapshot held

theorem reconcile_eq_recorded
    (service : BillingService σ)
    (recordable : ∀ u ∈ recordsWithUnits metered, Recordable u) :
    (service.reconcile tenant metered).1 = .ok (service.recorded tenant metered) := by
  rw [reconcile_eq]
  dsimp only
  rw [recordAll_eq_takeAll, if_pos recordable]
  rfl

theorem sound_recorded
    (service : BillingService σ)
    (tenant : String)
    (metered : List MeteredJob) :
    (service.recorded tenant metered).Sound :=
  ((service.sound_restored _).1.takeAll tenant _).1

/-- A track that a run leaves is made of the kept usage of its key, beginning with
the text held or with nothing. -/
theorem exists_begun_of_recorded
    (ofStore : service.store = some store)
    (keeps : store.Keeps held service.stored)
    (given : (keyUnits tenant metered).get? key = some unit)
    (found : (service.recorded tenant metered).tracks.get? key = some track) :
    ∃ begun : Track,
      begun.coverage.Kept ∧ begun.coverage.deviation = service.settings.metering.deviation ∧
        begun.resourceName = none ∧
        track = begun.takeAll (keptOf tenant key (recordsWithUnits metered)) ∧
        (held key ≠ none → begun.unit = unit) ∧
        (held key = none → (keptOf tenant key (recordsWithUnits metered)).head?.map Prod.snd =
          some begun.unit) := by
  have restored := get?_restored_of_keeps ofStore keeps tenant metered key
  rw [given, Option.bind_some] at restored
  cases inStore : held key with
  | some text =>
    rw [inStore, Option.map_some] at restored
    have ⟨kept, sameDeviation⟩ := Coverage.kept_ofText text service.settings.metering.deviation
    rw [recorded, Reconciler.get?_takeAll_of_some restored] at found
    refine ⟨_, kept, sameDeviation, rfl, (Option.some.inj found).symm, fun _ => rfl, ?_⟩
    intro missing
    cases missing
  | none =>
    rw [inStore, Option.map_none] at restored
    have ⟨_, sameDeviation⟩ := service.sound_restored (orderedKeys (keyUnits tenant metered))
    rw [recorded, Reconciler.get?_takeAll_of_none restored, sameDeviation] at found
    have ⟨u, first, made⟩ := Option.map_eq_some_iff.mp found
    refine ⟨_, Coverage.kept_empty _, rfl, rfl, made.symm, ?_, ?_⟩
    · intro present
      exact absurd rfl present
    · intro _
      rw [first]
      rfl

theorem eq_none_of_recorded
    (ofStore : service.store = some store)
    (keeps : store.Keeps held service.stored)
    (given : (keyUnits tenant metered).get? key = some unit)
    (missing : (service.recorded tenant metered).tracks.get? key = none) :
    held key = none ∧ keptOf tenant key (recordsWithUnits metered) = [] := by
  have restored := get?_restored_of_keeps ofStore keeps tenant metered key
  rw [given, Option.bind_some] at restored
  cases inStore : held key with
  | some text =>
    rw [inStore, Option.map_some] at restored
    rw [recorded, Reconciler.get?_takeAll_of_some restored] at missing
    cases missing
  | none =>
    rw [inStore, Option.map_none] at restored
    rw [recorded, Reconciler.get?_takeAll_of_none restored, Option.map_eq_none_iff,
      List.head?_eq_none_iff] at missing
    exact ⟨rfl, missing⟩

/-- Usage of a key is metered with a unit for the key. -/
theorem keptOf_eq_nil_of_keyUnits
    (missing : (keyUnits tenant metered).get? key = none) :
    keptOf tenant key (recordsWithUnits metered) = [] := by
  rw [get?_keyUnits_eq_find?, Option.map_eq_none_iff, List.find?_eq_none] at missing
  rw [keptOf, List.filter_eq_nil_iff]
  intro u member isKept
  have ofKey := (of_decide_eq_true isKept).1
  exact missing u member (decide_eq_true ofKey)

/-- The snapshot of a key stands for the coverage that the run has left. -/
theorem exists_snapshot_of_recorded
    (found : (service.recorded tenant metered).tracks.get? key = some track) :
    ∃ text, (service.recorded tenant metered).snapshot key = some text ∧
      Coverage.ofText text service.settings.metering.deviation = track.coverage := by
  have taken : (service.recorded tenant metered).snapshot key = some track.coverage.toText := by
    rw [Reconciler.snapshot, found]
    rfl
  have restorable : (service.recorded tenant metered).Restorable :=
    (service.restorable_restored _).takeAll tenant _
  have readBack := restorable.ofText_snapshot taken
  have sameDeviation : (service.recorded tenant metered).deviation =
      service.settings.metering.deviation := by
    rw [recorded, Reconciler.deviation_takeAll]
    exact (service.sound_restored _).2
  rw [Reconciler.coverage?, found, sameDeviation] at readBack
  exact ⟨_, taken, (Option.some.inj readBack).symm⟩

/-- The jobs of a run, recorded over what the run has saved, leave the tracks that
the run left, but for their units. -/
theorem get?_recorded_again
    (ofStore : service.store = some store)
    (keeps : store.Keeps held service.stored)
    (small : service.settings.metering.deviation ≤ 1)
    (ofStore' : service'.store = some store)
    (keeps' : store.Keeps (saving tenant metered (service.recorded tenant metered) held)
      service'.stored)
    (sameSettings : service'.settings = service.settings)
    (key : UsageKey) :
    (service'.recorded tenant metered).tracks.get? key =
      ((service.recorded tenant metered).tracks.get? key).map fun track =>
        { track with unit := ((keyUnits tenant metered).get? key).getD track.unit } := by
  have restored' := get?_restored_of_keeps ofStore' keeps' tenant metered key
  cases given : (keyUnits tenant metered).get? key with
  | none =>
    have restored := get?_restored_of_keeps ofStore keeps tenant metered key
    rw [given, Option.bind_none] at restored restored'
    rw [recorded, recorded, Reconciler.get?_takeAll_of_none restored,
      Reconciler.get?_takeAll_of_none restored', keptOf_eq_nil_of_keyUnits given]
    rfl
  | some unit =>
    have ofRun : key ∈ (orderedKeys (keyUnits tenant metered)).map Prod.fst :=
      List.mem_map.mpr ⟨_, (mem_orderedKeys_keyUnits_iff tenant metered key unit).mpr given, rfl⟩
    rw [given, Option.bind_some, saving, overlay, if_pos ofRun, sameSettings] at restored'
    cases found : (service.recorded tenant metered).tracks.get? key with
    | none =>
      obtain ⟨notHeld, noneKept⟩ := eq_none_of_recorded ofStore keeps given found
      rw [Reconciler.snapshot, found, notHeld] at restored'
      rw [recorded, Reconciler.get?_takeAll_of_none restored', noneKept]
      rfl
    | some track =>
      obtain ⟨begun, kept, ofDeviation, nameless, made, _⟩ :=
        exists_begun_of_recorded ofStore keeps given found
      obtain ⟨_, taken, ofText⟩ := exists_snapshot_of_recorded found
      rw [taken, Option.some_or, Option.map_some, ofText] at restored'
      rw [recorded, Reconciler.get?_takeAll_of_some restored']
      have again := Track.takeAll_again kept (ofDeviation ▸ small)
        (keptOf tenant key (recordsWithUnits metered)) unit
      rw [nameless, ← made] at again
      exact congrArg some again

/-- Whether keys without a stored text keep their units: the first usage of such a
key that is kept has the unit of the first usage of the key. -/
def KeepsUnits (tenant : String) (metered : List MeteredJob)
    (held : UsageKey → Option String) : Prop :=
  ∀ key, held key = none → ∀ u ∈ (keptOf tenant key (recordsWithUnits metered)).head?,
    (keyUnits tenant metered).get? key = some u.2

/-- Keys of which all usage has one unit keep it. -/
theorem keepsUnits_of_oneUnit
    (oneUnit : OneUnitEach tenant (recordsWithUnits metered))
    (held : UsageKey → Option String) :
    KeepsUnits tenant metered held := by
  intro key _ u first
  have ⟨ofAll, isKept⟩ := List.mem_filter.mp (List.mem_of_mem_head? first)
  have ofKey := (of_decide_eq_true isKept).1
  rw [get?_keyUnits_eq_find?]
  cases found : (recordsWithUnits metered).find? fun v => key = UsageKey.ofRecord tenant v.1 with
  | none =>
    rw [List.find?_eq_none] at found
    exact absurd (decide_eq_true ofKey) (found u ofAll)
  | some v =>
    have vOfKey : key = UsageKey.ofRecord tenant v.1 := by
      simpa using List.find?_some found
    exact congrArg some (oneUnit v (List.mem_of_find?_eq_some found) u ofAll
      (vOfKey.symm.trans ofKey))

/-- Keys keep their units if all usage is kept. -/
theorem keepsUnits_of_reaches
    (recordable : ∀ u ∈ recordsWithUnits metered, Recordable u)
    (reaches : ∀ u ∈ recordsWithUnits metered, Reconciler.Reaches u.1)
    (tenant : String)
    (held : UsageKey → Option String) :
    KeepsUnits tenant metered held := by
  intro key _ u first
  have allKept : keptOf tenant key (recordsWithUnits metered) =
      (recordsWithUnits metered).filter fun u => key = UsageKey.ofRecord tenant u.1 := by
    apply List.filter_congr
    intro v member
    simp [recordable v member (reaches v member)]
  rw [allKept, List.head?_filter] at first
  rw [get?_keyUnits_eq_find?, Option.mem_def.mp first, Option.map_some]

/-- Then the jobs leave the tracks as they were. -/
theorem same_recorded_again
    (ofStore : service.store = some store)
    (keeps : store.Keeps held service.stored)
    (small : service.settings.metering.deviation ≤ 1)
    (ofStore' : service'.store = some store)
    (keeps' : store.Keeps (saving tenant metered (service.recorded tenant metered) held)
      service'.stored)
    (sameSettings : service'.settings = service.settings)
    (keepsUnits : KeepsUnits tenant metered held) :
    (service.recorded tenant metered).Same (service'.recorded tenant metered) := by
  constructor
  · rw [recorded, recorded, Reconciler.deviation_takeAll, Reconciler.deviation_takeAll,
      (service.sound_restored _).2, (service'.sound_restored _).2, sameSettings]
  · intro key
    rw [get?_recorded_again ofStore keeps small ofStore' keeps' sameSettings key]
    cases found : (service.recorded tenant metered).tracks.get? key with
    | none => rfl
    | some track =>
      cases given : (keyUnits tenant metered).get? key with
      | none => rfl
      | some unit =>
        have ⟨begun, _, _, _, made, ofHeld, ofKept⟩ :=
          exists_begun_of_recorded ofStore keeps given found
        have sameUnit : begun.unit = unit := by
          by_cases inStore : held key = none
          · have ⟨u, first, ofFirst⟩ := Option.map_eq_some_iff.mp (ofKept inStore)
            have ofKey := keepsUnits key inStore u first
            rw [given, ofFirst] at ofKey
            exact (Option.some.inj ofKey).symm
          · exact ofHeld inStore
        have ofTrack : track.unit = unit := by
          rw [made, Reconciler.unit_takeAll, sameUnit]
        rw [Option.map_some, Option.map_some, Option.getD_some, ← ofTrack]
        rfl

/-! ## A run made again -/

/-- What a run leaves behind if its jobs can be recorded. -/
theorem keeps_afterRun
    (ofStore : service.store = some store)
    (keeps : store.Keeps held service.stored)
    (made : service.meter run.request = .ok (windows, results, metering))
    (collected : Metering.collect (run.finish results) = .ok jobs)
    (recordable : ∀ u ∈ recordsWithUnits jobs, Recordable u) :
    (service.afterRun run).settings = service.settings ∧
      (service.afterRun run).registry = service.registry ∧
      (service.afterRun run).store = some store ∧
      store.Keeps (saving run.request.tenant jobs (service.recorded run.request.tenant jobs) held)
        (service.afterRun run).stored := by
  have ⟨catalog, counts, ofService⟩ := exists_meter_eq made
  have meteringStore : metering.store = some store := by
    rw [ofService]
    exact ofStore
  have meteringKeeps : store.Keeps held metering.stored := by
    rw [ofService]
    exact keeps
  have ⟨stored, reconciled, saved⟩ := exists_reconcile_of_keeps run.request.tenant meteringStore
    meteringKeeps recordable
  have ⟨after, settled⟩ := exists_settle_eq metering run.request windows jobs
  have left : service.afterRun run =
      { metering with stored := stored, catalog := after } := by
    unfold afterRun runPeriodFinishing
    rw [made]
    dsimp only
    rw [collected]
    dsimp only
    rw [settled, reconciled]
  subst ofService
  rw [left]
  exact ⟨rfl, rfl, ofStore, saved⟩

theorem recordedJobs_of_rates
    (rates : service.Rates run windows results metering jobs r usages) :
    service.recordedJobs run = jobs := by
  unfold recordedJobs
  rw [rates.metered]
  dsimp only
  rw [rates.collected]
  dsimp only
  rw [rates.reconciled]

/-- A job that is recorded is one of the results, in whatever order jobs finish. -/
theorem Rates.mem_results
    (rates : service.Rates run windows results metering jobs r usages)
    (permutes : ∀ results, (run.finish results).Perm results)
    {job : MeteredJob}
    (inJobs : job ∈ jobs) :
    .ok job ∈ results := by
  have ⟨result, inFinished, isJob⟩ :=
    exists_of_mem_forall₂ ((mapM_eq_ok_iff _ _ _).mp rates.collected) inJobs
  have isMetered : result = .ok job := (joined_eq_ok_iff result job).mp isJob
  rw [isMetered] at inFinished
  exact (permutes results).mem_iff.mp inFinished

/-- A run for samples in no leap second, whose jobs finish in some order. -/
structure InPlainSeconds (run : PeriodRun) : Prop where
  permutes : ∀ results, (run.finish results).Perm results
  plain : ∀ job ∈ run.request.jobs, ∀ s ∈ job.samples, s.timestamp.isLeap = false

/-- Then all usage that is metered is kept, and keys keep their units. -/
theorem Rates.keepsUnits
    (rates : service.Rates run windows results metering jobs r usages)
    (inPlainSeconds : InPlainSeconds run)
    (tenant : String)
    (held : UsageKey → Option String) :
    KeepsUnits tenant jobs held := by
  apply keepsUnits_of_reaches (recordable_of_reconcile rates.reconciled)
  intro u member
  have ⟨job, inJobs, inRecords⟩ := List.mem_flatMap.mp member
  have ⟨record, inJob, ofRecord⟩ := List.mem_map.mp inRecords
  rw [← ofRecord]
  exact reaches_of_meter rates.metered inPlainSeconds.plain
    (rates.mem_results inPlainSeconds.permutes inJobs) record inJob

theorem usages_of_billed
    {invoice : Invoice}
    (rates : service.Rates run windows results metering jobs r usages)
    (billed : (service.runPeriodFinishing run.finish run.request).1 = .ok invoice) :
    invoice.usages.Perm usages := by
  rw [rates.runPeriodFinishing_eq] at billed
  exact Rating.usages_invoice (Prod.ext billed rfl)

/-- Saving the snapshots of tracks that differ in their units changes no text. -/
theorem saving_again
    {units : UsageKey → Track → RateUnit}
    (again : ∀ key, r'.tracks.get? key =
      (r.tracks.get? key).map fun track => { track with unit := units key track }) :
    saving tenant metered r' (saving tenant metered r held) = saving tenant metered r held := by
  funext key
  have sameSnapshot : r'.snapshot key = r.snapshot key := by
    rw [Reconciler.snapshot, Reconciler.snapshot, again, Option.map_map]
    rfl
  unfold saving overlay
  split
  · rw [sameSnapshot, ← Option.or_assoc, Option.or_self]
  · rfl

/-- A run made again is stable: once a run has ended with an invoice, the same run
of the same service rates the same usage, as long as keys without a stored text keep
their units, which they do if no sample is in a leap second; and in any case it leaves
every stored text as it was. -/
theorem ratedUsage_afterRun
    (service : BillingService σ)
    {store : SnapshotStore σ}
    {held : UsageKey → Option String}
    (ofStore : service.store = some store)
    (keeps : store.Keeps held service.stored)
    (small : service.settings.metering.deviation ≤ 1)
    (run : PeriodRun)
    {invoice : Invoice}
    (billed : (service.runPeriodFinishing run.finish run.request).1 = .ok invoice) :
    ∃ usages, service.ratedUsage run = .ok usages ∧ invoice.usages.Perm usages ∧
      (KeepsUnits run.request.tenant (service.recordedJobs run) held →
        (service.afterRun run).ratedUsage run = .ok usages) ∧
      (InPlainSeconds run →
        KeepsUnits run.request.tenant (service.recordedJobs run) held) ∧
      ∀ key, (store.load key ((service.afterRun run).afterRun run).stored).1 =
        (store.load key (service.afterRun run).stored).1 := by
  have ⟨windows, results, metering, jobs, r, usages, rates⟩ := exists_rates_of_invoice billed
  have recordable := recordable_of_reconcile rates.reconciled
  have ⟨sameSettings, sameRegistry, ofStore', keeps'⟩ :=
    keeps_afterRun ofStore keeps rates.metered rates.collected recordable
  have ⟨_, catalog, counts, metered'⟩ := meter_congr sameSettings.symm sameRegistry.symm
    (service.serviceFor_afterRun run).symm rates.metered
  have ofService : r = service.recorded run.request.tenant jobs := by
    have ⟨_, _, sameService⟩ := exists_meter_eq rates.metered
    have reconciled := rates.reconciled
    rw [reconcile_eq_recorded metering recordable, sameService] at reconciled
    exact (Except.ok.inj reconciled).symm
  refine ⟨usages, rates.ratedUsage_eq, usages_of_billed rates billed, ?_, ?_, ?_⟩
  · rw [recordedJobs_of_rates rates]
    intro keepsUnits
    have same := same_recorded_again ofStore keeps small ofStore' keeps' sameSettings keepsUnits
    have sameReading := readBack_eq_ok_iff_of_same same (sound_recorded service _ _)
      (sound_recorded (service.afterRun run) _ _) run.request.tenant windows usages
    have read := rates.readBack
    rw [ofService] at read
    have again : Rates (service.afterRun run) run windows results _ jobs
        ((service.afterRun run).recorded run.request.tenant jobs) usages :=
      ⟨metered', rates.collected, reconcile_eq_recorded _ recordable, sameReading.mp read⟩
    exact again.ratedUsage_eq
  · rw [recordedJobs_of_rates rates]
    intro inPlainSeconds
    exact rates.keepsUnits inPlainSeconds _ held
  · intro key
    have ⟨_, _, _, keeps''⟩ := keeps_afterRun ofStore' keeps' metered' rates.collected recordable
    have again := get?_recorded_again ofStore keeps small ofStore' keeps' sameSettings
    rw [keeps''.load_eq, keeps'.load_eq, saving_again again]

/-- A volume that two jobs report, with different sizes. -/
def resizedRun (early late closing : Fin 86400) : PeriodRun :=
  ⟨volumeRequest closing [volumeJob 20 early, volumeJob 30 late], id⟩

/-- A run that begins with an empty store rates the size reported last, and when it
is made again with the store that it has left. -/
theorem ratedUsage_resized_again :
    ∃ usages, mappedService.ratedUsage (resizedRun 600 1200 3600) = .ok usages ∧
      (mappedService.afterRun (resizedRun 600 1200 3600)).ratedUsage (resizedRun 600 1200 3600) =
        .ok usages ∧
      usages.map UsageRecord.volume = [.ofInt 30] := by
  let run := resizedRun 600 1200 3600
  have volumes : (mappedService.ratedUsage run).map (·.map UsageRecord.volume) =
      .ok [.ofInt 30] := by
    decide +kernel
  have invoiced :
      (mappedService.runPeriodFinishing run.finish run.request).1.toOption.isSome = true := by
    decide +kernel
  cases billed : (mappedService.runPeriodFinishing run.finish run.request).1 with
  | error failure =>
    rw [billed] at invoiced
    cases invoiced
  | ok invoice =>
    have ⟨usages, rated, _, again, _, _⟩ := ratedUsage_afterRun mappedService rfl
      (SnapshotStore.keeps_table Table.empty) (by decide) run billed
    have quantities :
        ∀ u ∈ recordsWithUnits (mappedService.recordedJobs run), u.2 = .quantity := by
      decide +kernel
    have oneUnit :
        OneUnitEach run.request.tenant (recordsWithUnits (mappedService.recordedJobs run)) :=
      fun u inJobs v otherInJobs _ => (quantities u inJobs).trans (quantities v otherInJobs).symm
    rw [rated] at volumes
    exact ⟨usages, rated, again (keepsUnits_of_oneUnit oneUnit _), Except.ok.inj volumes⟩

theorem nanosPerSecond_lt : nanosPerSecond < 2000000000 := by
  decide

/-- The leap second that follows the second of an instant. -/
def leapAfter (t : Instant) : Instant :=
  { t with nanos := nanosPerSecond, nanos_lt := nanosPerSecond_lt }

/-- An instance that is active in a second and stopped in the leap second after it.
Its profile is named like the meter of volumes. -/
def leapingJob (active : Fin 86400) : UsageJob :=
  ⟨none, "vol-1", none, "instance",
    [⟨.ofSecond active, some (.ofInt 1), .object [("flavor", .text "volume.size")]⟩,
      ⟨leapAfter (.ofSecond active), some (.ofInt 5),
        .object [("flavor", .text "volume.size")]⟩]⟩

def leapingRun (active sampled closing : Fin 86400) : PeriodRun :=
  ⟨volumeRequest closing [leapingJob active, volumeJob 20 sampled], id⟩

/-- What the run meters. -/
def leapingJobs (opening active closing : Fin 86400) : List MeteredJob :=
  [⟨.time, [⟨"volume.size", .ofSecond active, leapAfter (.ofSecond active), .ofInt 1,
      some "vol-1", none⟩]⟩,
    ⟨.quantity, [⟨"volume.size", .ofSecond opening, .ofSecond closing, .ofInt 20,
      some "vol-1", none⟩]⟩]

/-- What the run leaves of the service. -/
def leapedService : BillingService (Table UsageKey String) :=
  { mappedService with
    catalog := (mappedService.catalog.provision "volume.size" .time).2
    stored := Table.empty.insert ⟨"acme", "vol-1", "volume.size"⟩ "0:3599:640"
    counts := ⟨3, 0, 2⟩ }

set_option maxRecDepth 20000 in
private theorem afterRun_leapingRun :
    mappedService.afterRun (leapingRun 59 600 3600) = leapedService := by
  cbv

set_option maxRecDepth 20000 in
private theorem meter_leapingRun :
    leapedService.meter (leapingRun 59 600 3600).request = .ok ([⟨.ofSecond 0, 3600⟩],
      (leapingJobs 0 59 3600).map .ok, { leapedService with counts := ⟨6, 0, 4⟩ }) := by
  cbv

set_option maxRecDepth 20000 in
private theorem isSome_leapingRun :
    (mappedService.runPeriod (leapingRun 59 600 3600).request).1.toOption.isSome = true := by
  cbv

set_option maxRecDepth 20000 in
/-- The usage that ends in the leap second gives its key the unit of time, but is not
kept. So the first run, which ends with an invoice, rates the size of the volume, and
the second the seconds for which it was held. -/
theorem not_stable_leapingRun :
    (mappedService.runPeriod (leapingRun 59 600 3600).request).1.toOption.isSome ∧
      (mappedService.ratedUsage (leapingRun 59 600 3600)).map (·.map UsageRecord.volume) =
        .ok [.ofInt 20] ∧
      ((mappedService.afterRun (leapingRun 59 600 3600)).ratedUsage (leapingRun 59 600 3600)).map
        (·.map UsageRecord.volume) = .ok [.ofInt 3600] := by
  refine ⟨isSome_leapingRun, ?_, ?_⟩
  · cbv
  · rw [afterRun_leapingRun, ratedUsage, meter_leapingRun]
    decide +kernel

end BillingService

end UsageBilling

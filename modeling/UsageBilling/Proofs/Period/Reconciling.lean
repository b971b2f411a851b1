import UsageBilling.Period.Service
import UsageBilling.Proofs.Reconciler.Deliveries
import UsageBilling.Proofs.Reconciler.Reading

/-!
Contract: the reconciler of a period.

Owns:
- restoring keys and recording usage in turn keep the state of a reconciler;
- reconciling as three steps: restoring, recording and saving;
- recording the usage of one unit as a sequence of deliveries;
- reading back one window after the other.

Does not own: what a window is read back as.
-/

namespace UsageBilling.BillingService

variable {σ : Type} {service : BillingService σ} {store : SnapshotStore σ} {tenant : String}
  {r after : Reconciler}

theorem sound_restoreKey
    (sound : r.Sound)
    (store : SnapshotStore σ)
    (key : UsageKey)
    (unit : RateUnit)
    (stored : σ) :
    (restoreKey store key unit r stored).1.Sound ∧
      (restoreKey store key unit r stored).1.deviation = r.deviation := by
  unfold restoreKey
  split
  · exact sound.restore key _ unit
  · exact ⟨sound, rfl⟩

theorem sound_restoreKeys
    (sound : r.Sound)
    (store : SnapshotStore σ)
    (keys : List (UsageKey × RateUnit))
    (stored : σ) :
    (restoreKeys store keys r stored).1.Sound ∧
      (restoreKeys store keys r stored).1.deviation = r.deviation := by
  induction keys generalizing r stored with
  | nil => exact ⟨sound, rfl⟩
  | cons entry rest inductionHypothesis =>
    obtain ⟨key, unit⟩ := entry
    obtain ⟨restoredSound, sameDeviation⟩ := sound_restoreKey sound store key unit stored
    obtain ⟨restSound, restDeviation⟩ :=
      inductionHypothesis restoredSound (restoreKey store key unit r stored).2
    exact ⟨restSound, restDeviation.trans sameDeviation⟩

theorem recordAll_cons_eq_ok_iff
    (record : UsageRecord)
    (unit : RateUnit)
    (rest : List (UsageRecord × RateUnit)) :
    recordAll tenant ((record, unit) :: rest) r = .ok after ↔
      ∃ next, r.record tenant record unit = .ok next ∧
        recordAll tenant rest next = .ok after := by
  rw [recordAll]
  cases r.record tenant record unit with
  | error error => simp [bind, Except.bind]
  | ok next => simp [bind, Except.bind]

theorem sound_recordAll
    {records : List (UsageRecord × RateUnit)}
    (sound : r.Sound)
    (recorded : recordAll tenant records r = .ok after) :
    after.Sound ∧ after.deviation = r.deviation := by
  induction records generalizing r with
  | nil =>
    cases recorded
    exact ⟨sound, rfl⟩
  | cons entry rest inductionHypothesis =>
    obtain ⟨next, first, later⟩ := (recordAll_cons_eq_ok_iff entry.1 entry.2 rest).mp recorded
    obtain ⟨nextSound, sameDeviation⟩ := sound.record first
    obtain ⟨afterSound, afterDeviation⟩ := inductionHypothesis nextSound later
    exact ⟨afterSound, afterDeviation.trans sameDeviation⟩

/-! ## The steps of reconciling -/

/-- The reconciler before anything is recorded, and what is stored then. -/
def restored (service : BillingService σ) (keys : List (UsageKey × RateUnit)) : Reconciler × σ :=
  match service.store with
  | some store =>
    restoreKeys store keys (Reconciler.empty service.settings.metering.deviation) service.stored
  | none => (Reconciler.empty service.settings.metering.deviation, service.stored)

def saved (service : BillingService σ) (keys : List UsageKey) (r : Reconciler) (stored : σ) : σ :=
  match service.store with
  | some store => saveKeys store keys r stored
  | none => stored

theorem reconcile_eq
    (service : BillingService σ)
    (tenant : String)
    (metered : List MeteredJob) :
    service.reconcile tenant metered =
      let keys := orderedKeys (keyUnits tenant metered)
      let (fresh, loaded) := service.restored keys
      match recordAll tenant (recordsWithUnits metered) fresh with
      | .error error => (.error error, { service with stored := loaded })
      | .ok r =>
        (.ok r, { service with stored := service.saved (keys.map Prod.fst) r loaded }) := by
  unfold reconcile restored saved
  cases service.store <;> rfl

/-- Whatever the store held, recording begins with a sound reconciler. -/
theorem sound_restored
    (service : BillingService σ)
    (keys : List (UsageKey × RateUnit)) :
    (service.restored keys).1.Sound ∧
      (service.restored keys).1.deviation = service.settings.metering.deviation := by
  have fresh := Reconciler.sound_empty service.settings.metering.deviation
  unfold restored
  cases service.store with
  | none => exact ⟨fresh, rfl⟩
  | some store => exact sound_restoreKeys fresh store keys service.stored

/-- Whatever the store held, the reconciler of a period is sound. -/
theorem sound_reconcile
    {metered : List MeteredJob}
    (reconciled : (service.reconcile tenant metered).1 = .ok r) :
    r.Sound := by
  rw [reconcile_eq] at reconciled
  simp only at reconciled
  split at reconciled
  · cases reconciled
  · rename_i recorded
    cases reconciled
    exact (sound_recordAll (service.sound_restored _).1 recorded).1

/-- Usage of one unit is recorded as deliveries for the tenant. -/
theorem recordAll_eq_recordEach
    (tenant : String)
    (unit : RateUnit)
    (records : List UsageRecord)
    (r : Reconciler) :
    recordAll tenant (records.map fun record => (record, unit)) r =
      r.recordEach unit (records.map fun record => ⟨tenant, record⟩) := by
  induction records generalizing r with
  | nil => rfl
  | cons record rest inductionHypothesis =>
    rw [List.map_cons, List.map_cons, recordAll, Reconciler.recordEach, List.foldlM_cons]
    apply bind_congr
    intro next
    exact inductionHypothesis next

theorem readBack_eq_ok_iff
    (tenant : String)
    (windows : List Window)
    (r : Reconciler)
    (usages : List UsageRecord) :
    readBack tenant windows r = .ok usages ↔
      ∃ collected, List.Forall₂ (fun w own => r.usageIn tenant w = .ok own) windows collected ∧
        usages = collected.flatten := by
  simp only [← mapM_eq_ok_iff]
  rw [readBack]
  cases windows.mapM (r.usageIn tenant) with
  | error failure => simp [bind, Except.bind]
  | ok collected => simp [bind, Except.bind, pure, Except.pure, eq_comm]

end UsageBilling.BillingService

import UsageBilling.Proofs.Period.Persistence
import UsageBilling.Proofs.Reconciler.Replay

/-!
Contract: reconciling with a store that holds texts from the start.

Owns:
- restoring a key takes the text held for it, if there is one, and whatever is
  restored can be restored again;
- the tracks that a run begins with: for each of its keys the text held, with the
  unit of the key;
- what reconciling leaves in the store: the snapshots of its keys over the texts
  that were held.

Does not own: what the texts say.
-/

namespace UsageBilling.BillingService

variable {σ : Type} {service after : BillingService σ} {store : SnapshotStore σ} {stored : σ}
  {held : UsageKey → Option String} {tenant : String} {metered : List MeteredJob}
  {key : UsageKey} {unit : RateUnit} {r : Reconciler}

/-! ## Keys and their units -/

theorem mem_orderedKeys_keyUnits_iff
    (tenant : String)
    (metered : List MeteredJob)
    (key : UsageKey)
    (unit : RateUnit) :
    (key, unit) ∈ orderedKeys (keyUnits tenant metered) ↔
      (keyUnits tenant metered).get? key = some unit := by
  rw [orderedKeys, (List.mergeSort_perm _ _).mem_iff]
  exact (unique_keyUnits tenant metered).mem_entries_iff key unit

theorem not_mem_orderedKeys_of_no_unit
    (missing : (keyUnits tenant metered).get? key = none) :
    key ∉ (orderedKeys (keyUnits tenant metered)).map Prod.fst := by
  intro member
  have ⟨entry, inKeys, ofKey⟩ := List.mem_map.mp member
  have found := (mem_orderedKeys_keyUnits_iff tenant metered entry.1 entry.2).mp inKeys
  rw [ofKey, missing] at found
  cases found

theorem nodup_orderedKeys_keyUnits
    (tenant : String)
    (metered : List MeteredJob) :
    ((orderedKeys (keyUnits tenant metered)).map Prod.fst).Nodup :=
  ((List.mergeSort_perm _ _).map Prod.fst).nodup_iff.mpr (unique_keyUnits tenant metered)

theorem get?_keyUnits_eq_find?
    (tenant : String)
    (metered : List MeteredJob)
    (key : UsageKey) :
    (keyUnits tenant metered).get? key =
      ((recordsWithUnits metered).find? fun u => key = UsageKey.ofRecord tenant u.1).map
        Prod.snd := by
  rw [keyUnits_eq_foldl, get?_foldl_addUnit, Table.get?_empty, Option.none_or]

/-! ## Restoring -/

/-- The reconciler once the text held for a key is restored, if there is one. -/
def restoreHeld (held : UsageKey → Option String) (key : UsageKey) (unit : RateUnit)
    (r : Reconciler) : Reconciler :=
  match held key with
  | some text => r.restore key text unit
  | none => r

theorem restoreKey_of_keeps
    (keeps : store.Keeps held stored)
    (key : UsageKey)
    (unit : RateUnit)
    (r : Reconciler) :
    restoreKey store key unit r stored =
      (restoreHeld held key unit r, store.perform stored (.load key)) := by
  rw [restoreKey, keeps.load_eq key, restoreHeld]
  cases held key with
  | none => rfl
  | some text => rfl

theorem deviation_restoreHeld
    (held : UsageKey → Option String)
    (key : UsageKey)
    (unit : RateUnit)
    (r : Reconciler) :
    (restoreHeld held key unit r).deviation = r.deviation := by
  unfold restoreHeld
  split
  · rfl
  · rfl

theorem get?_restoreHeld_of_ne
    {other : UsageKey}
    (differ : other ≠ key)
    (unit : RateUnit)
    (r : Reconciler) :
    (restoreHeld held key unit r).tracks.get? other = r.tracks.get? other := by
  unfold restoreHeld
  split
  · rw [Reconciler.restore, Table.get?_insert, if_neg differ]
  · rfl

theorem get?_restoreHeld_of_fresh
    (fresh : r.tracks.get? key = none)
    (unit : RateUnit) :
    (restoreHeld held key unit r).tracks.get? key =
      (held key).map fun text => ⟨Coverage.ofText text r.deviation, unit, none⟩ := by
  unfold restoreHeld
  cases held key with
  | none => exact fresh
  | some text =>
    show (r.restore key text unit).tracks.get? key = _
    rw [Reconciler.restore, Table.get?_insert, if_pos rfl, Reconciler.trackOf, fresh]
    rfl

theorem restoreKeys_of_keeps
    (keeps : store.Keeps held stored)
    (keys : List (UsageKey × RateUnit))
    (r : Reconciler) :
    (restoreKeys store keys r stored).1 =
      keys.foldl (fun r entry => restoreHeld held entry.1 entry.2 r) r := by
  induction keys generalizing r stored with
  | nil => rfl
  | cons entry rest inductionHypothesis =>
    have restored := restoreKey_of_keeps keeps entry.1 entry.2 r
    have rest := inductionHypothesis (keeps.perform (.load entry.1))
      (restoreHeld held entry.1 entry.2 r)
    rw [restoreKeys, restored]
    exact rest

theorem get?_foldl_restoreHeld_of_not_mem
    {keys : List (UsageKey × RateUnit)}
    (other : key ∉ keys.map Prod.fst)
    (r : Reconciler) :
    (keys.foldl (fun r entry => restoreHeld held entry.1 entry.2 r) r).tracks.get? key =
      r.tracks.get? key := by
  induction keys generalizing r with
  | nil => rfl
  | cons entry rest inductionHypothesis =>
    rw [List.map_cons, List.mem_cons, not_or] at other
    exact (inductionHypothesis other.2 _).trans (get?_restoreHeld_of_ne other.1 entry.2 r)

theorem get?_foldl_restoreHeld_of_mem
    {keys : List (UsageKey × RateUnit)}
    (unique : (keys.map Prod.fst).Nodup)
    (member : (key, unit) ∈ keys)
    (fresh : r.tracks.get? key = none) :
    (keys.foldl (fun r entry => restoreHeld held entry.1 entry.2 r) r).tracks.get? key =
      (held key).map fun text => ⟨Coverage.ofText text r.deviation, unit, none⟩ := by
  induction keys generalizing r with
  | nil => cases member
  | cons entry rest inductionHypothesis =>
    have ⟨notInRest, restUnique⟩ := List.nodup_cons.mp unique
    rcases List.mem_cons.mp member with isHead | inRest
    · rw [← isHead] at notInRest ⊢
      exact (get?_foldl_restoreHeld_of_not_mem notInRest _).trans
        (get?_restoreHeld_of_fresh fresh unit)
    · have differ : key ≠ entry.1 := by
        intro same
        exact notInRest (same ▸ List.mem_map.mpr ⟨_, inRest, rfl⟩)
      have stillFresh : (restoreHeld held entry.1 entry.2 r).tracks.get? key = none := by
        rw [get?_restoreHeld_of_ne differ]
        exact fresh
      have restored := inductionHypothesis restUnique inRest stillFresh
      rw [deviation_restoreHeld] at restored
      exact restored

/-- A run begins with the texts held for its keys, each with the unit of its key,
and with nothing for other keys. -/
theorem get?_restored_of_keeps
    (ofStore : service.store = some store)
    (keeps : store.Keeps held service.stored)
    (tenant : String)
    (metered : List MeteredJob)
    (key : UsageKey) :
    (service.restored (orderedKeys (keyUnits tenant metered))).1.tracks.get? key =
      ((keyUnits tenant metered).get? key).bind fun unit => (held key).map fun text =>
        ⟨Coverage.ofText text service.settings.metering.deviation, unit, none⟩ := by
  rw [restored, ofStore]
  dsimp only
  rw [restoreKeys_of_keeps keeps]
  cases given : (keyUnits tenant metered).get? key with
  | some unit =>
    exact get?_foldl_restoreHeld_of_mem (nodup_orderedKeys_keyUnits tenant metered)
      ((mem_orderedKeys_keyUnits_iff tenant metered key unit).mpr given) rfl
  | none =>
    exact get?_foldl_restoreHeld_of_not_mem (not_mem_orderedKeys_of_no_unit given) _

theorem restorable_restoreKeys
    (restorable : r.Restorable)
    (store : SnapshotStore σ)
    (keys : List (UsageKey × RateUnit))
    (stored : σ) :
    (restoreKeys store keys r stored).1.Restorable := by
  induction keys generalizing r stored with
  | nil => exact restorable
  | cons entry rest inductionHypothesis =>
    have restored : (restoreKey store entry.1 entry.2 r stored).1.Restorable := by
      unfold restoreKey
      split
      · exact restorable.restore entry.1 _ entry.2
      · exact restorable
    exact inductionHypothesis restored _

theorem restorable_restored
    (service : BillingService σ)
    (keys : List (UsageKey × RateUnit)) :
    (service.restored keys).1.Restorable := by
  have fresh := Reconciler.restorable_empty service.settings.metering.deviation
  unfold restored
  cases service.store with
  | none => exact fresh
  | some store => exact restorable_restoreKeys fresh store keys service.stored

/-! ## Reconciling -/

/-- Reconciling that succeeds has recorded all usage over what was restored, and
has laid the snapshots of its keys over the texts held. -/
theorem exists_reconcile_of_keeps
    (tenant : String)
    (ofStore : service.store = some store)
    (keeps : store.Keeps held service.stored)
    (recordable : ∀ u ∈ recordsWithUnits metered, Reconciler.Recordable u) :
    let keys := orderedKeys (keyUnits tenant metered)
    let r := (service.restored keys).1.takeAll tenant (recordsWithUnits metered)
    ∃ stored, service.reconcile tenant metered = (.ok r, { service with stored := stored }) ∧
      store.Keeps (overlay (keys.map Prod.fst) r.snapshot held) stored := by
  intro keys r
  have loaded : store.Keeps held (service.restored keys).2 := by
    rw [restored, ofStore]
    exact follows_restoreKeys store.follows_keeps keys _ keeps
  refine ⟨service.saved (keys.map Prod.fst) r (service.restored keys).2, ?_, ?_⟩
  · rw [reconcile_eq]
    dsimp only
    rw [recordAll_eq_takeAll, if_pos recordable]
  · rw [saved, ofStore]
    exact follows_saveKeys store.follows_keeps _ r loaded

/-- Reconciling fails exactly if some usage cannot be recorded. -/
theorem recordable_of_reconcile
    (reconciled : (service.reconcile tenant metered).1 = .ok r) :
    ∀ u ∈ recordsWithUnits metered, Reconciler.Recordable u := by
  rw [reconcile_eq] at reconciled
  dsimp only at reconciled
  rw [recordAll_eq_takeAll] at reconciled
  split at reconciled
  · cases reconciled
  · rename_i recorded
    split at recorded
    · assumption
    · cases recorded

end UsageBilling.BillingService

import UsageBilling.Proofs.Period.Rerun
import UsageBilling.Proofs.Reconciler.ReadingOrder

/-!
Contract: the units of the usage that a run reads back.

Owns:
- a run tracks the keys of its metered usage and no others, whatever a store hands out;
- the unit of all usage that a run rates is found under the key of the usage.

Does not own: which unit is found, when usage of a key is metered in several.
-/

namespace UsageBilling.BillingService

variable {σ : Type} {service metering : BillingService σ}
  {tenant : String} {metered : List MeteredJob} {key : UsageKey} {track : Track}

/-! ## Keys without metered usage -/

theorem get?_restoreKey_of_ne
    {other : UsageKey}
    (differ : other ≠ key)
    (store : SnapshotStore σ)
    (unit : RateUnit)
    (r : Reconciler)
    (stored : σ) :
    (restoreKey store key unit r stored).1.tracks.get? other = r.tracks.get? other := by
  unfold restoreKey
  split
  · rw [Reconciler.restore, Table.get?_insert, if_neg differ]
  · rfl

theorem get?_restoreKeys_of_not_mem
    {keys : List (UsageKey × RateUnit)}
    (other : key ∉ keys.map Prod.fst)
    (store : SnapshotStore σ)
    (r : Reconciler)
    (stored : σ) :
    (restoreKeys store keys r stored).1.tracks.get? key = r.tracks.get? key := by
  induction keys generalizing r stored with
  | nil => rfl
  | cons entry rest inductionHypothesis =>
    rw [List.map_cons, List.mem_cons, not_or] at other
    exact (inductionHypothesis other.2 _ _).trans
      (get?_restoreKey_of_ne other.1 store entry.2 r stored)

/-- A store is asked for the keys of metered usage only. -/
theorem get?_restored_of_no_unit
    (service : BillingService σ)
    (missing : (keyUnits tenant metered).get? key = none) :
    (service.restored (orderedKeys (keyUnits tenant metered))).1.tracks.get? key = none := by
  unfold restored
  cases service.store with
  | none => rfl
  | some store =>
    exact get?_restoreKeys_of_not_mem (not_mem_orderedKeys_of_no_unit missing) store _ _

theorem exists_unit_of_recorded
    (found : (service.recorded tenant metered).tracks.get? key = some track) :
    ∃ unit, (keyUnits tenant metered).get? key = some unit := by
  rw [← Option.isSome_iff_exists, Option.isSome_iff_ne_none]
  intro missing
  rw [recorded, Reconciler.get?_takeAll_of_none (service.get?_restored_of_no_unit missing),
    keptOf_eq_nil_of_keyUnits missing] at found
  cases found

/-! ## The usage of a run -/

theorem eq_recorded_of_reconcile
    {r : Reconciler}
    (reconciled : (service.reconcile tenant metered).1 = .ok r) :
    r = service.recorded tenant metered := by
  have recordable := recordable_of_reconcile reconciled
  rw [service.reconcile_eq_recorded recordable] at reconciled
  exact (Except.ok.inj reconciled).symm

theorem Rates.exists_unit
    {run : PeriodRun}
    {windows : List Window}
    {results : List (Outcome MeteredJob)}
    {jobs : List MeteredJob}
    {r : Reconciler}
    {usages : List UsageRecord}
    (rates : service.Rates run windows results metering jobs r usages)
    {usage : UsageRecord}
    (member : usage ∈ usages) :
    ∃ unit, (keyUnits run.request.tenant jobs).get?
      (UsageKey.ofRecord run.request.tenant usage) = some unit := by
  have ofJobs := eq_recorded_of_reconcile rates.reconciled
  have ⟨collected, ofWindows, flattened⟩ := (readBack_eq_ok_iff _ _ _ _).mp rates.readBack
  rw [flattened] at member
  have ⟨own, inCollected, inOwn⟩ := List.mem_flatten.mp member
  have ⟨w, _, read⟩ := exists_of_mem_forall₂ ofWindows inCollected
  have ⟨key, ofTenant, comesFrom⟩ :=
    ((sound_reconcile rates.reconciled).mem_usageIn_iff read usage).mp inOwn
  have ⟨track, _, _, found, _⟩ := comesFrom
  rw [ofJobs] at found
  rw [← ofTenant, Reconciler.ofRecord_of_comesFrom comesFrom]
  exact ofTenant ▸ exists_unit_of_recorded found

open Reconciler (Call MayRead ReadsBack empty) in
/-- Whatever calls made a reconciler, a window that can be read in some order of its entries
is read back alike in all of them, as a list that increases and leads back to the keys it
comes from. So a run finds a unit for all usage that it reads back. -/
theorem readsBack_and_finds_units :
    (∀ deviation (calls : List Call) tenant window usages,
      MayRead ((empty deviation).performAll calls) tenant window (.ok usages) →
        ReadsBack ((empty deviation).performAll calls) tenant window usages) ∧
      ∀ {σ : Type} (service : BillingService σ) run windows results metering jobs r usages,
        service.Rates run windows results metering jobs r usages →
          ∀ usage ∈ usages, ∃ unit, (keyUnits run.request.tenant jobs).get?
            (UsageKey.ofRecord run.request.tenant usage) = some unit := by
  constructor
  · intro deviation calls tenant window usages mayRead
    exact ((Reconciler.sound_empty deviation).performAll calls).readsBack mayRead
  · intro σ service run windows results metering jobs r usages rates usage member
    exact rates.exists_unit member

end UsageBilling.BillingService

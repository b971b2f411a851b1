import UsageBilling.Proofs.Period.Bounds
import UsageBilling.Proofs.Period.Probing
import UsageBilling.Proofs.Reconciler.Quantity

/-!
Contract: which jobs may finish in any order.

Owns:
- jobs of one piece of usage each that every service bills alike in any order:
  the compatible ones;
- a volume whose last size to be reported is billed.

Does not own: jobs with several records of a key, which may make up for each
other.
-/

namespace UsageBilling.BillingService

open MeteredJob (CompatibleWith single)
open Reconciler (Compatible Recordable quantityDelivery)

variable {deviation : Nat} {tenant : String} {u v : UsageRecord × RateUnit}

/-- Whether jobs are billed alike in any order, by every service with a deviation
and whatever it stores. -/
def AnyOrder (deviation : Nat) (tenant : String) (metered : List MeteredJob) : Prop :=
  ∀ (σ : Type) (service : BillingService σ) (request : PeriodRequest) (windows : List Window)
    (metered' : List MeteredJob),
    service.settings.metering.deviation = deviation → request.tenant = tenant →
      metered'.Perm metered →
        SameBill (service.settle request windows metered')
          (service.settle request windows metered)

theorem anyOrder_of_compatible
    {metered : List MeteredJob}
    (compatible : metered.Pairwise (CompatibleWith deviation tenant)) :
    AnyOrder deviation tenant metered := by
  rintro σ service request windows metered' rfl rfl permuted
  exact settle_perm permuted ((permuted.pairwise_iff (Std.Symm.symm _ _)).mpr compatible) windows

/-- Two pieces of usage that are billed alike in either order are compatible. -/
theorem compatible_of_anyOrder
    (uRecordable : Recordable u)
    (vRecordable : Recordable v)
    (alike : AnyOrder deviation tenant [single u, single v]) :
    Compatible deviation tenant u v := by
  have probedAlike : ProbedAlike deviation tenant u v := fun t text windows =>
    (alike String (probe deviation text) (probeRequest tenant t) windows _ rfl rfl
      (List.Perm.swap _ _ _)).symm
  intro sameKey
  refine ⟨unit_eq_of_probedAlike probedAlike sameKey uRecordable vRecordable, ?_⟩
  intro s ofU t ofV
  exact ⟨namesAgree_of_probedAlike probedAlike sameKey ofU ofV,
    interchangeable_of_probedAlike probedAlike sameKey ofU ofV⟩

/-- Jobs of one piece of usage each are compatible exactly if those of them that
are run together, whichever they are, are billed alike in any order. -/
theorem compatible_iff_anyOrder
    (deviation : Nat)
    (tenant : String)
    {metered : List MeteredJob}
    (singles : ∀ job ∈ metered, job.IsSingle) :
    metered.Pairwise (CompatibleWith deviation tenant) ↔
      ∀ few, few.Sublist metered → AnyOrder deviation tenant few := by
  constructor
  · intro compatible few ofThem
    exact anyOrder_of_compatible (compatible.sublist ofThem)
  · intro alike
    rw [List.pairwise_iff_forall_sublist]
    intro job other ofThem
    obtain ⟨u, uRecordable, rfl⟩ := singles job (ofThem.subset (by simp))
    obtain ⟨v, vRecordable, rfl⟩ := singles other (ofThem.subset (by simp))
    have compatible := compatible_of_anyOrder uRecordable vRecordable (alike _ ofThem)
    simpa [CompatibleWith, Reconciler.Independent, MeteredJob.entries, single] using compatible

/-- A period is billed alike in whatever order its jobs finish if they are
compatible with each other. Where each is metered as one piece of usage nothing
less will do: of jobs that are not compatible some service makes different
bills. -/
theorem sameBill_runPeriodFinishing
    {σ : Type}
    (service : BillingService σ)
    (request : PeriodRequest) :
    ((service.meteredJobs request).Pairwise
        (CompatibleWith service.settings.metering.deviation request.tenant) →
      ∀ finish : List (Outcome MeteredJob) → List (Outcome MeteredJob),
        (∀ results, (finish results).Perm results) →
          SameBill (service.runPeriodFinishing finish request) (service.runPeriod request)) ∧
      ((∀ job ∈ service.meteredJobs request, job.IsSingle) →
        ((service.meteredJobs request).Pairwise
            (CompatibleWith service.settings.metering.deviation request.tenant) ↔
          ∀ few, few.Sublist (service.meteredJobs request) →
            AnyOrder service.settings.metering.deviation request.tenant few)) :=
  ⟨fun compatible _ permutes => service.sameBill_of_compatible request permutes compatible,
    compatible_iff_anyOrder _ _⟩

set_option maxRecDepth 20000 in
private theorem meteredJobs_disagreeing_sizes :
    volumeService.meteredJobs (volumeRequest 3600 [volumeJob 20 600, volumeJob 30 1200]) =
      [single ((quantityDelivery 20 0 3600).usage, .quantity),
        single ((quantityDelivery 30 0 3600).usage, .quantity)] := by
  cbv

set_option maxRecDepth 20000 in
/-- Two samples of one volume that agree may finish in either order. Two that
disagree may not, and some service shows it. -/
theorem sameBill_agreeing_sizes :
    SameBill
        (volumeService.runPeriodFinishing List.reverse
          (volumeRequest 3600 [volumeJob 20 600, volumeJob 20 1200]))
        (volumeService.runPeriod (volumeRequest 3600 [volumeJob 20 600, volumeJob 20 1200])) ∧
      ¬ ∀ few, few.Sublist (volumeService.meteredJobs
          (volumeRequest 3600 [volumeJob 20 600, volumeJob 30 1200])) →
        AnyOrder 1 "acme" few := by
  constructor
  · apply (sameBill_runPeriodFinishing volumeService
      (volumeRequest 3600 [volumeJob 20 600, volumeJob 20 1200])).1
    · apply of_decide_eq_true
      cbv
    · exact List.reverse_perm
  · have singles : ∀ job ∈ volumeService.meteredJobs
        (volumeRequest 3600 [volumeJob 20 600, volumeJob 30 1200]), job.IsSingle := by
      intro job member
      rw [meteredJobs_disagreeing_sizes, List.mem_cons, List.mem_singleton] at member
      rcases member with rfl | rfl
      · exact ⟨_, by decide, rfl⟩
      · exact ⟨_, by decide, rfl⟩
    intro alike
    have compatible := ((sameBill_runPeriodFinishing volumeService
      (volumeRequest 3600 [volumeJob 20 600, volumeJob 30 1200])).2 singles).mpr alike
    rw [meteredJobs_disagreeing_sizes] at compatible
    exact absurd compatible (by decide)

set_option maxRecDepth 20000 in
private theorem volumes_disagreeing_sizes :
    ((volumeService.runPeriod
        (volumeRequest 3600 [volumeJob 20 600, volumeJob 30 1200])).1.toOption.map
      fun invoice => invoice.usages.map UsageRecord.volume) = some [.ofInt 30] ∧
    ((volumeService.runPeriodFinishing List.reverse
        (volumeRequest 3600 [volumeJob 20 600, volumeJob 30 1200])).1.toOption.map
      fun invoice => invoice.usages.map UsageRecord.volume) = some [.ofInt 20] := by
  constructor
  · cbv
  · cbv

/-- Of two sizes of one volume that disagree, the one that is reported last is
billed. -/
theorem not_sameBill_disagreeing_sizes :
    ¬ SameBill
      (volumeService.runPeriodFinishing List.reverse
        (volumeRequest 3600 [volumeJob 20 600, volumeJob 30 1200]))
      (volumeService.runPeriod (volumeRequest 3600 [volumeJob 20 600, volumeJob 30 1200])) := by
  rintro ⟨sameInvoice, _⟩
  obtain ⟨inOrder, reversed⟩ := volumes_disagreeing_sizes
  rw [sameInvoice, inOrder] at reversed
  exact absurd reversed (by decide)

end UsageBilling.BillingService

import UsageBilling.Proofs.Rating.Costs
import UsageBilling.Rating

/-!
Contract: the tariff by which a record is billed.

Owns:
- when an assignment is in force, and the tariff that a list of assignments and
  a catalog give for an instant;
- a line can be made of a record unless its cost overflows;
- rating leaves the tariffs of a catalog as they are, and fails for want of a
  tariff exactly if the catalog lacks it;
- rating under the tariff in force is rating under the tariff for the start.

Does not own: prices, or how lines are grouped.
-/

namespace UsageBilling

/-- Whether an assignment is in force at an instant: it has begun, and has not
ended if it has an end. -/
def TariffAssignment.InForce (assignment : TariffAssignment) (t : Instant) : Prop :=
  assignment.effectiveFrom ≤ t ∧ ∀ bound, assignment.effectiveUntil = some bound → t < bound

theorem TariffAssignment.covers_iff
    (assignment : TariffAssignment)
    (t : Instant) :
    assignment.covers t = true ↔ assignment.InForce t := by
  simp only [covers, InForce, Bool.and_eq_true, decide_eq_true_eq, Option.all_eq_true]

instance (assignment : TariffAssignment) (t : Instant) : Decidable (assignment.InForce t) :=
  decidable_of_iff _ (assignment.covers_iff t)

namespace Rating

variable {default_ tariff : String} {assignments : List TariffAssignment}
  {usage : UsageRecord} {unit : RateUnit} {catalog after : Catalog} {line : RatedUsage}

/-- The tariff for an instant: that of the first assignment in force if the catalog
has it, and otherwise the default. -/
def billingTariff (default_ : String) (assignments : List TariffAssignment) (catalog : Catalog)
    (t : Instant) : String :=
  match assignments.find? fun assignment => assignment.InForce t with
  | some assignment =>
    if catalog.tariffs.contains assignment.tariff then assignment.tariff else default_
  | none => default_

theorem billingTariff_eq
    (default_ : String)
    (assignments : List TariffAssignment)
    (catalog : Catalog)
    (t : Instant) :
    billingTariff default_ assignments catalog t =
      if catalog.tariffs.contains (tariffAt default_ assignments t) then
        tariffAt default_ assignments t
      else default_ := by
  have sameTest : (fun assignment : TariffAssignment => decide (assignment.InForce t)) =
      fun assignment => assignment.covers t := by
    funext assignment
    exact Bool.eq_iff_iff.mpr (decide_eq_true_iff.trans (assignment.covers_iff t).symm)
  rw [billingTariff, tariffAt, sameTest]
  cases assignments.find? fun assignment => assignment.covers t with
  | some assignment => rfl
  | none => exact (ite_self _).symm

/-! ## Rating under one tariff -/

theorem tariffs_entryOrProvision
    (catalog : Catalog)
    (tariff service : String)
    (unit : RateUnit) :
    (catalog.entryOrProvision tariff service unit).2.tariffs = catalog.tariffs := by
  unfold Catalog.entryOrProvision
  split
  · rfl
  · rfl

theorem tariffs_rateRecord
    (tariff : String)
    (usage : UsageRecord)
    (unit : RateUnit)
    (catalog : Catalog) :
    (rateRecord tariff usage unit catalog).2.tariffs = catalog.tariffs := by
  have unchanged := tariffs_entryOrProvision catalog tariff usage.service unit
  unfold rateRecord
  split
  · rename_i found
    rw [found] at unchanged
    exact unchanged
  · rename_i failed
    rw [failed] at unchanged
    exact unchanged

theorem entry_of_contains
    (has : catalog.tariffs.contains tariff = true)
    (service missing : String) :
    catalog.entry tariff service ≠ .error (.unknownTariff missing) := by
  have ⟨table, held⟩ := Option.isSome_iff_exists.mp has
  unfold Catalog.entry
  rw [held]
  dsimp only
  split
  · intro same
    cases same
  · split
    · intro same
      cases same
    · intro same
      cases same

theorem entryOrProvision_of_contains
    (has : catalog.tariffs.contains tariff = true)
    (service : String)
    (unit : RateUnit)
    (missing : String) :
    (catalog.entryOrProvision tariff service unit).1 ≠ .error (.unknownTariff missing) := by
  unfold Catalog.entryOrProvision
  split
  · -- Provisioning leaves the tariffs, so that the second look finds this one too.
    have stillHas : (catalog.provision service unit).2.tariffs.contains tariff = true := has
    exact entry_of_contains stillHas _ missing
  · exact entry_of_contains has service missing

theorem entryOrProvision_of_not_contains
    (lacks : catalog.tariffs.contains tariff = false)
    (service : String)
    (unit : RateUnit) :
    catalog.entryOrProvision tariff service unit = (.error (.unknownTariff tariff), catalog) := by
  have absent : catalog.tariffs.get? tariff = none :=
    Option.isNone_iff_eq_none.mp (Option.isSome_eq_false_iff.mp lacks)
  have failed : catalog.entry tariff service = .error (.unknownTariff tariff) := by
    rw [Catalog.entry, absent]
  rw [Catalog.entryOrProvision, failed]

theorem lineOf_eq_error_iff
    (usage : UsageRecord)
    (entry : TariffEntry)
    (failure : Failure) :
    lineOf usage entry = .error failure ↔
      failure = .reported .overflow ∧ Decimal.Beyond (entry.exactCost usage.volume.toRat) := by
  rw [← entry.cost_eq_error_iff]
  obtain ⟨units, billed, _⟩ := entry.exists_billableUnits usage.volume
  unfold lineOf
  rw [billed]
  cases entry.cost usage.volume with
  | error other => simp [bind, Except.bind]
  | ok cost => simp [bind, Except.bind, pure, Except.pure]

theorem lineOf_ne_unknownTariff
    (usage : UsageRecord)
    (entry : TariffEntry)
    (missing : String) :
    lineOf usage entry ≠ .error (.reported (.unknownTariff missing)) := by
  intro failed
  obtain ⟨isOverflow, _⟩ := (lineOf_eq_error_iff usage entry _).mp failed
  cases isOverflow

/-- A catalog that has a tariff does not miss one. -/
theorem rateRecord_of_contains
    (has : catalog.tariffs.contains tariff = true)
    (usage : UsageRecord)
    (unit : RateUnit)
    (missing : String) :
    (rateRecord tariff usage unit catalog).1 ≠ .error (.reported (.unknownTariff missing)) := by
  unfold rateRecord
  split
  · exact lineOf_ne_unknownTariff usage _ missing
  · rename_i failed
    intro same
    cases same
    exact entryOrProvision_of_contains has usage.service unit missing (congrArg Prod.fst failed)

theorem rateRecord_of_not_contains
    (lacks : catalog.tariffs.contains tariff = false)
    (usage : UsageRecord)
    (unit : RateUnit) :
    rateRecord tariff usage unit catalog =
      (.error (.reported (.unknownTariff tariff)), catalog) := by
  rw [rateRecord, entryOrProvision_of_not_contains lacks]
  rfl

/-! ## Rating under the tariff in force -/

/-- Rating under the tariff in force is rating under the tariff for the start of
the record: an attempt under a tariff that the catalog lacks leaves the catalog as
it was. -/
theorem rateAssigned_eq
    (default_ : String)
    (assignments : List TariffAssignment)
    (usage : UsageRecord)
    (unit : RateUnit)
    (catalog : Catalog) :
    rateAssigned default_ assignments usage unit catalog =
      let tariff := billingTariff default_ assignments catalog usage.start
      let (line, rated) := rateRecord tariff usage unit catalog
      (line.map fun line => (tariff, line), rated) := by
  rw [billingTariff_eq]
  unfold rateAssigned
  dsimp only
  cases has : catalog.tariffs.contains (tariffAt default_ assignments usage.start) with
  | true =>
    rw [if_pos rfl]
    split
    · rename_i rated
      rw [rated]
      rfl
    · rename_i failed
      exact absurd (congrArg Prod.fst failed) (rateRecord_of_contains has usage unit _)
    · rename_i failed
      rw [failed]
      rfl
  | false =>
    rw [rateRecord_of_not_contains has]
    dsimp only
    split
    · rfl
    · rename_i isDefault
      rw [Decidable.not_not] at isDefault
      rw [isDefault] at has
      simp only [isDefault, Bool.false_eq_true, if_false, rateRecord_of_not_contains has]
      rfl

theorem rateAssigned_eq_ok_iff :
    rateAssigned default_ assignments usage unit catalog = (.ok (tariff, line), after) ↔
      tariff = billingTariff default_ assignments catalog usage.start ∧
        rateRecord tariff usage unit catalog = (.ok line, after) := by
  rw [rateAssigned_eq]
  dsimp only
  constructor
  · intro rated
    cases record : rateRecord (billingTariff default_ assignments catalog usage.start) usage unit
        catalog with
    | mk outcome next =>
      rw [record] at rated
      cases outcome with
      | error failure => cases (Prod.mk.inj rated).1
      | ok found =>
        cases rated
        exact ⟨rfl, record⟩
  · intro ⟨ofStart, rated⟩
    rw [← ofStart, rated]
    rfl

end Rating

end UsageBilling

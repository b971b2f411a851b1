import UsageBilling.Proofs.Rating.Lines
import UsageBilling.Proofs.Rating.Prices

/-!
Contract: the ways in which rating fails.

Owns:
- why a record cannot be rated: its tariff is missing, its cost is beyond 96 bits, or
  the subtotal with its cost is;
- records in order fail where the first that cannot be rated does;
- an invoice fails if a record does, or if its total is beyond 96 bits.

A missing tariff and a cost beyond 96 bits are reported. A subtotal or a total beyond
them is not: it stops the operation.

Does not own: which usage is rated.
-/

namespace UsageBilling.Rating

open Decimal (Beyond Overruns)

variable {default_ tariff : String} {assignments : List TariffAssignment}
  {unitOf : UsageRecord → RateUnit} {usage : UsageRecord} {usages : List UsageRecord}
  {unit : RateUnit} {catalog : Catalog} {line : RatedUsage} {subtotals : List TariffSubtotal}
  {failure : Failure}

/-! ## One record -/

theorem rateRecord_eq_error_iff
    (tariff : String)
    (usage : UsageRecord)
    (unit : RateUnit)
    (catalog : Catalog)
    (failure : Failure) :
    (rateRecord tariff usage unit catalog).1 = .error failure ↔
      (catalog.tariffs.contains tariff = false ∧ failure = .reported (.unknownTariff tariff)) ∨
        ∃ entry, (catalog.entryOrProvision tariff usage.service unit).1 = .ok entry ∧
          failure = .reported .overflow ∧ Beyond (entry.exactCost usage.volume.toRat) := by
  simp only [← lineOf_eq_error_iff]
  unfold rateRecord
  cases found : catalog.entryOrProvision tariff usage.service unit with
  | mk outcome after =>
    cases outcome with
    | ok entry =>
      have has : catalog.tariffs.contains tariff ≠ false := by
        intro lacks
        rw [entryOrProvision_of_not_contains lacks] at found
        cases found
      simp [has]
    | error error =>
      obtain ⟨isUnknown, lacks, _⟩ := Catalog.of_entryOrProvision_eq_error (congrArg Prod.fst found)
      simp [isUnknown, lacks, Outcome.report, eq_comm]

theorem billingTariff_of_not_contains
    (lacks : catalog.tariffs.contains
      (billingTariff default_ assignments catalog usage.start) = false) :
    billingTariff default_ assignments catalog usage.start = default_ := by
  rw [billingTariff_eq] at lacks ⊢
  split
  · rename_i has
    rw [if_pos has, has] at lacks
    cases lacks
  · rfl

theorem rateAssigned_eq_error_iff :
    (rateAssigned default_ assignments usage unit catalog).1 = .error failure ↔
      (rateRecord (billingTariff default_ assignments catalog usage.start) usage unit
        catalog).1 = .error failure := by
  rw [rateAssigned_eq]
  dsimp only
  cases (rateRecord (billingTariff default_ assignments catalog usage.start) usage unit
    catalog).1 with
  | error other => simp [Except.map]
  | ok line => simp [Except.map]

/-! ## One line -/

/-- What the lines of a tariff come to so far. -/
def subtotalOf (tariff : String) (subtotals : List TariffSubtotal) : Decimal :=
  ((subtotals.find? fun held => held.tariff = tariff).map TariffSubtotal.subtotal).getD
    Decimal.zero

theorem orAbort_bind_eq_error_iff
    {α β : Type}
    (fault : RangeFault)
    (result : Option α)
    (make : α → β)
    (failure : Failure) :
    (do pure (make (← Outcome.orAbort fault result)) : Outcome β) = .error failure ↔
      failure = .aborted fault ∧ result = none := by
  cases result with
  | none => simp [Outcome.orAbort, bind, Except.bind, eq_comm]
  | some value => simp [Outcome.orAbort, bind, Except.bind, pure, Except.pure]

theorem addLine_eq_error_iff
    (tariff : String)
    (line : RatedUsage)
    (subtotals : List TariffSubtotal)
    (failure : Failure) :
    addLine tariff line subtotals = .error failure ↔
      failure = .aborted .decimalSum ∧
        Beyond ((subtotalOf tariff subtotals).toRat + line.cost.toRat) := by
  rw [← Decimal.add?_eq_none_iff]
  induction subtotals with
  | nil => exact orAbort_bind_eq_error_iff _ _ _ failure
  | cons held rest inductionHypothesis =>
    rw [addLine, subtotalOf]
    by_cases own : held.tariff = tariff
    · rw [if_pos own, List.find?_cons_of_pos (by simpa using own)]
      exact orAbort_bind_eq_error_iff _ _ _ failure
    · rw [if_neg own, List.find?_cons_of_neg (by simpa using own)]
      rw [subtotalOf] at inductionHypothesis
      rw [← inductionHypothesis]
      cases addLine tariff line rest with
      | error other => simp [bind, Except.bind]
      | ok extended => simp [bind, Except.bind, pure, Except.pure]

/-! ## Records in order -/

/-- Why a record cannot be rated and added to the subtotals so far. -/
inductive StopsAt (default_ : String) (assignments : List TariffAssignment)
    (unitOf : UsageRecord → RateUnit) (subtotals : List TariffSubtotal) (usage : UsageRecord)
    (catalog : Catalog) : Failure → Prop where
  | tariff
      (lacks : catalog.tariffs.contains
        (billingTariff default_ assignments catalog usage.start) = false) :
    StopsAt default_ assignments unitOf subtotals usage catalog
      (.reported (.unknownTariff default_))
  | cost (entry : TariffEntry)
      (priced : (catalog.entryOrProvision (billingTariff default_ assignments catalog usage.start)
        usage.service (unitOf usage)).1 = .ok entry)
      (beyond : Beyond (entry.exactCost usage.volume.toRat)) :
    StopsAt default_ assignments unitOf subtotals usage catalog (.reported .overflow)
  | subtotal (tariff : String) (line : RatedUsage) (after : Catalog)
      (rated : rateAssigned default_ assignments usage (unitOf usage) catalog =
        (.ok (tariff, line), after))
      (beyond : Beyond ((subtotalOf tariff subtotals).toRat + line.cost.toRat)) :
    StopsAt default_ assignments unitOf subtotals usage catalog (.aborted .decimalSum)

/-- A record stops rating exactly if rating it fails or adding its line does. -/
theorem stopsAt_iff :
    StopsAt default_ assignments unitOf subtotals usage catalog failure ↔
      (rateAssigned default_ assignments usage (unitOf usage) catalog).1 = .error failure ∨
        ∃ tariff line after, rateAssigned default_ assignments usage (unitOf usage) catalog =
            (.ok (tariff, line), after) ∧
          addLine tariff line subtotals = .error failure := by
  rw [rateAssigned_eq_error_iff, rateRecord_eq_error_iff]
  constructor
  · intro stops
    cases stops with
    | tariff lacks =>
      have isDefault := billingTariff_of_not_contains lacks
      exact Or.inl (Or.inl ⟨lacks, by rw [isDefault]⟩)
    | cost entry priced beyond => exact Or.inl (Or.inr ⟨entry, priced, rfl, beyond⟩)
    | subtotal tariff line after rated beyond =>
      exact Or.inr ⟨tariff, line, after, rated, (addLine_eq_error_iff _ _ _ _).mpr ⟨rfl, beyond⟩⟩
  · rintro ((⟨lacks, rfl⟩ | ⟨entry, priced, rfl, beyond⟩) | ⟨tariff, line, after, rated, failed⟩)
    · have isDefault := billingTariff_of_not_contains lacks
      rw [isDefault]
      exact .tariff lacks
    · exact .cost entry priced beyond
    · obtain ⟨rfl, beyond⟩ := (addLine_eq_error_iff _ _ _ _).mp failed
      exact .subtotal tariff line after rated beyond

/-- Whether some record cannot be rated after those before it, and why. -/
def Stops (default_ : String) (assignments : List TariffAssignment)
    (unitOf : UsageRecord → RateUnit) (subtotals : List TariffSubtotal)
    (usages : List UsageRecord) (catalog : Catalog) (failure : Failure) : Prop :=
  ∃ before usage rest held next, usages = before ++ usage :: rest ∧
    rateInOrder default_ assignments unitOf subtotals before catalog = (.ok held, next) ∧
    StopsAt default_ assignments unitOf held usage next failure

/-- Either the first record stops rating, or its line is added and a later one does. -/
theorem stops_cons_iff :
    Stops default_ assignments unitOf subtotals (usage :: usages) catalog failure ↔
      StopsAt default_ assignments unitOf subtotals usage catalog failure ∨
        ∃ tariff line next added,
          rateAssigned default_ assignments usage (unitOf usage) catalog =
            (.ok (tariff, line), next) ∧
          addLine tariff line subtotals = .ok added ∧
          Stops default_ assignments unitOf added usages next failure := by
  constructor
  · rintro ⟨before, stopping, rest, held, next, isUsages, rated, stopsAt⟩
    cases before with
    | nil =>
      cases isUsages
      cases rated
      exact Or.inl stopsAt
    | cons _ before =>
      cases isUsages
      obtain ⟨tariff, line, after, added, lineRated, lineAdded, restRated⟩ :=
        exists_of_rateInOrder_cons rated
      exact Or.inr ⟨tariff, line, after, added, lineRated, lineAdded, before, stopping, rest, held,
        next, rfl, restRated, stopsAt⟩
  · rintro (stopsAt | ⟨tariff, line, after, added, lineRated, lineAdded, before, stopping, rest,
      held, next, isUsages, rated, stopsAt⟩)
    · exact ⟨[], usage, usages, subtotals, catalog, rfl, rfl, stopsAt⟩
    · refine ⟨usage :: before, stopping, rest, held, next, by rw [isUsages, List.cons_append], ?_,
        stopsAt⟩
      rw [rateInOrder, lineRated]
      simp only [lineAdded]
      exact rated

/-- Rating in order fails exactly if some record stops it. -/
theorem rateInOrder_eq_error_iff :
    (rateInOrder default_ assignments unitOf subtotals usages catalog).1 = .error failure ↔
      Stops default_ assignments unitOf subtotals usages catalog failure := by
  induction usages generalizing subtotals catalog with
  | nil => simp [rateInOrder, Stops]
  | cons usage rest inductionHypothesis =>
    rw [stops_cons_iff, stopsAt_iff, rateInOrder]
    simp only [← inductionHypothesis]
    cases rated : rateAssigned default_ assignments usage (unitOf usage) catalog with
    | mk outcome after =>
      cases outcome with
      | error other => simp
      | ok found =>
        obtain ⟨tariff, line⟩ := found
        cases added : addLine tariff line subtotals with
        | error other => simp [added]
        | ok extended => simp [added]

/-! ## Invoices -/

theorem invoice_of_rateInOrder_eq_error
    (tenant : String)
    (period : Instant × Instant)
    (failed : (rateInOrder default_ assignments unitOf [] (ordered usages) catalog).1 =
      .error failure) :
    (Rating.invoice default_ tenant period usages assignments unitOf catalog).1 =
      .error failure := by
  unfold Rating.invoice
  split
  · rename_i rated
    rw [rated] at failed
    cases failed
    rfl
  · rename_i rated
    rw [rated] at failed
    cases failed

/-- Why an invoice cannot be made: a record stops rating, or the total of the subtotals is
beyond 96 bits. -/
inductive InvoiceFails (default_ : String) (assignments : List TariffAssignment)
    (unitOf : UsageRecord → RateUnit) (usages : List UsageRecord) (catalog : Catalog) :
    Failure → Prop where
  | record (failure : Failure)
      (stops : Stops default_ assignments unitOf [] (ordered usages) catalog failure) :
    InvoiceFails default_ assignments unitOf usages catalog failure
  | total (subtotals : List TariffSubtotal) (after : Catalog)
      (rated : rateInOrder default_ assignments unitOf [] (ordered usages) catalog =
        (.ok subtotals, after))
      (overruns : Overruns (subtotals.map TariffSubtotal.subtotal)) :
    InvoiceFails default_ assignments unitOf usages catalog (.aborted .decimalSum)

/-- An invoice is made unless a tariff is missing, which is reported; a cost is beyond 96
bits, which is reported as well; or a subtotal or the total is, which is not. -/
theorem invoice_eq_error_iff
    (default_ tenant : String)
    (period : Instant × Instant)
    (usages : List UsageRecord)
    (assignments : List TariffAssignment)
    (unitOf : UsageRecord → RateUnit)
    (catalog : Catalog)
    (failure : Failure) :
    (Rating.invoice default_ tenant period usages assignments unitOf catalog).1 =
        .error failure ↔
      InvoiceFails default_ assignments unitOf usages catalog failure := by
  constructor
  · intro failed
    unfold Rating.invoice at failed
    split at failed
    · rename_i rated
      cases failed
      exact .record failure (rateInOrder_eq_error_iff.mp (congrArg Prod.fst rated))
    · rename_i subtotals after rated
      cases summed : Decimal.sum? (subtotals.map TariffSubtotal.subtotal) with
      | none =>
        rw [summed] at failed
        cases failed
        exact .total subtotals after rated ((Decimal.sum?_eq_none_iff _).mp summed)
      | some total =>
        rw [summed] at failed
        cases failed
  · intro fails
    cases fails with
    | record _ stops =>
      exact invoice_of_rateInOrder_eq_error tenant period (rateInOrder_eq_error_iff.mpr stops)
    | total subtotals after rated overruns =>
      unfold Rating.invoice
      rw [rated]
      dsimp only
      rw [(Decimal.sum?_eq_none_iff _).mpr overruns]
      rfl

/-- A tariff in which a unit of volume costs one. -/
def wholesale : Tariff :=
  ⟨"default", Table.empty.insert "m1.small" ⟨"m1.small", .one, .one, .quantity, false⟩⟩

/-- Usage of the largest volume that there is. -/
def largestUsage (start stop : Instant) : UsageRecord :=
  .ofService "m1.small" start stop (.ofInt 79228162514264337593543950335)

/-- Two records of the largest volume have costs, but no subtotal, and this is not
reported. -/
theorem not_forall_invoice_reported :
    ¬ ∀ (default_ tenant : String) (period : Instant × Instant) (usages : List UsageRecord)
      (assignments : List TariffAssignment) (unitOf : UsageRecord → RateUnit) (catalog : Catalog),
      (∀ tariff service entry, catalog.entry tariff service = .ok entry →
        1 ≤ entry.rate.toRat) →
        ∀ fault, (Rating.invoice default_ tenant period usages assignments unitOf catalog).1 ≠
          .error (.aborted fault) := by
  intro all
  have checked : ∀ operation ∈ [Catalog.Operation.insertTariff wholesale], operation.Checked := by
    intro operation member
    rw [List.mem_singleton.mp member]
    intro service entry found
    rw [wholesale, Table.get?_insert] at found
    split at found
    · cases found
      rfl
    · cases found
  let usage := largestUsage (.ofSecond 0) (.ofSecond 3600)
  refine all "default" "acme" (.ofSecond 0, .ofSecond 3600) [usage, usage] []
    (fun _ => .quantity) (Catalog.reached [.insertTariff wholesale]) ?_ .decimalSum ?_
  · intro tariff service entry found
    exact Catalog.one_le_rate_of_entry checked found
  · apply invoice_of_rateInOrder_eq_error
    have asGiven : ordered [usage, usage] = [usage, usage] :=
      List.mergeSort_of_pairwise (by decide)
    rw [asGiven]
    decide +kernel

end UsageBilling.Rating

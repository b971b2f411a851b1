import Mathlib.Algebra.BigOperators.Group.List.Basic
import UsageBilling.Proofs.Rating.Subtotals
import UsageBilling.Proofs.Sorting
import UsageBilling.Proofs.Window.Timeline

/-!
Contract: what an invoice says of the records it was made from.

Owns:
- the order in which records are rated: by start, ties as given;
- the lines that rating in order makes, grouped under the tariffs for their
  starts;
- the account an invoice gives: every record once, under its tariff, in order,
  with sums, and with the services that await a price.

Does not own: the price of a line.
-/

namespace UsageBilling.Rating

variable {default_ tenant : String} {period : Instant × Instant}
  {assignments : List TariffAssignment} {unitOf : UsageRecord → RateUnit}
  {usages : List UsageRecord} {catalog base after : Catalog} {lines : List RatedUsage}
  {subtotals extended : List TariffSubtotal} {made : Invoice}

/-! ## The order of rating -/

private theorem atMost_trans
    (a b c : UsageRecord)
    (ab : decide (a.start ≤ b.start) = true)
    (bc : decide (b.start ≤ c.start) = true) :
    decide (a.start ≤ c.start) = true :=
  decide_eq_true (Int.le_trans (of_decide_eq_true ab) (of_decide_eq_true bc))

private theorem atMost_total
    (a b : UsageRecord) :
    (decide (a.start ≤ b.start) || decide (b.start ≤ a.start)) = true := by
  rw [Bool.or_eq_true, decide_eq_true_eq, decide_eq_true_eq]
  exact Int.le_total a.start.position b.start.position

theorem pairwise_ordered
    (usages : List UsageRecord) :
    (ordered usages).Pairwise fun a b => a.start ≤ b.start := by
  have sorted := List.pairwise_mergeSort atMost_trans atMost_total usages
  rw [ordered]
  simpa only [decide_eq_true_eq] using sorted

/-- Records that start together are rated as they were given. -/
theorem filter_ordered
    (usages : List UsageRecord)
    (t : Instant) :
    ((ordered usages).filter fun usage => usage.start = t) =
      usages.filter fun usage => usage.start = t := by
  apply filter_mergeSort_of_tied atMost_trans atMost_total
  intro a b aStarts bStarts
  rw [of_decide_eq_true aStarts, of_decide_eq_true bStarts]
  exact decide_eq_true (Int.le_refl _)

/-! ## The lines of rating -/

/-- The tariff for the start of a line's record. -/
def lineTariff (default_ : String) (assignments : List TariffAssignment) (catalog : Catalog)
    (line : RatedUsage) : String :=
  billingTariff default_ assignments catalog line.usage.start

theorem billingTariff_congr
    (sameTariffs : catalog.tariffs = base.tariffs)
    (default_ : String)
    (assignments : List TariffAssignment)
    (t : Instant) :
    billingTariff default_ assignments catalog t = billingTariff default_ assignments base t := by
  rw [billingTariff, billingTariff, sameTariffs]

/-- Rating records in order adds a line for each of them under the tariff for its
start. The catalog may be provisioned on the way, which leaves its tariffs. -/
theorem Grouped.rateInOrder
    (grouped : Grouped (lineTariff default_ assignments base) lines subtotals)
    (sameTariffs : catalog.tariffs = base.tariffs)
    (rated : Rating.rateInOrder default_ assignments unitOf subtotals usages catalog =
      (.ok extended, after)) :
    ∃ all, all.map RatedUsage.usage = lines.map RatedUsage.usage ++ usages ∧
      Grouped (lineTariff default_ assignments base) all extended := by
  induction usages generalizing lines subtotals catalog with
  | nil =>
    cases rated
    exact ⟨lines, (List.append_nil _).symm, grouped⟩
  | cons usage rest inductionHypothesis =>
    obtain ⟨tariff, line, next, added, lineRated, lineAdded, restRated⟩ :=
      exists_of_rateInOrder_cons rated
    obtain ⟨ofStart, recordRated⟩ := rateAssigned_eq_ok_iff.mp lineRated
    have sameUsage := usage_of_rateRecord recordRated
    have nextTariffs := tariffs_rateRecord tariff usage (unitOf usage) catalog
    rw [recordRated] at nextTariffs
    have ofLine : tariff = lineTariff default_ assignments base line := by
      rw [lineTariff, sameUsage, ← billingTariff_congr sameTariffs]
      exact ofStart
    rw [ofLine] at lineAdded
    obtain ⟨all, sameUsages, allGrouped⟩ := inductionHypothesis (grouped.addLine lineAdded)
      (nextTariffs.trans sameTariffs) restRated
    refine ⟨all, ?_, allGrouped⟩
    rw [sameUsages, List.map_append, List.map_singleton, sameUsage, List.append_assoc,
      List.singleton_append]

/-! ## The account of an invoice -/

/-- Whether no addition drops a fraction digit, neither of the lines of a subtotal
nor of the subtotals. -/
def KeepsAllDigits (made : Invoice) : Prop :=
  (∀ held ∈ made.subtotals,
    Decimal.SumKeepsDigits Decimal.zero (held.lines.map RatedUsage.cost)) ∧
    Decimal.SumKeepsDigits Decimal.zero (made.subtotals.map TariffSubtotal.subtotal)

instance (made : Invoice) : Decidable (KeepsAllDigits made) :=
  inferInstanceAs (Decidable (_ ∧ _))

/-- Whether an invoice accounts for records: each is on one line, under the tariff
for its start; subtotals have one tariff each and are in the order of their first
lines; lines are by start, ties as given; sums are those of the lines; and the
flagged services are those of lines that await a price, in order and each once. -/
structure AccountsFor (default_ : String) (usages : List UsageRecord)
    (assignments : List TariffAssignment) (catalog : Catalog) (made : Invoice) : Prop where
  billed : made.usages.Perm usages
  lineCount : made.lineCount = usages.length
  ofTariff : ∀ held ∈ made.subtotals, ∀ line ∈ held.lines,
    held.tariff = billingTariff default_ assignments catalog line.usage.start
  distinct : (made.subtotals.map TariffSubtotal.tariff).Nodup
  inhabited : ∀ held ∈ made.subtotals, held.lines ≠ []
  byFirstLine : (firstLines made.subtotals).Pairwise fun a b => a.usage.start < b.usage.start
  byStart : ∀ held ∈ made.subtotals,
    held.lines.Pairwise fun a b => a.usage.start ≤ b.usage.start
  ties : ∀ held ∈ made.subtotals, ∀ line ∈ held.lines,
    ((held.lines.map RatedUsage.usage).filter fun usage => usage.start = line.usage.start) =
      usages.filter fun usage => usage.start = line.usage.start
  subtotal : ∀ held ∈ made.subtotals,
    Decimal.sum? (held.lines.map RatedUsage.cost) = some held.subtotal
  total : Decimal.sum? (made.subtotals.map TariffSubtotal.subtotal) = some made.total
  exact : KeepsAllDigits made →
    made.total.toRat = ((made.subtotals.flatMap TariffSubtotal.lines).map fun line =>
      line.cost.toRat).sum
  flaggedInOrder : made.flaggedServices.Pairwise (· < ·)
  flagged : ∀ service, service ∈ made.flaggedServices ↔
    ∃ held ∈ made.subtotals, ∃ line ∈ held.lines,
      line.needsReview = true ∧ line.usage.service = service

/-! ### Order -/

theorem Grouped.tariff_eq
    {tariffOf : RatedUsage → String}
    (grouped : Grouped tariffOf lines subtotals)
    {held : TariffSubtotal}
    (member : held ∈ subtotals)
    {line : RatedUsage}
    (inHeld : line ∈ held.lines) :
    tariffOf line = held.tariff := by
  rw [(grouped.collects held member).ofTariff] at inHeld
  exact of_decide_eq_true (List.mem_filter.mp inHeld).2

theorem map_firstLines
    {tariffOf : RatedUsage → String}
    (inhabited : ∀ held ∈ subtotals, held.lines ≠ [])
    (own : ∀ held ∈ subtotals, ∀ line ∈ held.lines, tariffOf line = held.tariff) :
    (firstLines subtotals).map tariffOf = subtotals.map TariffSubtotal.tariff := by
  induction subtotals with
  | nil => rfl
  | cons held rest inductionHypothesis =>
    have restTariffs := inductionHypothesis
      (fun other member => inhabited other (List.mem_cons_of_mem held member))
      (fun other member => own other (List.mem_cons_of_mem held member))
    have ⟨first, others, begins⟩ := List.exists_cons_of_ne_nil (inhabited held List.mem_cons_self)
    have firstOwn : tariffOf first = held.tariff := by
      apply own held List.mem_cons_self
      rw [begins]
      exact List.mem_cons_self
    simp only [firstLines] at restTariffs
    simp only [firstLines, List.filterMap_cons, begins, List.head?_cons, List.map_cons, firstOwn,
      restTariffs]

/-- Lines that start together are of one tariff, so that the first lines of
subtotals start one after the other. -/
theorem Grouped.pairwise_firstLines
    (grouped : Grouped (lineTariff default_ assignments base) lines subtotals)
    (byStart : lines.Pairwise fun a b => a.usage.start ≤ b.usage.start) :
    (firstLines subtotals).Pairwise fun a b => a.usage.start < b.usage.start := by
  have inOrder := byStart.sublist grouped.inOrder
  have distinct := grouped.distinct
  rw [← map_firstLines (fun held member => (grouped.collects held member).inhabited)
    (fun held member line inHeld => grouped.tariff_eq member inHeld)] at distinct
  apply (inOrder.and (List.pairwise_map.mp distinct)).imp
  intro a b ⟨atMost, differ⟩
  apply Decidable.byContradiction
  intro notBefore
  have sameStart := Instant.le_antisymm atMost (Instant.not_lt.mp notBefore)
  exact differ (congrArg (billingTariff default_ assignments base) sameStart)

theorem Grouped.filter_starting
    (grouped : Grouped (lineTariff default_ assignments base) lines subtotals)
    {held : TariffSubtotal}
    (member : held ∈ subtotals)
    {line : RatedUsage}
    (inHeld : line ∈ held.lines) :
    (held.lines.map RatedUsage.usage).filter (fun usage => usage.start = line.usage.start) =
      (lines.map RatedUsage.usage).filter fun usage => usage.start = line.usage.start := by
  have ofHeld := grouped.tariff_eq member inHeld
  rw [List.filter_map, List.filter_map, (grouped.collects held member).ofTariff, List.filter_filter]
  congr 1
  apply List.filter_congr
  intro other _
  simp only [Function.comp_apply, Bool.and_eq_left_iff_imp, decide_eq_true_eq]
  intro startsTogether
  rw [lineTariff, startsTogether]
  exact ofHeld

/-! ### Sums -/

theorem toRat_total
    (collects : ∀ held ∈ made.subtotals,
      Decimal.sum? (held.lines.map RatedUsage.cost) = some held.subtotal)
    (total : Decimal.sum? (made.subtotals.map TariffSubtotal.subtotal) = some made.total)
    (keeps : KeepsAllDigits made) :
    made.total.toRat = ((made.subtotals.flatMap TariffSubtotal.lines).map fun line =>
      line.cost.toRat).sum := by
  have ofSubtotal : ∀ held ∈ made.subtotals,
      held.subtotal.toRat = (held.lines.map fun line => line.cost.toRat).sum := by
    intro held member
    rw [Decimal.toRat_sum? (collects held member) (keeps.1 held member), List.map_map]
    rfl
  calc made.total.toRat
      = ((made.subtotals.map TariffSubtotal.subtotal).map Decimal.toRat).sum :=
        Decimal.toRat_sum? total keeps.2
    _ = (made.subtotals.map fun held =>
          (held.lines.map fun line => line.cost.toRat).sum).sum := by
        rw [List.map_map]
        exact congrArg List.sum (List.map_congr_left ofSubtotal)
    _ = ((made.subtotals.flatMap TariffSubtotal.lines).map fun line => line.cost.toRat).sum := by
        rw [List.flatMap_def, List.map_flatten, List.sum_flatten, List.map_map, List.map_map]
        rfl

/-! ### Flagged services -/

theorem pairwise_flaggedServices
    (subtotals : List TariffSubtotal) :
    (flaggedServices subtotals).Pairwise (· < ·) := by
  have transitive : ∀ a b c : String,
      decide (a ≤ b) = true → decide (b ≤ c) = true → decide (a ≤ c) = true := by
    intro a b c ab bc
    exact decide_eq_true (String.le_trans (of_decide_eq_true ab) (of_decide_eq_true bc))
  have total : ∀ a b : String, (decide (a ≤ b) || decide (b ≤ a)) = true := by
    intro a b
    rw [Bool.or_eq_true, decide_eq_true_eq, decide_eq_true_eq]
    exact String.le_total a b
  have sorted := List.pairwise_mergeSort transitive total
    (((subtotals.flatMap TariffSubtotal.lines).filter RatedUsage.needsReview).map
      fun line => line.usage.service)
  apply pairwise_lt_eraseDups
  simpa only [decide_eq_true_eq] using sorted

theorem mem_flaggedServices_iff
    (subtotals : List TariffSubtotal)
    (service : String) :
    service ∈ flaggedServices subtotals ↔
      ∃ held ∈ subtotals, ∃ line ∈ held.lines,
        line.needsReview = true ∧ line.usage.service = service := by
  simp only [flaggedServices, List.mem_eraseDups, (List.mergeSort_perm _ _).mem_iff, List.mem_map,
    List.mem_filter, List.mem_flatMap]
  constructor
  · intro ⟨line, ⟨⟨held, member, inHeld⟩, awaits⟩, ofService⟩
    exact ⟨held, member, line, inHeld, awaits, ofService⟩
  · intro ⟨held, member, line, inHeld, awaits, ofService⟩
    exact ⟨line, ⟨⟨held, member, inHeld⟩, awaits⟩, ofService⟩

/-! ### Invoices -/

/-- Every invoice accounts for the records it was made from. -/
theorem accountsFor_of_invoice
    (rated : Rating.invoice default_ tenant period usages assignments unitOf catalog =
      (.ok made, after)) :
    AccountsFor default_ usages assignments catalog made := by
  have ⟨inOrder, total, flagged⟩ := rated_of_invoice rated
  have ⟨lines, sameUsages, grouped⟩ :=
    (grouped_nil (lineTariff default_ assignments catalog)).rateInOrder rfl inOrder
  have linesByStart : lines.Pairwise fun a b => a.usage.start ≤ b.usage.start := by
    have usagesByStart : (lines.map RatedUsage.usage).Pairwise fun a b => a.start ≤ b.start := by
      rw [sameUsages]
      exact pairwise_ordered usages
    rwa [List.pairwise_map] at usagesByStart
  have billed := usages_invoice rated
  have sums := fun held member => (grouped.collects held member).sum
  constructor
  case billed => exact billed
  case lineCount =>
    rw [Invoice.lineCount, ← billed.length_eq, Invoice.usages, TariffSubtotal.usages,
      List.length_map]
  case ofTariff =>
    intro held member line inHeld
    exact (grouped.tariff_eq member inHeld).symm
  case distinct => exact grouped.distinct
  case inhabited => exact fun held member => (grouped.collects held member).inhabited
  case byFirstLine => exact grouped.pairwise_firstLines linesByStart
  case byStart =>
    intro held member
    rw [(grouped.collects held member).ofTariff]
    exact linesByStart.filter _
  case ties =>
    intro held member line inHeld
    rw [grouped.filter_starting member inHeld, sameUsages, List.map_nil, List.nil_append,
      filter_ordered]
  case subtotal => exact sums
  case total => exact total
  case exact => exact toRat_total sums total
  case flaggedInOrder =>
    rw [flagged]
    exact pairwise_flaggedServices made.subtotals
  case flagged =>
    rw [flagged]
    exact mem_flaggedServices_iff made.subtotals

/-- A price of some cents for each started hour. -/
def hourlyCents (cents : Fin 100) : TariffEntry :=
  ⟨"m1.small", ⟨false, cents, 2, Nat.lt_trans cents.isLt (by decide), by decide⟩,
    .ofInt 3600, .time, false⟩

/-- Three tariffs, of which the default has no prices. -/
def changingCatalog : Catalog :=
  ((Catalog.empty.insertTariff ⟨"standard", .ofList [("m1.small", hourlyCents 5)]⟩).insertTariff
    ⟨"discount", .ofList [("m1.small", hourlyCents 4)]⟩).insertTariff ⟨"default", .empty⟩

/-- The beginning of an hour of the first day. -/
def hour (n : Fin 24) : Instant :=
  .ofSecond ⟨n * 3600, by omega⟩

/-- The tariff changes twice, the second time to one that the catalog lacks. -/
def changingAssignments : List TariffAssignment :=
  [⟨"standard", hour 0, some (hour 2)⟩, ⟨"discount", hour 0, some (hour 10)⟩,
    ⟨"retired", hour 10, none⟩]

/-- Usage of a service for an hour. -/
def hourOf (service : String) (start stop : Fin 24) : UsageRecord :=
  .ofService service (hour start) (hour stop) (.ofInt 3600)

def changingUsages : List UsageRecord :=
  [hourOf "m1.small" 10 11, hourOf "m1.small" 2 3, hourOf "gpu.a100" 0 1, hourOf "m1.small" 0 1]

def changingInvoice : Outcome Invoice × Catalog :=
  Rating.invoice "default" "acme" (hour 0, hour 11) changingUsages changingAssignments
    (fun _ => .quantity) changingCatalog

/-- Four records under three tariffs, the last of them the default in place of one
that the catalog lacks. -/
theorem accountsFor_changing_tariffs :
    ∃ made after, changingInvoice = (.ok made, after) ∧
      made.subtotals.map (fun held => (held.tariff, held.lines.length)) =
        [("standard", 2), ("discount", 1), ("default", 1)] ∧
      made.total.toText = "0.09" ∧ KeepsAllDigits made ∧
      AccountsFor "default" changingUsages changingAssignments changingCatalog made := by
  have inOrder : ordered changingUsages =
      [hourOf "gpu.a100" 0 1, hourOf "m1.small" 0 1, hourOf "m1.small" 2 3,
        hourOf "m1.small" 10 11] := by cbv
  have shown : changingInvoice.1.toOption.map (fun made =>
      (made.subtotals.map (fun held => (held.tariff, held.lines.length)), made.total.toText,
        decide (KeepsAllDigits made))) =
      some ([("standard", 2), ("discount", 1), ("default", 1)], "0.09", true) := by
    rw [changingInvoice, Rating.invoice, inOrder]
    decide +kernel
  cases result : changingInvoice with
  | mk outcome after =>
    rw [result] at shown
    cases outcome with
    | error failure => cases shown
    | ok made =>
      obtain ⟨tariffs, rest⟩ := Prod.mk.inj (Option.some.inj shown)
      obtain ⟨total, keeps⟩ := Prod.mk.inj rest
      exact ⟨made, after, rfl, tariffs, total, of_decide_eq_true keeps,
        accountsFor_of_invoice result⟩

end UsageBilling.Rating

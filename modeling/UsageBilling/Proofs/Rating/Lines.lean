import UsageBilling.Proofs.Rating.Tariffs

/-!
Contract: an invoice has one line for each record it was made from.

Owns:
- rating a record gives a line of that record;
- adding a line: it joins the subtotal of its tariff, or begins one at the end;
- adding lines and rating in order lose and invent nothing;
- the usage on an invoice is the usage rated, in some order;
- free services can always be rated.

Does not own: prices.
-/

namespace UsageBilling

def TariffSubtotal.usages (subtotals : List TariffSubtotal) : List UsageRecord :=
  (subtotals.flatMap TariffSubtotal.lines).map RatedUsage.usage

/-- The lines of subtotals, each with the tariff it is filed under. -/
def TariffSubtotal.filed (subtotals : List TariffSubtotal) : List (String × RatedUsage) :=
  subtotals.flatMap fun held => held.lines.map fun line => (held.tariff, line)

theorem TariffSubtotal.usages_eq_map_filed
    (subtotals : List TariffSubtotal) :
    usages subtotals = (filed subtotals).map fun line => line.2.usage := by
  simp only [usages, filed, List.map_flatMap, List.map_map, Function.comp_def]

theorem TariffSubtotal.mem_filed_iff
    (subtotals : List TariffSubtotal)
    (tariff : String)
    (line : RatedUsage) :
    (tariff, line) ∈ filed subtotals ↔
      ∃ held ∈ subtotals, held.tariff = tariff ∧ line ∈ held.lines := by
  simp only [filed, List.mem_flatMap, List.mem_map, Prod.mk.injEq]
  constructor
  · rintro ⟨held, member, _, inHeld, ofTariff, rfl⟩
    exact ⟨held, member, ofTariff, inHeld⟩
  · rintro ⟨held, member, ofTariff, inHeld⟩
    exact ⟨held, member, line, inHeld, ofTariff, rfl⟩

def Invoice.usages (invoice : Invoice) : List UsageRecord :=
  TariffSubtotal.usages invoice.subtotals

namespace Rating

variable {default_ tariff : String} {assignments : List TariffAssignment}
  {unitOf : UsageRecord → RateUnit} {usage : UsageRecord} {usages : List UsageRecord}
  {unit : RateUnit} {catalog after : Catalog} {line : RatedUsage}
  {subtotals extended : List TariffSubtotal}

/-! ## Lines and their records -/

theorem usage_of_lineOf
    {entry : TariffEntry}
    (rated : lineOf usage entry = .ok line) :
    line.usage = usage := by
  unfold lineOf at rated
  cases units : entry.billableUnits usage.volume with
  | error failure =>
    rw [units] at rated
    cases rated
  | ok billed =>
    cases cost : entry.cost usage.volume with
    | error failure =>
      rw [units, cost] at rated
      cases rated
    | ok price =>
      rw [units, cost] at rated
      cases rated
      rfl

theorem usage_of_rateRecord
    (rated : rateRecord tariff usage unit catalog = (.ok line, after)) :
    line.usage = usage := by
  unfold rateRecord at rated
  split at rated
  · exact usage_of_lineOf (Prod.mk.inj rated).1
  · cases (Prod.mk.inj rated).1

theorem usage_of_rateAssigned
    (rated : rateAssigned default_ assignments usage unit catalog = (.ok (tariff, line), after)) :
    line.usage = usage :=
  usage_of_rateRecord (rateAssigned_eq_ok_iff.mp rated).2

/-! ## Adding lines -/

/-- What adding a line does to the subtotals: the one of its tariff gets the line
and its cost, or there is none and a new one with the line comes last. -/
inductive LineAdded (tariff : String) (line : RatedUsage) :
    List TariffSubtotal → List TariffSubtotal → Prop where
  | joined (before after : List TariffSubtotal) (held : TariffSubtotal) (sum : Decimal)
      (ofTariff : held.tariff = tariff)
      (added : held.subtotal.add? line.cost = some sum) :
    LineAdded tariff line (before ++ held :: after)
      (before ++ ⟨tariff, held.lines ++ [line], sum⟩ :: after)
  | begun (subtotals : List TariffSubtotal) (sum : Decimal)
      (others : ∀ held ∈ subtotals, held.tariff ≠ tariff)
      (added : Decimal.zero.add? line.cost = some sum) :
    LineAdded tariff line subtotals (subtotals ++ [⟨tariff, [line], sum⟩])

theorem LineAdded.cons
    {held : TariffSubtotal}
    (other : held.tariff ≠ tariff)
    (lineAdded : LineAdded tariff line subtotals extended) :
    LineAdded tariff line (held :: subtotals) (held :: extended) := by
  cases lineAdded with
  | joined before after joinedTo sum ofTariff added =>
    exact .joined (held :: before) after joinedTo sum ofTariff added
  | begun _ sum others added =>
    apply LineAdded.begun (held :: subtotals) sum _ added
    intro each member
    rcases List.mem_cons.mp member with first | inRest
    · rw [first]
      exact other
    · exact others each inRest

theorem lineAdded_of_addLine
    (added : addLine tariff line subtotals = .ok extended) :
    LineAdded tariff line subtotals extended := by
  induction subtotals generalizing extended with
  | nil =>
    unfold addLine at added
    cases summed : Decimal.zero.add? line.cost with
    | none =>
      rw [summed] at added
      cases added
    | some sum =>
      rw [summed] at added
      cases added
      exact .begun [] sum (by simp) summed
  | cons held rest inductionHypothesis =>
    unfold addLine at added
    split at added
    · rename_i ofTariff
      cases summed : held.subtotal.add? line.cost with
      | none =>
        rw [summed] at added
        cases added
      | some sum =>
        rw [summed] at added
        cases added
        exact .joined [] rest held sum ofTariff summed
    · rename_i other
      cases later : addLine tariff line rest with
      | error failure =>
        rw [later] at added
        cases added
      | ok restExtended =>
        rw [later] at added
        cases added
        exact (inductionHypothesis later).cons other

theorem filed_addLine
    (added : addLine tariff line subtotals = .ok extended) :
    (TariffSubtotal.filed extended).Perm ((tariff, line) :: TariffSubtotal.filed subtotals) := by
  cases lineAdded_of_addLine added with
  | joined before after held sum ofTariff summed =>
    simp only [TariffSubtotal.filed, List.flatMap_append, List.flatMap_cons, List.map_append,
      List.map_cons, List.map_nil, List.append_assoc, List.singleton_append, ofTariff]
    rw [← List.append_assoc, ← List.append_assoc]
    exact List.perm_middle
  | begun _ sum others summed =>
    simp only [TariffSubtotal.filed, List.flatMap_append, List.flatMap_singleton, List.map_cons,
      List.map_nil]
    exact List.perm_append_singleton _ _

theorem usages_addLine
    (added : addLine tariff line subtotals = .ok extended) :
    (TariffSubtotal.usages extended).Perm (line.usage :: TariffSubtotal.usages subtotals) := by
  rw [TariffSubtotal.usages_eq_map_filed, TariffSubtotal.usages_eq_map_filed]
  exact (filed_addLine added).map _

/-! ## Rating in order -/

/-- Records are rated in order if the first is, and the others once its line is
added. -/
theorem exists_of_rateInOrder_cons
    (rated : rateInOrder default_ assignments unitOf subtotals (usage :: usages) catalog =
      (.ok extended, after)) :
    ∃ tariff line next added,
      rateAssigned default_ assignments usage (unitOf usage) catalog =
        (.ok (tariff, line), next) ∧
      addLine tariff line subtotals = .ok added ∧
      rateInOrder default_ assignments unitOf added usages next = (.ok extended, after) := by
  unfold rateInOrder at rated
  split at rated
  · cases (Prod.mk.inj rated).1
  · rename_i lineRated
    split at rated
    · cases (Prod.mk.inj rated).1
    · rename_i added
      exact ⟨_, _, _, _, lineRated, added, rated⟩

theorem usages_rateInOrder
    (rated : rateInOrder default_ assignments unitOf subtotals usages catalog =
      (.ok extended, after)) :
    (TariffSubtotal.usages extended).Perm (TariffSubtotal.usages subtotals ++ usages) := by
  induction usages generalizing subtotals catalog with
  | nil =>
    cases rated
    rw [List.append_nil]
  | cons usage rest inductionHypothesis =>
    obtain ⟨_, _, _, _, lineRated, added, restRated⟩ := exists_of_rateInOrder_cons rated
    have one := usages_addLine added
    rw [usage_of_rateAssigned lineRated] at one
    exact (inductionHypothesis restRated).trans
      ((one.append_right rest).trans List.perm_middle.symm)

/-! ## Invoices -/

/-- An invoice is made of records rated in order, and of the total of their
subtotals. -/
theorem rated_of_invoice
    {tenant : String}
    {period : Instant × Instant}
    {made : Invoice}
    (rated : Rating.invoice default_ tenant period usages assignments unitOf catalog =
      (.ok made, after)) :
    rateInOrder default_ assignments unitOf [] (ordered usages) catalog =
        (.ok made.subtotals, after) ∧
      Decimal.sum? (made.subtotals.map TariffSubtotal.subtotal) = some made.total ∧
      made.flaggedServices = flaggedServices made.subtotals := by
  unfold Rating.invoice at rated
  split at rated
  · cases (Prod.mk.inj rated).1
  · rename_i subtotals next inOrder
    cases summed : Decimal.sum? (subtotals.map TariffSubtotal.subtotal) with
    | none =>
      rw [summed] at rated
      cases (Prod.mk.inj rated).1
    | some total =>
      rw [summed] at rated
      cases rated
      exact ⟨inOrder, summed, rfl⟩

/-- The usage on an invoice is the usage it was made from. -/
theorem usages_invoice
    {tenant : String}
    {period : Instant × Instant}
    {made : Invoice}
    (rated : Rating.invoice default_ tenant period usages assignments unitOf catalog =
      (.ok made, after)) :
    made.usages.Perm usages :=
  (usages_rateInOrder (rated_of_invoice rated).1).trans (List.mergeSort_perm _ _)

/-! ## Free services -/

/-- Whether a tariff gives a service away. -/
def Free (catalog : Catalog) (tariff service : String) : Prop :=
  ∃ entry, catalog.entry tariff service = .ok entry ∧
    entry.price = Decimal.zero ∧ entry.rate = Decimal.one

private theorem zero_add? : Decimal.zero.add? Decimal.zero = some Decimal.zero :=
  rfl

theorem lineOf_of_free
    {entry : TariffEntry}
    (price : entry.price = Decimal.zero)
    (rate : entry.rate = Decimal.one) :
    lineOf usage entry =
      .ok ⟨usage, usage.volume, entry.price, Decimal.zero, entry.needsReview⟩ := by
  have whole : Decimal.one.lessThan Decimal.one = false := rfl
  have units : entry.billableUnits usage.volume = .ok usage.volume := by
    rw [TariffEntry.billableUnits, rate, whole]
    rfl
  have cost : entry.cost usage.volume = .ok Decimal.zero := by
    have product : usage.volume.mul? Decimal.zero = some Decimal.zero := by
      rw [Decimal.mul?]
      simp [Decimal.isZero, Decimal.zero]
    rw [TariffEntry.cost, units]
    simp only [bind, Except.bind, price, product]
    rfl
  simp only [lineOf, units, cost, bind, Except.bind, pure, Except.pure]

theorem rateAssigned_of_free
    (free : Free catalog default_ usage.service)
    (unit : RateUnit) :
    ∃ line, rateAssigned default_ [] usage unit catalog = (.ok (default_, line), catalog) ∧
      line.cost = Decimal.zero := by
  obtain ⟨entry, found, price, rate⟩ := free
  have rated : rateRecord default_ usage unit catalog =
      (.ok ⟨usage, usage.volume, entry.price, Decimal.zero, entry.needsReview⟩, catalog) := by
    rw [rateRecord, Catalog.entryOrProvision, found]
    simp only [lineOf_of_free price rate]
  refine ⟨⟨usage, usage.volume, entry.price, Decimal.zero, entry.needsReview⟩, ?_, rfl⟩
  rw [rateAssigned]
  simp only [tariffAt, List.find?_nil, rated]

private theorem addLine_of_free
    (tariff : String)
    (costless : line.cost = Decimal.zero)
    (zeros : ∀ held ∈ subtotals, held.subtotal = Decimal.zero) :
    ∃ extended, addLine tariff line subtotals = .ok extended ∧
      ∀ held ∈ extended, held.subtotal = Decimal.zero := by
  induction subtotals with
  | nil =>
    refine ⟨[⟨tariff, [line], Decimal.zero⟩], ?_, by simp⟩
    rw [addLine, costless, zero_add?]
    rfl
  | cons held rest inductionHypothesis =>
    simp only [List.mem_cons, forall_eq_or_imp] at zeros
    rw [addLine, costless, zeros.1, zero_add?]
    split
    · exact ⟨_, rfl, by simpa using zeros.2⟩
    · obtain ⟨extended, added, stillZero⟩ := inductionHypothesis zeros.2
      rw [added]
      exact ⟨held :: extended, rfl, by simpa [zeros.1] using stillZero⟩

private theorem rateInOrder_of_free
    (unitOf : UsageRecord → RateUnit)
    (free : ∀ usage ∈ usages, Free catalog default_ usage.service)
    (zeros : ∀ held ∈ subtotals, held.subtotal = Decimal.zero) :
    ∃ extended, rateInOrder default_ [] unitOf subtotals usages catalog =
        (.ok extended, catalog) ∧ ∀ held ∈ extended, held.subtotal = Decimal.zero := by
  induction usages generalizing subtotals with
  | nil => exact ⟨subtotals, rfl, zeros⟩
  | cons usage rest inductionHypothesis =>
    simp only [List.mem_cons, forall_eq_or_imp] at free
    obtain ⟨line, rated, costless⟩ := rateAssigned_of_free free.1 (unitOf usage)
    obtain ⟨extended, added, stillZero⟩ := addLine_of_free default_ costless zeros
    rw [rateInOrder, rated]
    simp only [added]
    exact inductionHypothesis free.2 stillZero

private theorem sum?_of_zeros
    (terms : List Decimal)
    (zeros : ∀ term ∈ terms, term = Decimal.zero) :
    Decimal.sum? terms = some Decimal.zero := by
  rw [List.eq_replicate_of_mem zeros, Decimal.sum?]
  induction terms.length with
  | zero => rfl
  | succ count inductionHypothesis =>
    rw [List.replicate_succ, List.foldlM_cons, zero_add?]
    exact inductionHypothesis

theorem exists_invoice_of_free
    (tenant : String)
    (period : Instant × Instant)
    (unitOf : UsageRecord → RateUnit)
    (free : ∀ usage ∈ usages, Free catalog default_ usage.service) :
    ∃ made, Rating.invoice default_ tenant period usages [] unitOf catalog =
      (.ok made, catalog) := by
  have freeInOrder : ∀ usage ∈ ordered usages, Free catalog default_ usage.service :=
    fun usage member => free usage (List.mem_mergeSort.mp member)
  have nothingYet : ∀ held ∈ ([] : List TariffSubtotal), held.subtotal = Decimal.zero := by
    simp
  obtain ⟨subtotals, rated, zeros⟩ := rateInOrder_of_free unitOf freeInOrder nothingYet
  rw [Rating.invoice, rated]
  simp only [sum?_of_zeros (subtotals.map TariffSubtotal.subtotal) (by simpa using zeros)]
  exact ⟨_, rfl⟩

/-! ## Unpriced services -/

/-- Whether a catalog has a tariff, and nothing else about a service. -/
structure Unpriced (catalog : Catalog) (tariff service : String) : Prop where
  tariffHeld : ∃ table, catalog.tariffs.get? tariff = some table ∧
    table.entries.get? service = none
  noProfile : catalog.profiles.get? service = none
  noProvisional : catalog.provisional.get? service = none

private theorem exists_rateAssigned_of_unpriced
    (unpriced : Unpriced catalog default_ usage.service)
    (unit : RateUnit) :
    ∃ line after, rateAssigned default_ [] usage unit catalog = (.ok (default_, line), after) ∧
      line.cost = Decimal.zero ∧
      after.provisional.get? usage.service =
        some (TariffEntry.provisional usage.service unit) := by
  obtain ⟨⟨table, held, noEntry⟩, noProfile, noProvisional⟩ := unpriced
  let entry := TariffEntry.provisional usage.service unit
  let after : Catalog := { catalog with
    profiles := catalog.profiles.insert usage.service usage.service
    provisional := catalog.provisional.insert usage.service entry }
  have given : after.provisional.get? usage.service = some entry := by
    simp only [after, Table.get?_insert, if_true]
  have missing : catalog.entry default_ usage.service =
      .error (.unknownService usage.service) := by
    simp only [Catalog.entry, held, noEntry, noProvisional]
  have found : after.entry default_ usage.service = .ok entry := by
    have sameTariff : after.tariffs.get? default_ = some table := held
    simp only [Catalog.entry, sameTariff, noEntry, given]
  have provisioned : catalog.provision usage.service unit = (usage.service, after) := by
    simp only [Catalog.provision, Catalog.claimProfile, Catalog.claimProvisional,
      Table.getOrInsert, noProfile, noProvisional, after, entry]
  have rated : rateRecord default_ usage unit catalog =
      (.ok ⟨usage, usage.volume, entry.price, Decimal.zero, entry.needsReview⟩, after) := by
    rw [rateRecord, Catalog.entryOrProvision, missing]
    simp only [provisioned, found, lineOf_of_free (show entry.price = Decimal.zero from rfl)
      (show entry.rate = Decimal.one from rfl)]
  refine ⟨⟨usage, usage.volume, entry.price, Decimal.zero, entry.needsReview⟩, after, ?_, rfl,
    given⟩
  rw [rateAssigned]
  simp only [tariffAt, List.find?_nil, rated]

/-- A record of an unpriced service can be rated, which provisions the service
with the unit of the record. -/
theorem exists_invoice_of_unpriced
    (unpriced : Unpriced catalog default_ usage.service)
    (tenant : String)
    (period : Instant × Instant)
    (unitOf : UsageRecord → RateUnit) :
    ∃ made after, Rating.invoice default_ tenant period [usage] [] unitOf catalog =
        (.ok made, after) ∧
      after.provisional.get? usage.service =
        some (TariffEntry.provisional usage.service (unitOf usage)) := by
  obtain ⟨line, after, rated, costless, given⟩ :=
    exists_rateAssigned_of_unpriced unpriced (unitOf usage)
  have nothingYet : ∀ held ∈ ([] : List TariffSubtotal), held.subtotal = Decimal.zero := by
    simp
  obtain ⟨subtotals, added, zeros⟩ := addLine_of_free default_ costless nothingYet
  have inOrder : rateInOrder default_ [] unitOf [] (ordered [usage]) catalog =
      (.ok subtotals, after) := by
    rw [ordered, List.mergeSort_singleton, rateInOrder, rated]
    simp only [added, rateInOrder]
  rw [Rating.invoice, inOrder]
  simp only [sum?_of_zeros (subtotals.map TariffSubtotal.subtotal) (by simpa using zeros)]
  exact ⟨_, after, rfl, given⟩

end Rating

end UsageBilling

import UsageBilling.Proofs.Rating.Growth
import UsageBilling.Proofs.Rating.Invoice

/-!
Contract: the same records rated twice in one catalog.

Owns:
- rating only provisions the catalog further, and what it has rated it rates again
  without a change to the catalog;
- a line is the same again unless its service got a provisional entry after the line
  was rated: such a line is free and under review the second time;
- when an invoice is the same again.

A record whose service is a profile of another service is priced as that other
service. If the first service is provisioned later, for a profile of its own, it
has an entry that takes the place of that price.

Does not own: changes that operators make to the catalog between the invoices.
-/

namespace UsageBilling.Rating

variable {default_ tariff tenant : String} {period : Instant × Instant}
  {assignments : List TariffAssignment} {unitOf : UsageRecord → RateUnit}
  {usage : UsageRecord} {usages : List UsageRecord} {unit : RateUnit}
  {catalog next after : Catalog} {line : RatedUsage}
  {subtotals extended : List TariffSubtotal} {made : Invoice}

/-! ## Free lines -/

/-- The line of a record whose service nobody has priced. -/
def freeLine (usage : UsageRecord) : RatedUsage :=
  ⟨usage, usage.volume, Decimal.zero, Decimal.zero, true⟩

theorem lineOf_provisional
    (usage : UsageRecord)
    (service : String)
    (unit : RateUnit) :
    lineOf usage (TariffEntry.provisional service unit) = .ok (freeLine usage) :=
  lineOf_of_free rfl rfl

/-- So is the line of a record that is priced by a service without an entry of the
tariff. -/
theorem lineOf_getD_provisional
    (awaits : catalog.AwaitsPrices)
    (usage : UsageRecord)
    (service : String)
    (unit : RateUnit) :
    lineOf usage
        ((catalog.provisional.get? service).getD (TariffEntry.provisional service unit)) =
      .ok (freeLine usage) := by
  cases provisional : catalog.provisional.get? service with
  | none => exact lineOf_provisional usage service unit
  | some entry =>
    have ⟨givenUnit, isProvisional⟩ := awaits service entry provisional
    rw [Option.getD_some, isProvisional]
    exact lineOf_provisional usage service givenUnit

/-- Whether a service has a provisional entry and a tariff none, so that the tariff
gives the service away. -/
structure GivenAway (catalog : Catalog) (tariff service : String) : Prop where
  unpriced : ∃ table, catalog.tariffs.get? tariff = some table ∧
    table.entries.get? service = none
  provisional : ∃ entry, catalog.provisional.get? service = some entry

theorem GivenAway.extends
    {service : String}
    (givenAway : GivenAway catalog tariff service)
    (extended : catalog.Extends after) :
    GivenAway after tariff service where
  unpriced := by
    rw [extended.tariffs]
    exact givenAway.unpriced
  provisional := by
    have ⟨entry, held⟩ := givenAway.provisional
    exact ⟨entry, extended.provisional service entry held⟩

/-! ## One record -/

theorem catalog_rateRecord
    (tariff : String)
    (usage : UsageRecord)
    (unit : RateUnit)
    (catalog : Catalog) :
    (rateRecord tariff usage unit catalog).2 =
      (catalog.entryOrProvision tariff usage.service unit).2 := by
  unfold rateRecord
  split
  · rename_i found
    rw [found]
  · rename_i failed
    rw [failed]

theorem rateRecord_of_entry
    {entry : TariffEntry}
    (found : catalog.entryOrProvision tariff usage.service unit = (.ok entry, next))
    (made : lineOf usage entry = .ok line) :
    rateRecord tariff usage unit catalog = (.ok line, next) := by
  rw [rateRecord, found, ← made]

/-- A record of a service that is given away has a free line. -/
theorem rateRecord_of_givenAway
    (awaits : catalog.AwaitsPrices)
    (givenAway : GivenAway catalog tariff usage.service)
    (unit : RateUnit) :
    rateRecord tariff usage unit catalog = (.ok (freeLine usage), catalog) := by
  have ⟨table, held, unpriced⟩ := givenAway.unpriced
  have ⟨entry, provisional⟩ := givenAway.provisional
  have free := lineOf_getD_provisional awaits usage usage.service unit
  rw [provisional] at free
  exact rateRecord_of_entry
    (Catalog.entryOrProvision_of_provisional held unpriced provisional unit) free

theorem extends_of_rateRecord
    (rated : rateRecord tariff usage unit catalog = (.ok line, next)) :
    catalog.Extends next := by
  have extended := catalog.extends_entryOrProvision tariff usage.service unit
  rw [← catalog_rateRecord, rated] at extended
  exact extended

/-- What a rated record was priced by: an entry under a tariff that the catalog has. -/
theorem exists_entry_of_rateRecord
    (rated : rateRecord tariff usage unit catalog = (.ok line, next)) :
    ∃ table entry, catalog.tariffs.get? tariff = some table ∧
      catalog.entryOrProvision tariff usage.service unit = (.ok entry, next) ∧
      lineOf usage entry = .ok line := by
  cases held : catalog.tariffs.get? tariff with
  | none =>
    have lacks : catalog.tariffs.contains tariff = false := by
      rw [Table.contains, held]
      rfl
    rw [rateRecord_of_not_contains lacks] at rated
    cases (Prod.mk.inj rated).1
  | some table =>
    unfold rateRecord at rated
    split at rated
    · rename_i entry provisioned found
      have ⟨made, left⟩ := Prod.mk.inj rated
      exact ⟨table, entry, rfl, found.trans (by rw [left]), made⟩
    · cases (Prod.mk.inj rated).1

/-- A record that was rated is rated again in the same way as long as its service has
not become one that the tariff gives away. -/
theorem rateRecord_again
    (awaits : catalog.AwaitsPrices)
    (rated : rateRecord tariff usage unit catalog = (.ok line, next))
    (further : next.Extends after)
    (notGivenAway : ¬ GivenAway after tariff usage.service) :
    rateRecord tariff usage unit after = (.ok line, after) := by
  have extended := (extends_of_rateRecord rated).trans further
  have ⟨table, entry, held, found, made⟩ := exists_entry_of_rateRecord rated
  have heldAfter : after.tariffs.get? tariff = some table := by
    rw [extended.tariffs, held]
  cases priced : table.entries.get? usage.service with
  | some tariffEntry =>
    rw [Catalog.entryOrProvision_of_priced held priced] at found
    cases found
    exact rateRecord_of_entry (Catalog.entryOrProvision_of_priced heldAfter priced unit) made
  | none =>
    have unknownAfter : after.provisional.get? usage.service = none := by
      rw [Option.eq_none_iff_forall_ne_some]
      intro provisional given
      exact notGivenAway ⟨⟨table, heldAfter, priced⟩, provisional, given⟩
    have unknown : catalog.provisional.get? usage.service = none := by
      rw [Option.eq_none_iff_forall_ne_some]
      intro provisional given
      rw [extended.provisional usage.service provisional given] at unknownAfter
      cases unknownAfter
    rw [Catalog.entryOrProvision_of_unknown held priced unknown] at found
    have ⟨answer, left⟩ := Prod.mk.inj found
    have provisioned : after.Provisioned usage.service :=
      (left ▸ catalog.provisioned_provision usage.service unit).extends further
    have foundAfter :=
      Catalog.entryOrProvision_of_unknown heldAfter priced unknownAfter unit
    rw [provisioned.provision_eq, extended.serviceFor] at foundAfter
    apply rateRecord_of_entry foundAfter
    rw [← Except.ok.inj answer] at made
    -- The other service has the tariff's entry both times, or is free both times.
    cases otherPriced : table.entries.get? (catalog.serviceFor usage.service) with
    | some otherEntry =>
      rw [otherPriced] at made
      exact made
    | none =>
      rw [otherPriced, Option.getD_none, lineOf_getD_provisional awaits] at made
      rw [Option.getD_none, lineOf_getD_provisional (awaits.extends extended)]
      exact made

/-- Whether the service of a profile is never a profile of another service. -/
def Settled (catalog : Catalog) : Prop :=
  ∀ profile, catalog.serviceFor (catalog.serviceFor profile) = catalog.serviceFor profile

/-- In a settled catalog, a service that comes to be given away was free before. It is
the service of the tag that was provisioned, and so it was provisioned itself. -/
theorem Settled.free_of_givenAway
    (settled : Settled catalog)
    (awaits : catalog.AwaitsPrices)
    (rated : rateRecord tariff usage unit catalog = (.ok line, next))
    (further : next.Extends after)
    (givenAway : GivenAway after tariff usage.service) :
    line = freeLine usage := by
  have extended := (extends_of_rateRecord rated).trans further
  have ⟨table, held, unpriced⟩ := givenAway.unpriced
  have ⟨entry, given⟩ := givenAway.provisional
  rw [extended.tariffs] at held
  cases provisional : catalog.provisional.get? usage.service with
  | some entry =>
    rw [rateRecord_of_givenAway awaits ⟨⟨table, held, unpriced⟩, entry, provisional⟩] at rated
    cases rated
    rfl
  | none =>
    have own : catalog.serviceFor usage.service = usage.service := by
      rcases extended.made usage.service entry given with before | ⟨tag, _, ofTag, _⟩
      · rw [provisional] at before
        cases before
      · rw [← ofTag]
        exact settled tag
    have found := Catalog.entryOrProvision_of_unknown held unpriced provisional unit
    rw [own, unpriced, Option.getD_none] at found
    rw [rateRecord_of_entry found (lineOf_getD_provisional awaits usage usage.service unit)]
      at rated
    cases rated
    rfl

/-! ## Records in order -/

theorem extends_of_rateInOrder
    (rated : rateInOrder default_ assignments unitOf subtotals usages catalog =
      (.ok extended, after)) :
    catalog.Extends after := by
  induction usages generalizing subtotals catalog with
  | nil =>
    cases rated
    exact .refl _
  | cons usage rest inductionHypothesis =>
    have ⟨_, _, _, _, lineRated, _, restRated⟩ := exists_of_rateInOrder_cons rated
    have ⟨_, recordRated⟩ := rateAssigned_eq_ok_iff.mp lineRated
    exact (extends_of_rateRecord recordRated).trans (inductionHypothesis restRated)

/-- Lines that are filed stay filed. -/
theorem mem_filed_of_rateInOrder
    (rated : rateInOrder default_ assignments unitOf subtotals usages catalog =
      (.ok extended, after))
    (filed : (tariff, line) ∈ TariffSubtotal.filed subtotals) :
    (tariff, line) ∈ TariffSubtotal.filed extended := by
  induction usages generalizing subtotals catalog with
  | nil =>
    cases rated
    exact filed
  | cons usage rest inductionHypothesis =>
    have ⟨_, _, _, _, _, lineAdded, restRated⟩ := exists_of_rateInOrder_cons rated
    apply inductionHypothesis restRated
    exact (filed_addLine lineAdded).mem_iff.mpr (List.mem_cons_of_mem _ filed)

/-- Every line that is filed in rating is one that was filed before, or that of a record
rated in a catalog on the way. -/
theorem exists_of_mem_filed
    (rated : rateInOrder default_ assignments unitOf subtotals usages catalog =
      (.ok extended, after))
    (filed : (tariff, line) ∈ TariffSubtotal.filed extended) :
    (tariff, line) ∈ TariffSubtotal.filed subtotals ∨
      ∃ unit before next, catalog.Extends before ∧ next.Extends after ∧
        rateRecord tariff line.usage unit before = (.ok line, next) := by
  induction usages generalizing subtotals catalog with
  | nil =>
    cases rated
    exact Or.inl filed
  | cons usage rest inductionHypothesis =>
    have ⟨lineTariff, first, next, added, lineRated, lineAdded, restRated⟩ :=
      exists_of_rateInOrder_cons rated
    have ⟨_, recordRated⟩ := rateAssigned_eq_ok_iff.mp lineRated
    rcases inductionHypothesis restRated with
      before | ⟨unit, before, following, extended, further, ratedThen⟩
    · rcases List.mem_cons.mp ((filed_addLine lineAdded).mem_iff.mp before) with isFirst | earlier
      · cases isFirst
        refine Or.inr ⟨unitOf usage, catalog, next, .refl catalog,
          extends_of_rateInOrder restRated, ?_⟩
        rw [usage_of_rateRecord recordRated]
        exact recordRated
      · exact Or.inl earlier
    · exact Or.inr ⟨unit, before, following,
        (extends_of_rateRecord recordRated).trans extended, further, ratedThen⟩

/-- A record that was rated under the tariff in force is rated again under the same
tariff, which leaves the catalog, and with the same line unless it is to be free. -/
theorem exists_rateAssigned_again
    (awaits : catalog.AwaitsPrices)
    (rated : rateAssigned default_ assignments usage unit catalog = (.ok (tariff, line), next))
    (further : next.Extends after) :
    ∃ again, rateAssigned default_ assignments usage unit after = (.ok (tariff, again), after) ∧
      ((GivenAway after tariff usage.service → line = freeLine usage) → again = line) := by
  have ⟨ofStart, recordRated⟩ := rateAssigned_eq_ok_iff.mp rated
  have extended := (extends_of_rateRecord recordRated).trans further
  have ofStartAfter : tariff = billingTariff default_ assignments after usage.start :=
    ofStart.trans (billingTariff_congr extended.tariffs default_ assignments usage.start).symm
  by_cases givenAway : GivenAway after tariff usage.service
  · have free := rateRecord_of_givenAway (awaits.extends extended) givenAway unit
    exact ⟨freeLine usage, rateAssigned_eq_ok_iff.mpr ⟨ofStartAfter, free⟩,
      fun stable => (stable givenAway).symm⟩
  · have same := rateRecord_again awaits recordRated further givenAway
    exact ⟨line, rateAssigned_eq_ok_iff.mpr ⟨ofStartAfter, same⟩, fun _ => rfl⟩

/-- Rating records again in a catalog that they have provisioned does not change it. -/
theorem catalog_rateInOrder_again
    (awaits : catalog.AwaitsPrices)
    (rated : rateInOrder default_ assignments unitOf subtotals usages catalog =
      (.ok extended, next))
    (further : next.Extends after)
    (others : List TariffSubtotal) :
    (rateInOrder default_ assignments unitOf others usages after).2 = after := by
  induction usages generalizing subtotals catalog others with
  | nil => rfl
  | cons usage rest inductionHypothesis =>
    have ⟨_, _, _, _, lineRated, _, restRated⟩ := exists_of_rateInOrder_cons rated
    have ⟨_, recordRated⟩ := rateAssigned_eq_ok_iff.mp lineRated
    have ⟨again, ratedAgain, _⟩ := exists_rateAssigned_again awaits lineRated
      ((extends_of_rateInOrder restRated).trans further)
    rw [rateInOrder, ratedAgain]
    dsimp only
    split
    · rfl
    · exact inductionHypothesis (awaits.extends (extends_of_rateRecord recordRated)) restRated _

/-- Records are rated again with the same lines if every line whose service has come to
be given away was free before. -/
theorem rateInOrder_again
    (awaits : catalog.AwaitsPrices)
    (rated : rateInOrder default_ assignments unitOf subtotals usages catalog =
      (.ok extended, next))
    (further : next.Extends after)
    (stable : ∀ tariff line, (tariff, line) ∈ TariffSubtotal.filed extended →
      GivenAway after tariff line.usage.service → line = freeLine line.usage) :
    rateInOrder default_ assignments unitOf subtotals usages after = (.ok extended, after) := by
  induction usages generalizing subtotals catalog with
  | nil =>
    cases rated
    rfl
  | cons usage rest inductionHypothesis =>
    have ⟨tariff, line, _, added, lineRated, lineAdded, restRated⟩ :=
      exists_of_rateInOrder_cons rated
    have ⟨_, recordRated⟩ := rateAssigned_eq_ok_iff.mp lineRated
    have ⟨again, ratedAgain, sameIf⟩ := exists_rateAssigned_again awaits lineRated
      ((extends_of_rateInOrder restRated).trans further)
    have filed : (tariff, line) ∈ TariffSubtotal.filed extended :=
      mem_filed_of_rateInOrder restRated
        ((filed_addLine lineAdded).mem_iff.mpr List.mem_cons_self)
    have same : again = line := by
      apply sameIf
      have lineStable := stable tariff line filed
      rw [usage_of_rateRecord recordRated] at lineStable
      exact lineStable
    rw [rateInOrder, ratedAgain, same]
    dsimp only
    rw [lineAdded]
    exact inductionHypothesis (awaits.extends (extends_of_rateRecord recordRated)) restRated

/-! ## Invoices -/

theorem catalog_invoice
    (default_ tenant : String)
    (period : Instant × Instant)
    (usages : List UsageRecord)
    (assignments : List TariffAssignment)
    (unitOf : UsageRecord → RateUnit)
    (catalog : Catalog) :
    (invoice default_ tenant period usages assignments unitOf catalog).2 =
      (rateInOrder default_ assignments unitOf [] (ordered usages) catalog).2 := by
  unfold invoice
  split
  · rename_i failed
    rw [failed]
  · rename_i rated
    rw [rated]

/-- An invoice is a matter of the subtotals that rating in order comes to. -/
theorem invoice_congr
    {other : Catalog}
    (rated : rateInOrder default_ assignments unitOf [] (ordered usages) catalog =
      (.ok subtotals, after))
    (ratedOther : rateInOrder default_ assignments unitOf [] (ordered usages) other =
      (.ok subtotals, after)) :
    invoice default_ tenant period usages assignments unitOf catalog =
      invoice default_ tenant period usages assignments unitOf other := by
  rw [invoice, invoice, rated, ratedOther]

/-- Whether every line of an invoice that a catalog gives away is free and under
review. -/
def FreeWhereGivenAway (catalog : Catalog) (made : Invoice) : Prop :=
  ∀ held ∈ made.subtotals, ∀ line ∈ held.lines,
    GivenAway catalog held.tariff line.usage.service → line = freeLine line.usage

/-- The same call again leaves the catalog as the first call left it. It makes the same
invoice exactly if every line whose service that catalog gives away was free already,
which is so if no profile has a service that is a profile of another. -/
theorem invoice_again_eq_iff
    (operations : List Catalog.Operation)
    (rated : invoice default_ tenant period usages assignments unitOf
      (Catalog.reached operations) = (.ok made, after)) :
    (invoice default_ tenant period usages assignments unitOf after).2 = after ∧
      ((invoice default_ tenant period usages assignments unitOf after).1 = .ok made ↔
        FreeWhereGivenAway after made) ∧
      (Settled (Catalog.reached operations) →
        (invoice default_ tenant period usages assignments unitOf after).1 = .ok made) := by
  have awaits := Catalog.awaitsPrices_reached operations
  have ⟨inOrder, _, _⟩ := rated_of_invoice rated
  have extended := extends_of_rateInOrder inOrder
  have unchanged : (invoice default_ tenant period usages assignments unitOf after).2 = after := by
    rw [catalog_invoice]
    exact catalog_rateInOrder_again awaits inOrder (.refl after) []
  have again : FreeWhereGivenAway after made →
      (invoice default_ tenant period usages assignments unitOf after).1 = .ok made := by
    intro free
    have stable : ∀ tariff line, (tariff, line) ∈ TariffSubtotal.filed made.subtotals →
        GivenAway after tariff line.usage.service → line = freeLine line.usage := by
      intro tariff line filed
      have ⟨held, member, ofTariff, inHeld⟩ := (TariffSubtotal.mem_filed_iff _ _ _).mp filed
      rw [← ofTariff]
      exact free held member line inHeld
    have inOrderAgain := rateInOrder_again awaits inOrder (.refl after) stable
    rw [← invoice_congr inOrder inOrderAgain, rated]
  refine ⟨unchanged, ⟨?_, again⟩, ?_⟩
  · intro same held member line inHeld givenAway
    have ⟨inOrderAgain, _, _⟩ := rated_of_invoice (Prod.ext same unchanged)
    have filed : (held.tariff, line) ∈ TariffSubtotal.filed made.subtotals :=
      (TariffSubtotal.mem_filed_iff _ _ _).mpr ⟨held, member, rfl, inHeld⟩
    rcases exists_of_mem_filed inOrderAgain filed with
      before | ⟨unit, before, next, beforeExtends, _, recordRated⟩
    · cases before
    · rw [rateRecord_of_givenAway ((awaits.extends extended).extends beforeExtends)
        (givenAway.extends beforeExtends)] at recordRated
      exact (Except.ok.inj (Prod.mk.inj recordRated).1).symm
  · intro settled
    apply again
    intro held member line inHeld givenAway
    have filed : (held.tariff, line) ∈ TariffSubtotal.filed made.subtotals :=
      (TariffSubtotal.mem_filed_iff _ _ _).mpr ⟨held, member, rfl, inHeld⟩
    rcases exists_of_mem_filed inOrder filed with
      before | ⟨unit, before, next, beforeExtends, further, recordRated⟩
    · cases before
    · have settledBefore : Settled before := by
        rw [Settled, beforeExtends.serviceFor]
        exact settled
      exact settledBefore.free_of_givenAway (awaits.extends beforeExtends) recordRated further
        givenAway

/-- A tariff that prices one service for each hour, and a profile of the service. -/
def hourlyOperations (cents : Fin 100) : List Catalog.Operation :=
  [.insertTariff ⟨"default", .ofList [("m1.small", hourlyCents cents)]⟩,
    .withProfile "m1.tiny" "m1.small"]

/-- An hour of the profile, and then one of another service. -/
def hourlyUsages (other : String) (start middle stop : Fin 24) : List UsageRecord :=
  [hourOf "m1.tiny" start middle, hourOf other middle stop]

def hourlyInvoice (start stop : Fin 24) (usages : List UsageRecord) (catalog : Catalog) :
    Outcome Invoice × Catalog :=
  Rating.invoice "default" "acme" (hour start, hour stop) usages [] (fun _ => .time) catalog

/-- The services of an invoice's lines, each with whether it awaits a price. -/
def reviewed (made : Invoice) : List (String × Bool) :=
  made.subtotals.flatMap fun held =>
    held.lines.map fun line => (line.usage.service, line.needsReview)

theorem settled_hourlyOperations
    (cents : Fin 100) :
    Settled (Catalog.reached (hourlyOperations cents)) := by
  have service : ∀ profile, (Catalog.reached (hourlyOperations cents)).serviceFor profile =
      if "m1.tiny" = profile then "m1.small" else profile := by
    intro profile
    show (Table.lookup profile [("m1.tiny", "m1.small")]).getD profile = _
    unfold Table.lookup
    split
    · rfl
    · rfl
  intro profile
  rw [service profile]
  split
  · exact service "m1.small"
  · rename_i other
    rw [service profile, if_neg other]

/-- A profile is charged its service's price both times, and the other service is under
review both times. -/
theorem invoice_again_of_settled :
    ∃ made after,
      hourlyInvoice 0 2 (hourlyUsages "net.in" 0 1 2) (Catalog.reached (hourlyOperations 5)) =
          (.ok made, after) ∧
        made.total.toText = "0.05" ∧ reviewed made = [("m1.tiny", false), ("net.in", true)] ∧
        hourlyInvoice 0 2 (hourlyUsages "net.in" 0 1 2) after = (.ok made, after) := by
  have inOrder : ordered (hourlyUsages "net.in" 0 1 2) = hourlyUsages "net.in" 0 1 2 := by cbv
  have shown : (hourlyInvoice 0 2 (hourlyUsages "net.in" 0 1 2)
      (Catalog.reached (hourlyOperations 5))).1.toOption.map
        (fun made => (made.total.toText, reviewed made)) =
          some ("0.05", [("m1.tiny", false), ("net.in", true)]) := by
    rw [hourlyInvoice, Rating.invoice, inOrder]
    decide +kernel
  cases rated : hourlyInvoice 0 2 (hourlyUsages "net.in" 0 1 2)
      (Catalog.reached (hourlyOperations 5)) with
  | mk outcome after =>
    rw [rated] at shown
    cases outcome with
    | error failure => cases shown
    | ok made =>
      obtain ⟨total, review⟩ := Prod.mk.inj (Option.some.inj shown)
      obtain ⟨unchanged, _, same⟩ := invoice_again_eq_iff (hourlyOperations 5) rated
      exact ⟨made, after, rfl, total, review,
        Prod.ext (same (settled_hourlyOperations 5)) unchanged⟩

/-- The profile is the service of another profile, too. -/
def chainedOperations (cents : Fin 100) : List Catalog.Operation :=
  hourlyOperations cents ++ [.withProfile "vm" "m1.tiny"]

/-- The first invoice charges the first record the price of its profile's service, and
provisions its own name for the second one. The second invoice is free. -/
theorem not_forall_invoice_again :
    ¬ ∀ default_ tenant period usages assignments unitOf operations made after,
      invoice default_ tenant period usages assignments unitOf (Catalog.reached operations) =
          (.ok made, after) →
        (invoice default_ tenant period usages assignments unitOf after).1 = .ok made := by
  intro claimed
  have inOrder : ordered (hourlyUsages "vm" 0 1 2) = hourlyUsages "vm" 0 1 2 := by cbv
  have totals : (hourlyInvoice 0 2 (hourlyUsages "vm" 0 1 2)
        (Catalog.reached (chainedOperations 5))).1.toOption.map
          (fun made => made.total.toText) = some "0.05" ∧
      (hourlyInvoice 0 2 (hourlyUsages "vm" 0 1 2) (hourlyInvoice 0 2 (hourlyUsages "vm" 0 1 2)
        (Catalog.reached (chainedOperations 5))).2).1.toOption.map
          (fun made => made.total.toText) = some "0" := by
    simp only [hourlyInvoice, Rating.invoice, inOrder]
    decide +kernel
  cases first : hourlyInvoice 0 2 (hourlyUsages "vm" 0 1 2)
      (Catalog.reached (chainedOperations 5)) with
  | mk outcome after =>
    rw [first] at totals
    cases outcome with
    | error failure => cases totals.1
    | ok made =>
      have same : (hourlyInvoice 0 2 (hourlyUsages "vm" 0 1 2) after).1 = .ok made :=
        claimed _ _ _ _ _ _ (chainedOperations 5) made after first
      rw [same] at totals
      exact absurd (totals.1.symm.trans totals.2) (by decide)

end UsageBilling.Rating

import UsageBilling.Proofs.Rating.Units

/-!
Contract: what the units of a volume cost.

Owns:
- a cost, which is the product of units and price, rounded to fit;
- volumes without a cost, which are those whose product is beyond 96 bits: the
  overflow is reported;
- a larger volume costs no less, and if it has a cost then so does a smaller one.

Does not own: sums of costs.
-/

namespace UsageBilling.TariffEntry

variable {entry : TariffEntry} {volume : Decimal}

/-- What the units of a volume cost before the product is rounded. -/
def exactCost (entry : TariffEntry) (volume : ℚ) : ℚ :=
  entry.unitsOf volume * entry.price.toRat

/-! ## The cost of a volume -/

/-- A cost is a product of decimals, whose overflow is reported. -/
theorem exists_rounds_cost
    (entry : TariffEntry)
    (volume : Decimal) :
    ∃ product, Decimal.Rounds (entry.exactCost volume.toRat) product ∧
      entry.cost volume = product.elim (.error (.reported .overflow)) .ok := by
  obtain ⟨units, billed, value⟩ := entry.exists_billableUnits volume
  have rounds := Decimal.rounds_mul? units entry.price
  rw [value] at rounds
  refine ⟨units.mul? entry.price, rounds, ?_⟩
  unfold cost
  rw [billed]
  cases product : units.mul? entry.price with
  | none => simp only [bind, Except.bind, product, Outcome.report, Option.elim]
  | some cost => simp only [bind, Except.bind, product, pure, Except.pure, Option.elim]

theorem exists_cost_iff
    (entry : TariffEntry)
    (volume : Decimal) :
    (∃ cost, entry.cost volume = .ok cost) ↔ Decimal.Holds (entry.exactCost volume.toRat) 0 := by
  obtain ⟨product, rounds, costs⟩ := entry.exists_rounds_cost volume
  rw [costs]
  cases product with
  | none =>
    constructor
    · rintro ⟨_, impossible⟩
      cases impossible
    · exact fun holds => absurd holds rounds
  | some cost => exact ⟨fun _ => rounds.1, fun _ => ⟨cost, rfl⟩⟩

theorem toRat_of_cost
    {cost : Decimal}
    (costs : entry.cost volume = .ok cost) :
    cost.toRat = Decimal.rounded (entry.exactCost volume.toRat) := by
  obtain ⟨product, rounds, sameCost⟩ := entry.exists_rounds_cost volume
  rw [sameCost] at costs
  cases product with
  | none => cases costs
  | some _ =>
    cases costs
    exact rounds.2

theorem cost_eq_error_iff
    (entry : TariffEntry)
    (volume : Decimal)
    (failure : Failure) :
    entry.cost volume = .error failure ↔
      failure = .reported .overflow ∧ Decimal.Beyond (entry.exactCost volume.toRat) := by
  rw [← Decimal.not_holds_zero_iff]
  obtain ⟨product, rounds, costs⟩ := entry.exists_rounds_cost volume
  rw [costs]
  cases product with
  | none =>
    constructor
    · intro failed
      cases failed
      exact ⟨rfl, rounds⟩
    · rintro ⟨isOverflow, _⟩
      rw [isOverflow]
      rfl
  | some cost =>
    constructor
    · intro failed
      cases failed
    · exact fun fails => absurd rounds.1 fails.2

/-! ## Larger volumes -/

theorem exactCost_mono
    (notNegative : 0 ≤ entry.price.toRat)
    {volume other : ℚ}
    (atMost : volume ≤ other) :
    entry.exactCost volume ≤ entry.exactCost other :=
  mul_le_mul_of_nonneg_right (entry.unitsOf_mono atMost) notNegative

theorem exactCost_nonneg
    (notNegative : 0 ≤ entry.price.toRat)
    {volume : ℚ}
    (nonneg : 0 ≤ volume) :
    0 ≤ entry.exactCost volume :=
  mul_nonneg (entry.unitsOf_nonneg nonneg) notNegative

/-- Every volume is billed as some units, a larger one as no fewer. Of two costs that of
the larger volume is no less, and a volume has a cost if a larger one has. -/
theorem billableUnits_and_cost_mono
    (entry : TariffEntry)
    {volume other : Decimal}
    (notNegative : 0 ≤ entry.price.toRat)
    (atMost : volume.toRat ≤ other.toRat) :
    (∃ fewer more, entry.billableUnits volume = .ok fewer ∧
        entry.billableUnits other = .ok more ∧ fewer.toRat ≤ more.toRat) ∧
      (∀ less more, entry.cost volume = .ok less → entry.cost other = .ok more →
        less.toRat ≤ more.toRat) ∧
      (0 ≤ volume.toRat → ∀ more, entry.cost other = .ok more →
        ∃ less, entry.cost volume = .ok less) := by
  refine ⟨?units, ?costs, ?fails⟩
  case units =>
    obtain ⟨fewer, billed, value⟩ := entry.exists_billableUnits volume
    obtain ⟨more, otherBilled, otherValue⟩ := entry.exists_billableUnits other
    refine ⟨fewer, more, billed, otherBilled, ?_⟩
    rw [value, otherValue]
    exact entry.unitsOf_mono atMost
  case costs =>
    intro less more costs otherCosts
    rw [toRat_of_cost costs, toRat_of_cost otherCosts]
    exact Decimal.rounded_mono (exactCost_mono notNegative atMost)
  case fails =>
    intro nonneg more otherCosts
    have holds := (entry.exists_cost_iff other).mp ⟨more, otherCosts⟩
    have least := exactCost_nonneg notNegative nonneg
    exact (entry.exists_cost_iff volume).mpr
      (holds.of_abs_le (abs_le_abs_of_nonneg least (exactCost_mono notNegative atMost)))

/-- A second after an hour, another unit is billed and paid for. -/
theorem billableUnits_and_cost_mono_started_hour :
    0 ≤ hourly.price.toRat ∧ (Decimal.ofInt 3600).toRat ≤ (Decimal.ofInt 3601).toRat ∧
      ∃ less more, hourly.cost (.ofInt 3600) = .ok less ∧ hourly.cost (.ofInt 3601) = .ok more ∧
        less.toRat ≤ more.toRat ∧ less.sameValue more = false := by
  have notNegative : 0 ≤ hourly.price.toRat := by decide +kernel
  have atMost : (Decimal.ofInt 3600).toRat ≤ (Decimal.ofInt 3601).toRat := by decide +kernel
  have costs : hourly.cost (.ofInt 3600) = .ok (.ofInt 5) := by
    decide +kernel
  have otherCosts : hourly.cost (.ofInt 3601) = .ok (.ofInt 10) := by
    decide +kernel
  have mono := billableUnits_and_cost_mono hourly notNegative atMost
  exact ⟨notNegative, atMost, _, _, costs, otherCosts, mono.2.1 _ _ costs otherCosts,
    by decide +kernel⟩

end UsageBilling.TariffEntry

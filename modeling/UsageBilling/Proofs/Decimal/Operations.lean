import UsageBilling.Proofs.Decimal.Rounding

/-!
Contract: every operation gives its exact result rounded once.

Owns:
- the sum, product and quotient of two numbers are the exact results rounded to the
  fraction digits that those keep;
- each is missing exactly if the exact result is beyond 96 bits, and so is the sum of
  many numbers if that of some of the first ones is.

Does not own: the value of a sum of many numbers, where every addition rounds.
-/

namespace UsageBilling.Decimal

variable {x : ℚ}

/-! ## Numbers as they stand -/

theorem abs_signed
    (negative : Bool)
    (x : ℚ) :
    |signed negative x| = |x| := by
  cases negative with
  | false => rfl
  | true => exact abs_neg x

theorem signed_mul
    (left right : Bool)
    (x y : ℚ) :
    signed left x * signed right y = signed (left != right) (x * y) := by
  cases left <;> cases right <;> simp [signed]

theorem signed_div
    (left right : Bool)
    (x y : ℚ) :
    signed left x / signed right y = signed (left != right) (x / y) := by
  cases left <;> cases right <;> simp [signed, neg_div, div_neg]

theorem mantissa_add_half_lt
    (d : Decimal) :
    (d.mantissa : ℚ) < mantissaLimit - 1 / 2 := by
  have bound : (d.mantissa : ℚ) + 1 ≤ mantissaLimit := by exact_mod_cast d.mantissa_lt
  linarith

theorem holds_toRat
    (d : Decimal) :
    Holds d.toRat d.scale := by
  have nonneg : (0 : ℚ) ≤ d.mantissa / 10 ^ d.scale := by positivity
  rw [toRat_eq_signed, holds_signed_iff, Holds, abs_of_nonneg nonneg,
    div_mul_cancel₀ _ (by positivity)]
  exact d.mantissa_add_half_lt

theorem rounded_toRat
    (d : Decimal) :
    rounded d.toRat = d.toRat := by
  refine rounded_of_mul_eq (k := d.unscaled) ?_ d.holds_toRat d.scale_le
  rw [toRat_eq_div, Power.cast_ofTen, div_mul_cancel₀ _ (by positivity)]

theorem rounds_self
    (d : Decimal) :
    Rounds d.toRat (some d) :=
  ⟨d.holds_toRat.of_le (Nat.zero_le _), d.rounded_toRat.symm⟩

theorem toRat_withUnsignedZero
    (d : Decimal) :
    d.withUnsignedZero.toRat = d.toRat := by
  obtain ⟨negative, mantissa, scale, _, _⟩ := d
  cases mantissa with
  | zero => simp [withUnsignedZero, toRat, unscaled]
  | succ n => simp [withUnsignedZero, toRat, unscaled]

theorem Rounds.map_withUnsignedZero
    {result : Option Decimal}
    (rounds : Rounds x result) :
    Rounds x (result.map withUnsignedZero) := by
  cases result with
  | none => exact rounds
  | some d => exact ⟨rounds.1, d.toRat_withUnsignedZero.trans rounds.2⟩

/-! ## Sums -/

theorem signed_natAbs_div
    (n : ℤ)
    (x : ℚ) :
    signed (n < 0) (n.natAbs / x) = n / x := by
  rw [signed, Nat.cast_natAbs]
  split
  · rename_i below
    rw [abs_of_neg (of_decide_eq_true below), ← neg_div]
    push_cast
    rw [neg_neg]
  · rename_i notBelow
    rw [abs_of_nonneg (not_lt.mp fun below => notBelow (decide_eq_true below))]

/-- The sum of two numbers is their exact sum rounded. -/
theorem rounds_add?
    (a b : Decimal) :
    Rounds (a.toRat + b.toRat) (a.add? b) := by
  unfold add?
  split
  · rename_i zero
    rw [toRat_of_isZero zero, zero_add]
    exact b.rounds_self
  · split
    · rename_i zero
      rw [toRat_of_isZero zero, add_zero]
      exact a.rounds_self
    · have total : a.toRat + b.toRat =
          (a.unscaled * Power.ofTen (max a.scale b.scale - a.scale) +
            b.unscaled * Power.ofTen (max a.scale b.scale - b.scale) : ℤ) /
              10 ^ max a.scale b.scale := by
        rw [toRat_eq_rescaled (Nat.le_max_left a.scale b.scale),
          toRat_eq_rescaled (Nat.le_max_right a.scale b.scale), Power.cast_ofTen, ← add_div]
        push_cast
        rfl
      rw [total, ← signed_natAbs_div]
      exact rounds_reduce? _ _ _

theorem add?_eq_none_iff
    (a b : Decimal) :
    a.add? b = none ↔ Beyond (a.toRat + b.toRat) := by
  rw [← not_holds_zero_iff]
  have rounds := rounds_add? a b
  cases added : a.add? b with
  | none =>
    rw [added] at rounds
    exact ⟨fun _ => rounds, fun _ => rfl⟩
  | some sum =>
    rw [added] at rounds
    constructor
    · intro impossible
      cases impossible
    · exact fun notHolds => absurd rounds.1 notHolds

/-- Whether numbers cannot be summed in order: one of them takes what is summed so far
beyond 96 bits. -/
def Overruns (terms : List Decimal) : Prop :=
  ∃ before term after held, terms = before ++ term :: after ∧ sum? before = some held ∧
    Beyond (held.toRat + term.toRat)

theorem sum?_eq_none_iff
    (terms : List Decimal) :
    sum? terms = none ↔ Overruns terms := by
  have fromAny : ∀ start, terms.foldlM add? start = none ↔
      ∃ before term after held, terms = before ++ term :: after ∧
        before.foldlM add? start = some held ∧ Beyond (held.toRat + term.toRat) := by
    induction terms with
    | nil => simp
    | cons first rest inductionHypothesis =>
      intro start
      rw [List.foldlM_cons]
      constructor
      · intro failed
        cases added : start.add? first with
        | none => exact ⟨[], first, rest, start, rfl, rfl, (add?_eq_none_iff _ _).mp added⟩
        | some sum =>
          rw [added] at failed
          obtain ⟨before, term, after, held, isRest, summed, beyond⟩ :=
            (inductionHypothesis sum).mp failed
          refine ⟨first :: before, term, after, held, by rw [isRest, List.cons_append], ?_, beyond⟩
          rw [List.foldlM_cons, added]
          exact summed
      · rintro ⟨before, term, after, held, isTerms, summed, beyond⟩
        cases before with
        | nil =>
          cases isTerms
          cases summed
          rw [(add?_eq_none_iff start first).mpr beyond]
          rfl
        | cons _ before =>
          cases isTerms
          rw [List.foldlM_cons] at summed
          obtain ⟨sum, added, summed⟩ := Option.bind_eq_some_iff.mp summed
          rw [added]
          exact (inductionHypothesis sum).mpr ⟨before, term, after, held, rfl, summed, beyond⟩
  exact fromAny zero

/-! ## Products -/

theorem toRat_mul
    (a b : Decimal) :
    a.toRat * b.toRat = signed (a.negative != b.negative)
      ((a.mantissa * b.mantissa : ℕ) / 10 ^ (a.scale + b.scale)) := by
  rw [toRat_eq_signed, toRat_eq_signed, signed_mul, div_mul_div_comm, pow_add]
  push_cast
  rfl

/-- A value of less than half the last of 28 fraction digits is rounded to zero. -/
theorem rounds_zero_of_small
    (small : |x| * 10 ^ maxScale < 1 / 2) :
    Rounds x (some zero) := by
  have holds : Holds x maxScale := by
    refine small.trans ?_
    norm_num [mantissaLimit]
  have nearest : nearestEven (x * 10 ^ maxScale) = 0 := by
    apply IsNearestEven.eq_nearestEven
    left
    rw [Int.cast_zero, sub_zero, abs_mul, abs_of_pos (by positivity : (0 : ℚ) < 10 ^ maxScale)]
    exact small
  have kept : heldDigits x = maxScale :=
    heldDigits_eq holds (Nat.le_refl maxScale) fun more => absurd more (Nat.lt_irrefl maxScale)
  refine ⟨holds.of_le (Nat.zero_le _), ?_⟩
  rw [rounded, kept, nearest, Int.cast_zero, zero_div]
  exact toRat_of_isZero rfl

theorem short_product_small
    {a b : Decimal}
    (shortLeft : a.mantissa < shortMantissaLimit)
    (shortRight : b.mantissa < shortMantissaLimit)
    (long : shortProductScale < a.scale + b.scale) :
    |a.toRat * b.toRat| * 10 ^ maxScale < 1 / 2 := by
  have product : ((a.mantissa * b.mantissa : ℕ) : ℚ) ≤ 18446744073709551616 := by
    have := Nat.mul_le_mul shortLeft.le shortRight.le
    simp only [shortMantissaLimit] at this
    exact_mod_cast this
  have scale : (10 : ℚ) ^ 48 ≤ 10 ^ (a.scale + b.scale) :=
    pow_le_pow_right₀ (by norm_num) long
  rw [toRat_mul, abs_signed, abs_of_nonneg (by positivity)]
  calc ((a.mantissa * b.mantissa : ℕ) : ℚ) / 10 ^ (a.scale + b.scale) * 10 ^ maxScale
      ≤ 18446744073709551616 / 10 ^ 48 * 10 ^ maxScale := by
        gcongr
    _ < 1 / 2 := by
        norm_num [maxScale]

/-- The product of two numbers is their exact product rounded, also where that of two
short mantissas is taken for zero. -/
theorem rounds_mul?
    (a b : Decimal) :
    Rounds (a.toRat * b.toRat) (a.mul? b) := by
  have product := rounds_reduce? (a.negative != b.negative) (a.mantissa * b.mantissa)
    (a.scale + b.scale)
  rw [← toRat_mul] at product
  unfold mul?
  dsimp only
  split
  · rename_i noFactor
    have noValue : a.toRat * b.toRat = zero.toRat := by
      rw [toRat_of_isZero (a := zero) rfl]
      rcases Bool.or_eq_true_iff.mp noFactor with left | right
      · rw [toRat_of_isZero left, zero_mul]
      · rw [toRat_of_isZero right, mul_zero]
    rw [noValue]
    exact zero.rounds_self
  · split
    · rename_i short
      obtain ⟨shortLeft, shortRight⟩ := Bool.and_eq_true_iff.mp short
      split
      · rename_i long
        exact rounds_zero_of_small (short_product_small (of_decide_eq_true shortLeft)
          (of_decide_eq_true shortRight) long)
      · exact product.map_withUnsignedZero
    · exact product

/-! ## Quotients -/

theorem toRat_div
    (a b : Decimal) :
    a.toRat / b.toRat = signed (a.negative != b.negative)
      ((a.mantissa * Power.ofTen b.scale : ℕ) / (b.mantissa * Power.ofTen a.scale : ℕ)) := by
  rw [toRat_eq_signed, toRat_eq_signed, signed_div, div_div_div_eq]
  push_cast [Power.cast_ofTen]
  rw [mul_comm (b.mantissa : ℚ)]

theorem of_find?_reverse_range
    {count found : ℕ}
    {p : ℕ → Bool}
    (first : (List.range count).reverse.find? p = some found) :
    p found = true ∧ found < count ∧ ∀ j, found < j → j < count → p j = false := by
  induction count with
  | zero => cases first
  | succ count inductionHypothesis =>
    rw [List.range_succ, List.reverse_append, List.reverse_singleton, List.singleton_append,
      List.find?_cons] at first
    split at first
    · rename_i passes
      cases first
      exact ⟨passes, Nat.lt_succ_self _, fun j above below => absurd below (by omega)⟩
    · rename_i fails
      obtain ⟨passes, below, greatest⟩ := inductionHypothesis first
      refine ⟨passes, by omega, fun j above atMost => ?_⟩
      rcases Nat.lt_succ_iff_lt_or_eq.mp atMost with less | same
      · exact greatest j above less
      · rw [same]
        exact fails

theorem quotientFits_iff
    (numerator scale : ℕ)
    {denominator : ℕ}
    (positive : 0 < denominator) :
    quotientFits numerator denominator scale = true ↔
      (numerator : ℚ) / denominator * 10 ^ scale < mantissaLimit := by
  have positiveRat : (0 : ℚ) < denominator := Nat.cast_pos.mpr positive
  rw [quotientFits, decide_eq_true_eq, Nat.div_lt_iff_lt_mul positive, div_mul_eq_mul_div,
    div_lt_iff₀ positiveRat, ← Power.cast_ofTen]
  exact_mod_cast Iff.rfl

theorem Rounds.congr
    {y : ℚ}
    {result : Option Decimal}
    (rounds : Rounds x result)
    (sameHolds : Holds x 0 ↔ Holds y 0)
    (sameRounded : Holds y 0 → rounded x = rounded y) :
    Rounds y result := by
  cases result with
  | none => exact fun holds => rounds (sameHolds.mpr holds)
  | some d =>
    have holds := sameHolds.mp rounds.1
    exact ⟨holds, rounds.2.trans (sameRounded holds)⟩

/-- A value that rounds to the limit keeps one digit less. -/
theorem rounded_of_long
    {fewer : ℕ}
    (nonneg : 0 ≤ x)
    (long : mantissaLimit - 1 / 2 ≤ x * 10 ^ (fewer + 1))
    (short : x * 10 ^ (fewer + 1) ≤ mantissaLimit)
    (atMost : fewer + 1 ≤ maxScale) :
    Holds x 0 ∧ rounded x = 7922816251426433759354395034 / 10 ^ fewer := by
  rw [pow_succ, ← mul_assoc] at long short
  have holds : Holds x fewer := by
    rw [Holds, abs_of_nonneg nonneg]
    norm_num [mantissaLimit] at short ⊢
    linarith
  have kept : heldDigits x = fewer := by
    apply heldDigits_eq holds (by omega)
    intro _ holdsMore
    rw [Holds, abs_of_nonneg nonneg, pow_succ, ← mul_assoc] at holdsMore
    linarith
  refine ⟨holds.of_le (Nat.zero_le _), ?_⟩
  rw [rounded, kept, nearestEven_of_long long short]
  push_cast
  rfl

section

variable {digits : ℕ} {result : Option Decimal} {negative : Bool}

/-- A value that keeps the digits it is rounded to is rounded only once. -/
theorem rounds_of_holds
    (nonneg : 0 ≤ x)
    (holds : Holds x digits)
    (atMost : digits ≤ maxScale)
    (noMore : digits < maxScale → mantissaLimit ≤ x * 10 ^ (digits + 1))
    (rounds : Rounds (signed negative (nearestEven (x * 10 ^ digits) / 10 ^ digits)) result) :
    Rounds (signed negative x) result := by
  have kept : heldDigits x = digits := by
    apply heldDigits_eq holds atMost
    intro more holdsMore
    have := noMore more
    rw [Holds, abs_of_nonneg nonneg] at holdsMore
    linarith
  have sameRounded : rounded x = nearestEven (x * 10 ^ digits) / 10 ^ digits := by
    rw [rounded, kept]
  have holdsRounded := holds.nearestEven_div nonneg
  apply rounds.congr
  · simp only [holds_signed_iff, holds.of_le (Nat.zero_le _),
      holdsRounded.of_le (Nat.zero_le _)]
  · intro _
    rw [rounded_signed, rounded_signed, sameRounded,
      rounded_of_mul_eq (div_mul_cancel₀ _ (by positivity)) holdsRounded atMost]

/-- A value that is rounded up to the limit has the result of the limit, which is none if
there is no digit to give up. -/
theorem rounds_of_long
    (nonneg : 0 ≤ x)
    (long : mantissaLimit - 1 / 2 ≤ x * 10 ^ digits)
    (short : x * 10 ^ digits ≤ mantissaLimit)
    (atMost : digits ≤ maxScale)
    (rounds : Rounds (signed negative (mantissaLimit / 10 ^ digits)) result) :
    Rounds (signed negative x) result := by
  have limitNonneg : (0 : ℚ) ≤ mantissaLimit / 10 ^ digits := by positivity
  have limitLong : (mantissaLimit : ℚ) - 1 / 2 ≤ mantissaLimit / 10 ^ digits * 10 ^ digits := by
    rw [div_mul_cancel₀ _ (by positivity)]
    linarith
  have limitShort : (mantissaLimit : ℚ) / 10 ^ digits * 10 ^ digits ≤ mantissaLimit := by
    rw [div_mul_cancel₀ _ (by positivity)]
  cases digits with
  | zero =>
    have notHolds : ¬ Holds x 0 := by
      rw [Holds, not_lt, abs_of_nonneg nonneg]
      exact long
    have limitNotHolds : ¬ Holds ((mantissaLimit : ℚ) / 10 ^ 0) 0 := by
      rw [Holds, not_lt, abs_of_nonneg limitNonneg]
      exact limitLong
    apply rounds.congr
    · simp only [holds_signed_iff, notHolds, limitNotHolds]
    · intro holds
      exact absurd ((holds_signed_iff _ _ _).mp holds) notHolds
  | succ fewer =>
    obtain ⟨ownHolds, ownRounded⟩ := rounded_of_long nonneg long short atMost
    obtain ⟨limitHolds, limitRounded⟩ := rounded_of_long limitNonneg limitLong limitShort atMost
    apply rounds.congr
    · simp only [holds_signed_iff, ownHolds, limitHolds]
    · intro _
      rw [rounded_signed, rounded_signed, ownRounded, limitRounded]

/-- Rounding a value to as many digits as its integer part leaves room for, and then
to the digits it keeps, is rounding it once. The two differ only where the first
rounding reaches the limit. -/
theorem rounds_of_rounds_nearestEven
    (nonneg : 0 ≤ x)
    (fits : x * 10 ^ digits < mantissaLimit)
    (atMost : digits ≤ maxScale)
    (noMore : digits < maxScale → mantissaLimit ≤ x * 10 ^ (digits + 1))
    (rounds : Rounds (signed negative (nearestEven (x * 10 ^ digits) / 10 ^ digits)) result) :
    Rounds (signed negative x) result := by
  by_cases holds : Holds x digits
  · exact rounds_of_holds nonneg holds atMost noMore rounds
  · have long : mantissaLimit - 1 / 2 ≤ x * 10 ^ digits := by
      rw [Holds, not_lt, abs_of_nonneg nonneg] at holds
      exact holds
    rw [nearestEven_eq_limit long fits.le, Int.cast_natCast] at rounds
    exact rounds_of_long nonneg long fits.le atMost rounds

end

/-- The quotient of two numbers is their exact quotient rounded. -/
theorem rounds_div?
    (a : Decimal)
    {b : Decimal}
    (notZero : b.isZero = false) :
    Rounds (a.toRat / b.toRat) (a.div? b) := by
  have positive : 0 < b.mantissa * Power.ofTen a.scale := by
    have := Power.ofTen_pos a.scale
    have : 0 < b.mantissa := Nat.pos_of_ne_zero (beq_eq_false_iff_ne.mp notZero)
    positivity
  rw [toRat_div, div?, notZero, if_neg Bool.false_ne_true]
  generalize a.mantissa * Power.ofTen b.scale = numerator at *
  generalize b.mantissa * Power.ofTen a.scale = denominator at *
  have fits := fun scale => quotientFits_iff numerator scale positive
  have nonneg : (0 : ℚ) ≤ numerator / denominator := by positivity
  dsimp only
  cases found : (List.range (maxScale + 1)).reverse.find?
      (quotientFits numerator denominator) with
  | none =>
    have notFits := List.find?_eq_none.mp found 0 (by simp)
    rw [fits, pow_zero, mul_one, not_lt] at notFits
    intro holds
    rw [holds_signed_iff, Holds, abs_of_nonneg nonneg, pow_zero, mul_one] at holds
    linarith
  | some scale =>
    obtain ⟨passes, below, greatest⟩ := of_find?_reverse_range found
    apply Rounds.map_withUnsignedZero
    apply rounds_of_rounds_nearestEven nonneg ((fits scale).mp passes) (Nat.lt_succ_iff.mp below)
    · intro more
      rw [← not_lt, ← fits, greatest (scale + 1) (by omega) (by omega)]
      exact Bool.false_ne_true
    · have nearest := nearestEven_div (numerator * Power.ofTen scale) positive
      have scaled : ((numerator * Power.ofTen scale : ℕ) : ℚ) / denominator =
          numerator / denominator * 10 ^ scale := by
        rw [← Power.cast_ofTen]
        push_cast
        ring
      rw [scaled] at nearest
      rw [nearest, Int.cast_natCast]
      exact rounds_reduce? _ _ _

end UsageBilling.Decimal

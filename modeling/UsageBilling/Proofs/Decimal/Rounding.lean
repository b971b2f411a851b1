import Mathlib.Algebra.Order.Field.Basic
import Mathlib.Data.Nat.Find
import Mathlib.Tactic.NormNum
import Mathlib.Tactic.Positivity
import UsageBilling.Proofs.Decimal.Addition
import UsageBilling.Proofs.Number.NearestEven

/-!
Contract: the value that a result has when it does not fit.

Owns:
- which values fit with a number of fraction digits, and how many a value keeps;
- a value rounded to the digits it keeps, which changes sign with the value, keeps
  the order of values, and is the value itself where that can be written;
- reducing a mantissa gives the value rounded, and fails exactly if the value does
  not even fit without fraction digits.

Does not own: which value an operation reduces.
-/

namespace UsageBilling

theorem Power.cast_ofTen
    (exponent : ℕ) :
    (ofTen exponent : ℚ) = 10 ^ exponent := by
  rw [ofTen]
  exact Nat.cast_pow 10 exponent

namespace Decimal

variable {x y : ℚ} {digits fewer : ℕ}

/-! ## The digits that a value keeps -/

/-- Whether a value rounds to a mantissa within bounds when it keeps a number of
fraction digits. The limit is even, so that a half below it rounds up to it. -/
def Holds (x : ℚ) (digits : ℕ) : Prop :=
  |x| * 10 ^ digits < mantissaLimit - 1 / 2

instance (x : ℚ) (digits : ℕ) : Decidable (Holds x digits) :=
  inferInstanceAs (Decidable (_ < _))

theorem Holds.of_le
    (holds : Holds x digits)
    (atMost : fewer ≤ digits) :
    Holds x fewer := by
  refine lt_of_le_of_lt ?_ holds
  exact mul_le_mul_of_nonneg_left (pow_le_pow_right₀ (by norm_num) atMost) (abs_nonneg x)

theorem Holds.of_abs_le
    (holds : Holds y digits)
    (atMost : |x| ≤ |y|) :
    Holds x digits :=
  lt_of_le_of_lt (mul_le_mul_of_nonneg_right atMost (by positivity)) holds

@[simp]
theorem holds_neg_iff
    (x : ℚ)
    (digits : ℕ) :
    Holds (-x) digits ↔ Holds x digits := by
  rw [Holds, abs_neg]
  exact Iff.rfl

/-- The fraction digits that a value keeps: as many as 96 bits hold, and at most 28. -/
def heldDigits (x : ℚ) : ℕ :=
  Nat.findGreatest (Holds x) maxScale

theorem heldDigits_le
    (x : ℚ) :
    heldDigits x ≤ maxScale :=
  Nat.findGreatest_le maxScale

theorem holds_heldDigits
    (holds : Holds x 0) :
    Holds x (heldDigits x) :=
  Nat.findGreatest_spec (Nat.zero_le maxScale) holds

theorem le_heldDigits
    (holds : Holds x digits)
    (atMost : digits ≤ maxScale) :
    digits ≤ heldDigits x :=
  Nat.le_findGreatest atMost holds

theorem not_holds_of_heldDigits_lt
    (more : heldDigits x < digits)
    (atMost : digits ≤ maxScale) :
    ¬ Holds x digits :=
  Nat.findGreatest_is_greatest more atMost

/-- A value keeps a number of digits that it fits with, unless it fits with one more. -/
theorem heldDigits_eq
    (holds : Holds x digits)
    (atMost : digits ≤ maxScale)
    (noMore : digits < maxScale → ¬ Holds x (digits + 1)) :
    heldDigits x = digits := by
  apply Nat.le_antisymm _ (le_heldDigits holds atMost)
  by_contra more
  have next : digits + 1 ≤ heldDigits x := not_le.mp more
  exact noMore (Nat.lt_of_lt_of_le next (heldDigits_le x))
    ((holds_heldDigits (holds.of_le (Nat.zero_le digits))).of_le next)

theorem heldDigits_le_of_abs_le
    (atMost : |x| ≤ |y|) :
    heldDigits y ≤ heldDigits x :=
  Nat.findGreatest_mono_left (fun _ holds => holds.of_abs_le atMost) maxScale

theorem heldDigits_neg
    (x : ℚ) :
    heldDigits (-x) = heldDigits x :=
  Nat.le_antisymm (heldDigits_le_of_abs_le (abs_neg x).ge) (heldDigits_le_of_abs_le (abs_neg x).le)

/-! ## Rounded values -/

/-- A value rounded to the fraction digits that it keeps. -/
def rounded (x : ℚ) : ℚ :=
  nearestEven (x * 10 ^ heldDigits x) / 10 ^ heldDigits x

theorem rounded_neg
    (x : ℚ) :
    rounded (-x) = -rounded x := by
  rw [rounded, heldDigits_neg, neg_mul, nearestEven_neg]
  push_cast
  rw [neg_div]
  rfl

/-- A value that can be written is not changed by rounding. -/
theorem rounded_of_mul_eq
    {k : ℤ}
    (written : x * 10 ^ digits = k)
    (holds : Holds x digits)
    (atMost : digits ≤ maxScale) :
    rounded x = x := by
  have scaled : x * 10 ^ heldDigits x = (k * 10 ^ (heldDigits x - digits) : ℤ) := by
    push_cast
    rw [← written, mul_assoc, ← pow_add, Nat.add_sub_of_le (le_heldDigits holds atMost)]
  rw [rounded, scaled, nearestEven_intCast, ← scaled, mul_div_cancel_right₀ _ (by positivity)]

theorem rounded_zero : rounded 0 = 0 := by
  have written : (0 : ℚ) * 10 ^ 0 = (0 : ℤ) := by simp
  exact rounded_of_mul_eq written (by norm_num [Holds, mantissaLimit]) (Nat.zero_le _)

theorem rounded_nonneg
    (nonneg : 0 ≤ x) :
    0 ≤ rounded x := by
  have nearest := nearestEven_nonneg (x := x * 10 ^ heldDigits x) (by positivity)
  exact div_nonneg (by exact_mod_cast nearest) (by positivity)

/-! ### Near the limit -/

theorem nearestEven_lt_limit_iff
    (x : ℚ) :
    nearestEven x < mantissaLimit ↔ x < mantissaLimit - 1 / 2 := by
  have even : ((mantissaLimit : ℕ) : ℤ) % 2 = 0 := by decide
  have bound := nearestEven_lt_iff (x := x) even
  rwa [Int.cast_natCast] at bound

/-- A value within bounds is still within bounds when it is rounded. -/
theorem Holds.nearestEven_div
    (nonneg : 0 ≤ x)
    (holds : Holds x digits) :
    Holds (nearestEven (x * 10 ^ digits) / 10 ^ digits) digits := by
  rw [Holds, abs_of_nonneg nonneg, ← nearestEven_lt_limit_iff] at holds
  have nearest : (nearestEven (x * 10 ^ digits) : ℚ) + 1 ≤ mantissaLimit := by
    exact_mod_cast holds
  have nonnegNearest : (0 : ℚ) ≤ nearestEven (x * 10 ^ digits) := by
    exact_mod_cast nearestEven_nonneg (x := x * 10 ^ digits) (by positivity)
  rw [Holds, abs_of_nonneg (by positivity), div_mul_cancel₀ _ (by positivity)]
  linarith

/-- The value that 96 bits just fail to hold rounds to the limit. -/
theorem nearestEven_eq_limit
    (long : mantissaLimit - 1 / 2 ≤ x)
    (short : x ≤ mantissaLimit) :
    nearestEven x = mantissaLimit := by
  apply le_antisymm
  · rw [← nearestEven_intCast mantissaLimit, Int.cast_natCast]
    exact nearestEven_mono short
  · rw [← not_lt, nearestEven_lt_limit_iff]
    exact not_lt.mpr long

/-- With one digit less, the limit and values that round to it have one mantissa. -/
theorem nearestEven_of_long
    (long : mantissaLimit - 1 / 2 ≤ x * 10)
    (short : x * 10 ≤ mantissaLimit) :
    nearestEven x = 7922816251426433759354395034 := by
  norm_num [mantissaLimit] at long short
  apply IsNearestEven.eq_nearestEven
  left
  rw [abs_lt]
  constructor
  · push_cast
    linarith
  · push_cast
    linarith

theorem limit_le_nearestEven
    (long : mantissaLimit - 1 / 2 ≤ x * 10) :
    (mantissaLimit : ℚ) ≤ nearestEven x * 10 := by
  have least : nearestEven ((mantissaLimit - 1 / 2) / 10) = 7922816251426433759354395034 := by
    apply nearestEven_of_long
    · linarith
    · linarith
  have atLeast : 7922816251426433759354395034 ≤ nearestEven x := by
    rw [← least]
    exact nearestEven_mono (by linarith)
  have cast : (7922816251426433759354395034 : ℚ) ≤ nearestEven x := by exact_mod_cast atLeast
  norm_num [mantissaLimit]
  linarith

/-! ### Order -/

theorem rounded_le_of_nonneg
    (nonneg : 0 ≤ x)
    (atMost : x ≤ y) :
    rounded x ≤ rounded y := by
  have absolute : |x| ≤ |y| := abs_le_abs_of_nonneg nonneg atMost
  rcases (heldDigits_le_of_abs_le absolute).eq_or_lt with same | fewer
  · rw [rounded, rounded, same]
    gcongr
    exact nearestEven_mono (by gcongr)
  · -- The larger value keeps fewer digits, as with one more it does not fit.
    have holds : Holds x (heldDigits x) := by
      apply Nat.findGreatest_of_ne_zero rfl
      exact Nat.ne_of_gt (Nat.lt_of_le_of_lt (Nat.zero_le _) fewer)
    have short : (nearestEven (x * 10 ^ heldDigits x) : ℚ) ≤ mantissaLimit := by
      rw [Holds, abs_of_nonneg nonneg, ← nearestEven_lt_limit_iff] at holds
      exact_mod_cast holds.le
    have long : (mantissaLimit : ℚ) ≤ nearestEven (y * 10 ^ heldDigits y) * 10 := by
      apply limit_le_nearestEven
      have not := not_holds_of_heldDigits_lt (Nat.lt_succ_self (heldDigits y))
        (Nat.le_trans fewer (heldDigits_le x))
      rw [Holds, not_lt, abs_of_nonneg (nonneg.trans atMost), pow_succ, ← mul_assoc] at not
      exact not
    calc rounded x
        ≤ mantissaLimit / 10 ^ heldDigits x := by
          unfold rounded
          gcongr
      _ ≤ mantissaLimit / 10 ^ (heldDigits y + 1) := by
          gcongr
          · norm_num
          · exact fewer
      _ ≤ nearestEven (y * 10 ^ heldDigits y) * 10 / 10 ^ (heldDigits y + 1) := by
          gcongr
      _ = rounded y := by
          rw [pow_succ, mul_div_mul_right _ _ (by norm_num), rounded]

/-- Rounding keeps the order of values, also where it keeps fewer digits of one than
of the other. -/
theorem rounded_mono
    (atMost : x ≤ y) :
    rounded x ≤ rounded y := by
  rcases le_total 0 x with nonneg | nonpos
  · exact rounded_le_of_nonneg nonneg atMost
  · rcases le_total 0 y with nonneg' | nonpos'
    · have below := rounded_nonneg (neg_nonneg.mpr nonpos)
      rw [rounded_neg, neg_nonneg] at below
      exact below.trans (rounded_nonneg nonneg')
    · have flipped := rounded_le_of_nonneg (neg_nonneg.mpr nonpos') (neg_le_neg atMost)
      rw [rounded_neg, rounded_neg] at flipped
      exact neg_le_neg_iff.mp flipped

/-! ## Reducing a mantissa -/

/-- A value with the sign of a decimal. -/
def signed (negative : Bool) (x : ℚ) : ℚ :=
  if negative then -x else x

@[simp]
theorem holds_signed_iff
    (negative : Bool)
    (x : ℚ)
    (digits : ℕ) :
    Holds (signed negative x) digits ↔ Holds x digits := by
  cases negative with
  | false => exact Iff.rfl
  | true => exact holds_neg_iff x digits

theorem rounded_signed
    (negative : Bool)
    (x : ℚ) :
    rounded (signed negative x) = signed negative (rounded x) := by
  cases negative with
  | false => rfl
  | true => exact rounded_neg x

theorem toRat_eq_signed
    (d : Decimal) :
    d.toRat = signed d.negative (d.mantissa / 10 ^ d.scale) := by
  rw [toRat_eq_div, Power.cast_ofTen, unscaled, signed]
  split
  · push_cast
    rw [neg_div]
  · rfl

theorem round_lt_limit_iff
    (mantissa dropped : ℕ) :
    HalfRule.toEven.round mantissa (Power.ofTen dropped) < mantissaLimit ↔
      (mantissa : ℚ) / 10 ^ dropped < mantissaLimit - 1 / 2 := by
  have nearest := nearestEven_div mantissa (Power.ofTen_pos dropped)
  rw [Power.cast_ofTen] at nearest
  rw [← nearestEven_lt_limit_iff, nearest]
  exact Int.ofNat_lt.symm

/-- A ratio with fewer fraction digits. -/
theorem div_mul_pow_sub
    (mantissa : ℕ)
    {scale dropped : ℕ}
    (atMost : dropped ≤ scale) :
    (mantissa : ℚ) / 10 ^ scale * 10 ^ (scale - dropped) = mantissa / 10 ^ dropped := by
  have powers : (10 : ℚ) ^ scale = 10 ^ dropped * 10 ^ (scale - dropped) := by
    rw [← pow_add, Nat.add_sub_of_le atMost]
  rw [powers]
  field_simp

theorem fitsAfterDropping_iff
    (mantissa : ℕ)
    {scale dropped : ℕ}
    (atMost : dropped ≤ scale) :
    fitsAfterDropping mantissa scale dropped = true ↔
      scale - dropped ≤ maxScale ∧ Holds (mantissa / 10 ^ scale) (scale - dropped) := by
  have nonneg : (0 : ℚ) ≤ mantissa / 10 ^ scale := by positivity
  rw [fitsAfterDropping, Bool.and_eq_true, decide_eq_true_eq, decide_eq_true_eq,
    round_lt_limit_iff, Holds, abs_of_nonneg nonneg, div_mul_pow_sub mantissa atMost]

/-- A reduced number drops the fewest digits with which it fits. -/
theorem of_reduce?_eq_some
    {negative : Bool}
    {mantissa scale : ℕ}
    {d : Decimal}
    (reduced : reduce? negative mantissa scale = some d) :
    ∃ dropped ≤ scale, fitsAfterDropping mantissa scale dropped = true ∧
      (∀ fewer < dropped, fitsAfterDropping mantissa scale fewer = false) ∧
      d.negative = negative ∧
      d.mantissa = HalfRule.toEven.round mantissa (Power.ofTen dropped) ∧
      d.scale = scale - dropped := by
  obtain ⟨dropped, found, made⟩ := Option.bind_eq_some_iff.mp reduced
  obtain ⟨fits, inRange, first⟩ := List.find?_range_eq_some.mp found
  have atMost : dropped ≤ scale := Nat.lt_succ_iff.mp (List.mem_range.mp inRange)
  refine ⟨dropped, atMost, fits, ?_, ?_⟩
  · intro fewer less
    simpa using first fewer less
  · unfold ofSignedParts? at made
    split at made
    · cases made
      exact ⟨rfl, rfl, rfl⟩
    · cases made

/-- Reducing a mantissa gives its value rounded. If no digit is dropped the value is
exact; otherwise the digits left are those that it keeps. -/
theorem toRat_reduce?
    {negative : Bool}
    {mantissa scale : ℕ}
    {d : Decimal}
    (reduced : reduce? negative mantissa scale = some d) :
    d.toRat = rounded (signed negative (mantissa / 10 ^ scale)) := by
  obtain ⟨dropped, atMost, fits, first, sign, mantissaLeft, scaleLeft⟩ :=
    of_reduce?_eq_some reduced
  obtain ⟨scaleFits, holds⟩ := (fitsAfterDropping_iff mantissa atMost).mp fits
  rw [toRat_eq_signed, sign, rounded_signed, mantissaLeft, scaleLeft]
  congr 1
  cases dropped with
  | zero =>
    rw [Power.ofTen_zero, HalfRule.round_one, Nat.sub_zero]
    refine (rounded_of_mul_eq (k := mantissa) ?_ holds scaleFits).symm
    rw [div_mul_pow_sub mantissa atMost, pow_zero, div_one, Int.cast_natCast]
  | succ fewer =>
    have kept : heldDigits ((mantissa : ℚ) / 10 ^ scale) = scale - (fewer + 1) := by
      apply heldDigits_eq holds scaleFits
      intro more holdsMore
      have notFits := first fewer (Nat.lt_succ_self fewer)
      have oneMore : scale - (fewer + 1) + 1 = scale - fewer := by omega
      rw [oneMore] at holdsMore
      rw [(fitsAfterDropping_iff mantissa (by omega)).mpr ⟨by omega, holdsMore⟩] at notFits
      cases notFits
    have nearest := nearestEven_div mantissa (Power.ofTen_pos (fewer + 1))
    rw [Power.cast_ofTen] at nearest
    rw [rounded, kept, div_mul_pow_sub mantissa atMost, nearest, Int.cast_natCast]

theorem reduce?_eq_none_iff
    (negative : Bool)
    (mantissa scale : ℕ) :
    reduce? negative mantissa scale = none ↔ ¬ Holds (mantissa / 10 ^ scale) 0 := by
  constructor
  · intro failed holds
    have fits : fitsAfterDropping mantissa scale scale = true := by
      rw [fitsAfterDropping_iff mantissa (Nat.le_refl scale), Nat.sub_self]
      exact ⟨Nat.zero_le _, holds⟩
    cases found : (List.range (scale + 1)).find? (fitsAfterDropping mantissa scale) with
    | none =>
      have notFits := List.find?_eq_none.mp found scale (List.mem_range.mpr (Nat.lt_succ_self scale))
      exact notFits fits
    | some dropped =>
      obtain ⟨scaleFits, mantissaFits⟩ : scale - dropped ≤ maxScale ∧
          HalfRule.toEven.round mantissa (Power.ofTen dropped) < mantissaLimit := by
        simpa [fitsAfterDropping] using List.find?_some found
      have none := Option.bind_eq_none_iff.mp failed dropped found
      rw [ofSignedParts?, dif_pos ⟨mantissaFits, scaleFits⟩] at none
      cases none
  · intro notHolds
    rw [Option.eq_none_iff_forall_ne_some]
    intro d reduced
    obtain ⟨dropped, atMost, fits, _⟩ := of_reduce?_eq_some reduced
    exact notHolds (((fitsAfterDropping_iff mantissa atMost).mp fits).2.of_le (Nat.zero_le _))

/-! ## Results -/

/-- Whether a value is too large for 96 bits, even without fraction digits. -/
def Beyond (x : ℚ) : Prop :=
  mantissaLimit - 1 / 2 ≤ |x|

theorem not_holds_zero_iff
    (x : ℚ) :
    ¬ Holds x 0 ↔ Beyond x := by
  rw [Holds, pow_zero, mul_one, not_lt, Beyond]

/-- Whether a result is a value rounded. A value beyond 96 bits has none. -/
def Rounds (x : ℚ) : Option Decimal → Prop
  | some d => Holds x 0 ∧ d.toRat = rounded x
  | none => ¬ Holds x 0

theorem rounds_reduce?
    (negative : Bool)
    (mantissa scale : ℕ) :
    Rounds (signed negative (mantissa / 10 ^ scale)) (reduce? negative mantissa scale) := by
  have failed := reduce?_eq_none_iff negative mantissa scale
  cases reduced : reduce? negative mantissa scale with
  | none =>
    rw [Rounds, holds_signed_iff]
    exact failed.mp reduced
  | some d =>
    rw [reduced] at failed
    rw [Rounds, holds_signed_iff]
    refine ⟨?_, toRat_reduce? reduced⟩
    by_contra notHolds
    cases failed.mpr notHolds

end Decimal

end UsageBilling

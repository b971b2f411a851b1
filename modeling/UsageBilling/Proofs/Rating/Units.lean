import Mathlib.Order.Bounds.Defs
import UsageBilling.Proofs.Decimal.Operations
import UsageBilling.Proofs.Decimal.Order
import UsageBilling.Tariff

/-!
Contract: the units that a volume is billed as.

Owns:
- every volume is billed as some units: as it stands up to a rate of one, and above
  as the rounded quotient, rounded up to an integer;
- a larger volume is not billed as fewer units;
- the units are the least integer that covers the volume, unless the volume begins a
  unit by so little that the quotient rounds to the units before it.

Does not own: what units cost.
-/

namespace UsageBilling

namespace Decimal

variable {x y : ℚ}

/-! ## Rounding up what has been rounded -/

/-- Whether a number is above an integer by so little that it is rounded to it. -/
structure LosesFraction (x : ℚ) : Prop where
  begun : 0 < Int.fract x
  lost : 2 * (Int.fract x * 10 ^ heldDigits x) < 1 ∨
    2 * (Int.fract x * 10 ^ heldDigits x) = 1 ∧ ⌊x⌋ * 10 ^ heldDigits x % 2 = 0

/-- A rounded number is not below its integer part. -/
theorem floor_le_rounded
    (x : ℚ) :
    (⌊x⌋ : ℚ) ≤ rounded x := by
  have below : ((⌊x⌋ * 10 ^ heldDigits x : ℤ) : ℚ) ≤ x * 10 ^ heldDigits x := by
    push_cast
    gcongr
    exact Int.floor_le x
  have nearest := nearestEven_mono below
  rw [nearestEven_intCast] at nearest
  rw [rounded, le_div_iff₀ (by positivity)]
  exact_mod_cast nearest

theorem rounded_le_ceil
    (x : ℚ) :
    rounded x ≤ ⌈x⌉ := by
  have above : x * 10 ^ heldDigits x ≤ ((⌈x⌉ * 10 ^ heldDigits x : ℤ) : ℚ) := by
    push_cast
    gcongr
    exact Int.le_ceil x
  have nearest := nearestEven_mono above
  rw [nearestEven_intCast] at nearest
  rw [rounded, div_le_iff₀ (by positivity)]
  exact_mod_cast nearest

/-- A number that has begun the next integer is rounded to the one before exactly if
it loses its fraction. -/
theorem rounded_eq_floor_iff
    (begun : 0 < Int.fract x) :
    rounded x = ⌊x⌋ ↔ LosesFraction x := by
  have distance : |x * 10 ^ heldDigits x - ((⌊x⌋ * 10 ^ heldDigits x : ℤ) : ℚ)| =
      Int.fract x * 10 ^ heldDigits x := by
    push_cast
    rw [← sub_mul, Int.self_sub_floor, abs_of_pos (by positivity)]
  have toFloor : rounded x = ⌊x⌋ ↔
      IsNearestEven (x * 10 ^ heldDigits x) (⌊x⌋ * 10 ^ heldDigits x) := by
    rw [rounded, div_eq_iff (by positivity), ← nearestEven_eq_iff]
    exact_mod_cast Iff.rfl
  have below : Int.fract x * 10 ^ heldDigits x < 1 / 2 ↔
      2 * (Int.fract x * 10 ^ heldDigits x) < 1 := by
    rw [lt_div_iff₀ two_pos, mul_comm]
  have tie : Int.fract x * 10 ^ heldDigits x = 1 / 2 ↔
      2 * (Int.fract x * 10 ^ heldDigits x) = 1 := by
    rw [eq_div_iff two_ne_zero, mul_comm]
  rw [toFloor, IsNearestEven, distance, below, tie]
  exact ⟨fun lost => ⟨begun, lost⟩, fun loses => loses.lost⟩

theorem LosesFraction.ceil_rounded
    (loses : LosesFraction x) :
    ⌈rounded x⌉ = ⌊x⌋ := by
  rw [(rounded_eq_floor_iff loses.begun).mpr loses, Int.ceil_intCast]

/-- A number that does not lose a fraction is rounded up as it is. -/
theorem ceil_rounded_of_not_losesFraction
    (keeps : ¬ LosesFraction x) :
    ⌈rounded x⌉ = ⌈x⌉ := by
  apply le_antisymm
  · exact Int.ceil_le.mpr (rounded_le_ceil x)
  · rcases (Int.fract_nonneg x).eq_or_lt with whole | begun
    · apply Int.ceil_le.mpr
      have parts := Int.self_sub_floor x
      calc x = ⌊x⌋ := by linarith
        _ ≤ rounded x := floor_le_rounded x
        _ ≤ ⌈rounded x⌉ := Int.le_ceil _
    · have above : (⌊x⌋ : ℚ) < rounded x := by
        apply lt_of_le_of_ne (floor_le_rounded x)
        intro same
        exact keeps ((rounded_eq_floor_iff begun).mp same.symm)
      have := Int.ceil_le_floor_add_one x
      have := Int.lt_ceil.mpr above
      omega

theorem ceil_rounded_eq_ceil_iff
    (x : ℚ) :
    ⌈rounded x⌉ = ⌈x⌉ ↔ ¬ LosesFraction x := by
  constructor
  · intro same loses
    have parts := Int.self_sub_floor x
    have begun := loses.begun
    have above : ⌊x⌋ < ⌈x⌉ := Int.lt_ceil.mpr (by linarith)
    rw [← same, loses.ceil_rounded] at above
    exact lt_irrefl _ above
  · exact ceil_rounded_of_not_losesFraction

/-- The fraction of a ratio of integers is at least one part of the denominator. -/
theorem one_le_fract_mul
    {whole rate : ℕ}
    (ratio : x * rate = whole)
    (positive : 0 < rate)
    (begun : 0 < Int.fract x) :
    1 ≤ Int.fract x * rate := by
  have parts : Int.fract x * rate = ((whole - ⌊x⌋ * rate : ℤ) : ℚ) := by
    rw [← Int.self_sub_floor, sub_mul, ratio]
    push_cast
    rfl
  have someParts : 0 < Int.fract x * rate := mul_pos begun (Nat.cast_pos.mpr positive)
  rw [parts] at someParts ⊢
  exact_mod_cast someParts

/-- A ratio of a number of 63 bits keeps enough digits to tell the parts of its
denominator apart. -/
theorem lt_two_mul_pow_heldDigits
    {whole rate : ℕ}
    (nonneg : 0 ≤ x)
    (ratio : x * rate = whole)
    (small : whole < 2 ^ 63)
    (atMost : rate ≤ 10 ^ maxScale) :
    (rate : ℚ) < 2 * 10 ^ heldDigits x := by
  rcases (heldDigits_le x).eq_or_lt with all | fewer
  · have : (rate : ℚ) ≤ 10 ^ maxScale := by exact_mod_cast atMost
    have power : (0 : ℚ) < 10 ^ maxScale := by positivity
    rw [all]
    linarith
  · have smallRat : (whole : ℚ) < 2 ^ 63 := by exact_mod_cast small
    have notHolds := not_holds_of_heldDigits_lt (Nat.lt_succ_self (heldDigits x)) fewer
    rw [Holds, not_lt, abs_of_nonneg nonneg, pow_succ] at notHolds
    have scaled : (mantissaLimit - 1 / 2) * (rate : ℚ) ≤ 2 ^ 63 * (10 ^ heldDigits x * 10) := by
      calc (mantissaLimit - 1 / 2) * (rate : ℚ)
          ≤ x * (10 ^ heldDigits x * 10) * rate := by gcongr
        _ = whole * (10 ^ heldDigits x * 10) := by rw [mul_right_comm, ratio]
        _ ≤ 2 ^ 63 * (10 ^ heldDigits x * 10) := by gcongr
    have power : (0 : ℚ) < 10 ^ heldDigits x := by positivity
    norm_num [mantissaLimit] at scaled
    linarith

/-- A ratio of integers does not lose its fraction: the digits that it keeps tell the parts
of the denominator apart. -/
theorem not_losesFraction_div
    {whole rate : ℕ}
    (small : whole < 2 ^ 63)
    (positive : 0 < rate)
    (atMost : rate ≤ 10 ^ maxScale) :
    ¬ LosesFraction ((whole : ℚ) / rate) := by
  intro ⟨begun, lost⟩
  have nonneg : (0 : ℚ) ≤ whole / rate := by positivity
  have ratio : (whole : ℚ) / rate * rate = whole :=
    div_mul_cancel₀ _ (Nat.cast_pos.mpr positive).ne'
  generalize (whole : ℚ) / rate = x at *
  have onePart := one_le_fract_mul ratio positive begun
  have tellsApart := lt_two_mul_pow_heldDigits nonneg ratio small atMost
  have kept : 1 < 2 * (Int.fract x * 10 ^ heldDigits x) := by
    calc (1 : ℚ) ≤ Int.fract x * rate := onePart
      _ < Int.fract x * (2 * 10 ^ heldDigits x) := by gcongr
      _ = 2 * (Int.fract x * 10 ^ heldDigits x) := by ring
  rcases lost with below | ⟨tie, _⟩
  · linarith
  · linarith

end Decimal

namespace TariffEntry

variable {entry : TariffEntry} {volume : Decimal}

/-! ## Units -/

/-- The value of the units that a volume is billed as. -/
def unitsOf (entry : TariffEntry) (volume : ℚ) : ℚ :=
  if 1 < entry.rate.toRat then ⌈Decimal.rounded (volume / entry.rate.toRat)⌉ else volume

theorem unitsOf_mono
    (entry : TariffEntry)
    {volume other : ℚ}
    (atMost : volume ≤ other) :
    entry.unitsOf volume ≤ entry.unitsOf other := by
  unfold unitsOf
  split
  · rename_i above
    have quotients : volume / entry.rate.toRat ≤ other / entry.rate.toRat :=
      div_le_div_of_nonneg_right atMost (by linarith)
    exact_mod_cast Int.ceil_mono (Decimal.rounded_mono quotients)
  · exact atMost

theorem unitsOf_nonneg
    (entry : TariffEntry)
    {volume : ℚ}
    (nonneg : 0 ≤ volume) :
    0 ≤ entry.unitsOf volume := by
  have none : entry.unitsOf 0 = 0 := by
    unfold unitsOf
    simp [Decimal.rounded_zero]
  rw [← none]
  exact entry.unitsOf_mono nonneg

/-- A quotient by a rate above one can always be held. -/
theorem holds_div_rate
    (above : 1 < entry.rate.toRat)
    (volume : Decimal) :
    Decimal.Holds (volume.toRat / entry.rate.toRat) 0 := by
  apply (volume.holds_toRat.of_le (Nat.zero_le _)).of_abs_le
  rw [abs_div, abs_of_pos (by linarith : 0 < entry.rate.toRat)]
  exact div_le_self (abs_nonneg _) above.le

/-- Every volume is billed as some units. -/
theorem exists_billableUnits
    (entry : TariffEntry)
    (volume : Decimal) :
    ∃ units, entry.billableUnits volume = .ok units ∧
      units.toRat = entry.unitsOf volume.toRat := by
  have above := Decimal.lessThan_iff Decimal.one entry.rate
  rw [Decimal.toRat_one] at above
  unfold billableUnits unitsOf
  split
  · rename_i divides
    have aboveOne := above.mp divides
    have notZero : entry.rate.isZero = false := by
      rw [Bool.eq_false_iff]
      intro zero
      rw [Decimal.toRat_of_isZero zero] at aboveOne
      linarith
    have quotient := Decimal.rounds_div? volume notZero
    rw [if_pos aboveOne]
    cases divided : volume.div? entry.rate with
    | none =>
      rw [divided] at quotient
      exact absurd (holds_div_rate aboveOne volume) quotient
    | some result =>
      rw [divided] at quotient
      refine ⟨result.ceil, rfl, ?_⟩
      rw [result.toRat_ceil, quotient.2]
  · rename_i stands
    rw [if_neg (mt above.mpr stands)]
    exact ⟨volume, rfl, rfl⟩

/-! ## The least units that cover a volume -/

theorem isLeast_iff_eq_ceil
    (above : 1 < entry.rate.toRat)
    (volume : Decimal)
    (units : ℤ) :
    IsLeast {k : ℤ | volume.toRat ≤ k * entry.rate.toRat} units ↔
      units = ⌈volume.toRat / entry.rate.toRat⌉ := by
  have positive : 0 < entry.rate.toRat := by linarith
  have least : IsLeast {k : ℤ | volume.toRat ≤ k * entry.rate.toRat}
      ⌈volume.toRat / entry.rate.toRat⌉ := by
    constructor
    · exact (div_le_iff₀ positive).mp (Int.le_ceil _)
    · intro k covers
      exact Int.ceil_le.mpr ((div_le_iff₀ positive).mpr covers)
  constructor
  · intro isLeast
    exact isLeast.unique least
  · intro same
    rw [same]
    exact least

/-- A volume is billed as the least number of units that covers it, unless it begins a
unit by so little that the quotient is rounded to the units before it: then it is
billed as those. -/
theorem isLeast_billableUnits_iff
    (entry : TariffEntry)
    (volume : Decimal)
    (above : 1 < entry.rate.toRat) :
    ∃ units, ∃ count : ℤ, entry.billableUnits volume = .ok units ∧ units.toRat = count ∧
      (IsLeast {k : ℤ | volume.toRat ≤ k * entry.rate.toRat} count ↔
        ¬ Decimal.LosesFraction (volume.toRat / entry.rate.toRat)) ∧
      (Decimal.LosesFraction (volume.toRat / entry.rate.toRat) →
        count = ⌊volume.toRat / entry.rate.toRat⌋) := by
  obtain ⟨units, billed, value⟩ := entry.exists_billableUnits volume
  rw [unitsOf, if_pos above] at value
  refine ⟨units, _, billed, value, ?_, ?_⟩
  · rw [isLeast_iff_eq_ceil above, Decimal.ceil_rounded_eq_ceil_iff]
  · exact fun loses => loses.ceil_rounded

/-- Five for each started hour. -/
def hourly : TariffEntry :=
  ⟨"m1.small", .ofInt 5, .ofInt 3600, .time, false⟩

theorem toRat_rate_hourly : hourly.rate.toRat = 3600 :=
  Decimal.toRat_ofInt (by decide)

/-- A second after an hour, the next hour is billed. -/
theorem isLeast_billableUnits_started_hour :
    1 < hourly.rate.toRat ∧
      ∃ units, ∃ count : ℤ, hourly.billableUnits (.ofInt 3601) = .ok units ∧
        units.toRat = count ∧ units = .ofInt 2 ∧
        IsLeast {k : ℤ | (Decimal.ofInt 3601).toRat ≤ k * hourly.rate.toRat} count := by
  have above : 1 < hourly.rate.toRat := by
    rw [toRat_rate_hourly]
    norm_num
  have volume : (Decimal.ofInt 3601).toRat = (3601 : ℕ) := Decimal.toRat_ofInt (by decide)
  have keeps : ¬ Decimal.LosesFraction ((Decimal.ofInt 3601).toRat / hourly.rate.toRat) := by
    have rate : hourly.rate.toRat = (3600 : ℕ) := toRat_rate_hourly
    rw [volume, rate]
    exact Decimal.not_losesFraction_div (by decide) (by decide) (by decide)
  obtain ⟨units, count, billed, value, least, _⟩ :=
    isLeast_billableUnits_iff hourly (.ofInt 3601) above
  have two : hourly.billableUnits (.ofInt 3601) = .ok (.ofInt 2) := by decide +kernel
  exact ⟨above, units, count, billed, value, Except.ok.inj (billed.symm.trans two),
    least.mpr keeps⟩

/-- A little more than an hour, in the last of the digits that a decimal has. -/
def overAnHour : Decimal :=
  ⟨false, 36000000000000000000000000001, 25, by decide, by decide⟩

/-- That little is lost, and one hour is billed. -/
theorem not_forall_isLeast_billableUnits :
    ¬ ∀ (entry : TariffEntry) (volume : Decimal), 1 < entry.rate.toRat →
      ∃ units, ∃ count : ℤ, entry.billableUnits volume = .ok units ∧ units.toRat = count ∧
        IsLeast {k : ℤ | volume.toRat ≤ k * entry.rate.toRat} count := by
  intro all
  have above : 1 < hourly.rate.toRat := by
    rw [toRat_rate_hourly]
    norm_num
  obtain ⟨units, count, billed, value, least⟩ := all hourly overAnHour above
  have one : hourly.billableUnits overAnHour = .ok .one := by decide +kernel
  have single : count = 1 := by
    rw [one] at billed
    cases billed
    rw [Decimal.toRat_one] at value
    exact_mod_cast value.symm
  have covers : overAnHour.toRat ≤ count * hourly.rate.toRat := least.1
  rw [single, toRat_rate_hourly, Decimal.toRat_eq_signed] at covers
  norm_num [Decimal.signed, overAnHour] at covers

end TariffEntry

end UsageBilling

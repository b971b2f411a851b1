import UsageBilling.Proofs.Decimal.Rounding
import UsageBilling.Proofs.Reconciler.Packing
import UsageBilling.Proofs.Text.Integer

/-!
Contract: which quantities have weights, and which quantity a weight has.

Owns:
- a value has one mantissa and one scale without trailing zeros, which are those of its
  normal form;
- a quantity is packed exactly if that mantissa leaves room for the scale in 64 bits;
- quantities have one weight exactly if they have one value;
- which weights of 64 bits can be unpacked, and that each of these leads back to its
  value.

Does not own: the coverage that carries weights.
-/

namespace UsageBilling

namespace Decimal

variable {value : ℚ} {mantissa mantissa' : Int} {scale scale' : ℕ}

/-! ## Values without trailing zeros -/

/-- A value as a mantissa and a number of fraction digits, the last of which is not
zero. -/
structure Stripped (value : ℚ) (mantissa : Int) (scale : ℕ) : Prop where
  value_eq : value = mantissa / 10 ^ scale
  noTrailingZero : scale ≠ 0 → ¬ 10 ∣ mantissa

theorem Stripped.mul_pow_eq
    (form : Stripped value mantissa scale)
    (form' : Stripped value mantissa' scale') :
    mantissa * 10 ^ scale' = mantissa' * 10 ^ scale := by
  have positive : ∀ digits : ℕ, (10 ^ digits : ℚ) ≠ 0 :=
    fun digits => pow_ne_zero digits (by norm_num)
  have same := form.value_eq.symm.trans form'.value_eq
  rw [div_eq_div_iff (positive scale) (positive scale')] at same
  exact_mod_cast same

theorem Stripped.scale_le
    (form : Stripped value mantissa scale)
    (form' : Stripped value mantissa' scale') :
    scale ≤ scale' := by
  by_contra longer
  have ⟨zeros, ofZeros⟩ := Nat.exists_eq_add_of_lt (Nat.not_le.mp longer)
  have same := form.mul_pow_eq form'
  have powers : mantissa' * 10 ^ scale = mantissa' * 10 ^ zeros * 10 * 10 ^ scale' := by
    rw [ofZeros]
    ring
  rw [powers] at same
  have divides : 10 ∣ mantissa := by
    rw [Int.eq_of_mul_eq_mul_right (pow_ne_zero scale' (by decide)) same]
    exact Int.dvd_mul_left _ _
  exact form.noTrailingZero (by omega) divides

/-- A value has one form without trailing zeros. -/
theorem Stripped.unique
    (form : Stripped value mantissa scale)
    (form' : Stripped value mantissa' scale') :
    mantissa = mantissa' ∧ scale = scale' := by
  have sameScale : scale = scale' := Nat.le_antisymm (form.scale_le form') (form'.scale_le form)
  have same := form.mul_pow_eq form'
  rw [sameScale] at same
  exact ⟨Int.eq_of_mul_eq_mul_right (pow_ne_zero scale' (by decide)) same, sameScale⟩

theorem natAbs_unscaled
    (d : Decimal) :
    d.unscaled.natAbs = d.mantissa := by
  unfold unscaled
  split
  · rw [Int.natAbs_neg, Int.natAbs_natCast]
  · rw [Int.natAbs_natCast]

theorem stripZeros_ends
    (mantissa scale : ℕ) :
    (stripZeros mantissa scale).2 = 0 ∨ (stripZeros mantissa scale).1 % 10 ≠ 0 := by
  induction scale generalizing mantissa with
  | zero => exact Or.inl rfl
  | succ scale inductionHypothesis =>
    unfold stripZeros
    split
    · exact inductionHypothesis (mantissa / 10)
    · rename_i lastDigit
      exact Or.inr lastDigit

theorem stripped_normalize
    (d : Decimal) :
    Stripped d.toRat d.normalize.unscaled d.normalize.scale := by
  constructor
  · rw [← toRat_normalize, toRat_eq_div, Power.cast_ofTen]
  · intro fraction divides
    have ends : (stripZeros d.mantissa d.scale).1 % 10 ≠ 0 :=
      (stripZeros_ends d.mantissa d.scale).resolve_left fraction
    have ofMantissa : 10 ∣ d.normalize.unscaled.natAbs := Int.natCast_dvd.mp divides
    rw [natAbs_unscaled] at ofMantissa
    exact ends (Nat.mod_eq_zero_of_dvd ofMantissa)

/-- What is left of a mantissa without trailing zeros was multiplied by a power of ten. -/
theorem exists_unscaled_eq
    (d : Decimal) :
    ∃ zeros : ℕ, d.unscaled = d.normalize.unscaled * Power.ofTen zeros := by
  have ⟨zeros, ofZeros⟩ := Nat.exists_eq_add_of_le (stripZeros_le d.mantissa d.scale).2
  have same := (toRat_eq_iff _ _).mp d.toRat_normalize
  refine ⟨zeros, ?_⟩
  have positive : (Power.ofTen d.normalize.scale : Int) ≠ 0 :=
    Int.natCast_ne_zero.mpr (Nat.pos_iff_ne_zero.mp (Power.ofTen_pos _))
  apply Int.eq_of_mul_eq_mul_right positive
  rw [← same, ofZeros, Power.ofTen_add]
  show _ = _ * _ * (Power.ofTen (stripZeros d.mantissa d.scale).2 : Int)
  push_cast
  ring

end Decimal

namespace PackedQuantity

open Decimal (Stripped stripped_normalize)

variable {quantity other unpacked : Decimal} {weight weight' : Int}

/-! ## Quantities that have a weight -/

/-- Whether a mantissa leaves the room in 64 bits that the scale takes. -/
def LeavesRoom (mantissa : Int) : Prop :=
  -2 ^ 58 ≤ mantissa ∧ mantissa < 2 ^ 58

instance (mantissa : Int) : Decidable (LeavesRoom mantissa) :=
  inferInstanceAs (Decidable (_ ∧ _))

/-- Neither shifting the mantissa nor adding the scale leaves 64 bits then, and no
mantissa without that room can be shifted. -/
theorem pack_eq
    (quantity : Decimal) :
    pack quantity =
      if LeavesRoom quantity.normalize.unscaled then
        .ok (quantity.normalize.unscaled * scaleFactor + quantity.normalize.scale)
      else .error .overflow := by
  have scaleBound := quantity.normalize.scale_le
  have fits : (Text.fitsInt64 quantity.normalize.unscaled &&
      Text.fitsInt64 (quantity.normalize.unscaled * scaleFactor) &&
      Text.fitsInt64
        (quantity.normalize.unscaled * scaleFactor + quantity.normalize.scale)) = true ↔
      LeavesRoom quantity.normalize.unscaled := by
    simp only [Bool.and_eq_true, Text.fitsInt64_iff, Text.int64Min, Text.int64Max, LeavesRoom,
      scaleFactor]
    simp only [Decimal.maxScale] at scaleBound
    omega
  exact if_congr fits rfl rfl

theorem exists_pack_iff
    (quantity : Decimal) :
    (∃ weight, pack quantity = .ok weight) ↔ LeavesRoom quantity.normalize.unscaled := by
  rw [pack_eq]
  split
  · rename_i room
    exact iff_of_true ⟨_, rfl⟩ room
  · rename_i noRoom
    refine iff_of_false ?_ noRoom
    rintro ⟨weight, impossible⟩
    cases impossible

/-- Weights are told apart by the mantissa above the scale. -/
theorem pack_eq_iff
    (packed : pack quantity = .ok weight)
    (packed' : pack other = .ok weight') :
    weight = weight' ↔ quantity.toRat = other.toRat := by
  constructor
  · intro same
    have ⟨unpacked, fromWeight, sameValue⟩ := unpack_of_pack packed
    have ⟨unpacked', fromWeight', sameValue'⟩ := unpack_of_pack packed'
    rw [← same, fromWeight] at fromWeight'
    rw [← sameValue, ← sameValue', Except.ok.inj fromWeight']
  · intro sameValue
    have form := stripped_normalize quantity
    rw [sameValue] at form
    have ⟨sameMantissa, sameScale⟩ := form.unique (stripped_normalize other)
    rw [((pack_eq_ok_iff quantity weight).mp packed).1,
      ((pack_eq_ok_iff other weight').mp packed').1, sameMantissa, sameScale]

/-! ## Weights that can be unpacked -/

theorem parts_of_unpack
    (fromWeight : unpack weight = .ok unpacked) :
    unpacked.unscaled = weight / scaleFactor ∧ unpacked.scale = (weight % scaleFactor).toNat := by
  rw [unpack] at fromWeight
  split at fromWeight
  · rename_i quantity parts
    cases fromWeight
    obtain ⟨signed, made, unsigned⟩ := Option.map_eq_some_iff.mp parts
    unfold Decimal.ofSignedParts? at made
    split at made
    · cases made
      rw [← unsigned]
      refine ⟨Decimal.unscaled_of_parts ?_ rfl, rfl⟩
      simp only [Decimal.withUnsignedZero]
      grind
    · cases made
  · cases fromWeight

/-- Whether a weight holds a scale that quantities have. -/
def Unpacks (weight : Int) : Prop :=
  weight % scaleFactor ≤ Decimal.maxScale

instance (weight : Int) : Decidable (Unpacks weight) :=
  inferInstanceAs (Decidable (_ ≤ _))

theorem exists_unpack_iff
    {weight : Int}
    (fits : Text.fitsInt64 weight = true) :
    (∃ quantity, unpack weight = .ok quantity) ↔ Unpacks weight := by
  have ⟨lower, upper⟩ := (Text.fitsInt64_iff weight).mp fits
  have mantissaFits : (weight / scaleFactor).natAbs < Decimal.mantissaLimit := by
    simp only [Text.int64Min, Text.int64Max] at lower upper
    simp only [scaleFactor, Decimal.mantissaLimit]
    omega
  have scaleFits : (weight % scaleFactor).toNat ≤ Decimal.maxScale ↔ Unpacks weight := by
    simp only [Unpacks, scaleFactor]
    omega
  rw [← scaleFits]
  unfold unpack Decimal.ofParts? Decimal.ofSignedParts?
  by_cases within : (weight % scaleFactor).toNat ≤ Decimal.maxScale
  · simp [mantissaFits, within]
  · simp [within]

/-- The mantissa of a weight leaves room for the scale, and without trailing zeros it is
no larger. -/
theorem leavesRoom_of_unpack
    (fits : Text.fitsInt64 weight = true)
    (fromWeight : unpack weight = .ok unpacked) :
    LeavesRoom unpacked.normalize.unscaled := by
  have ⟨lower, upper⟩ := (Text.fitsInt64_iff weight).mp fits
  simp only [Text.int64Min, Text.int64Max] at lower upper
  have ⟨zeros, ofZeros⟩ := unpacked.exists_unscaled_eq
  have ofWeight := (parts_of_unpack fromWeight).1
  have room : LeavesRoom unpacked.unscaled := by
    simp only [LeavesRoom, ofWeight, scaleFactor]
    omega
  have positive : (1 : Int) ≤ Power.ofTen zeros := Int.toNat_le.mp (Power.ofTen_pos zeros)
  rw [ofZeros] at room
  by_cases negative : unpacked.normalize.unscaled ≤ 0
  · have larger := mul_le_of_one_le_right negative positive
    exact ⟨Int.le_trans room.1 larger, by omega⟩
  · have larger := le_mul_of_one_le_right (Int.le_of_lt (Int.not_le.mp negative)) positive
    exact ⟨by omega, Int.lt_of_le_of_lt larger room.2⟩

/-! ## Packing as a whole -/

/-- A quantity that is packed exactly, if at all: into a weight that it shares with the
quantities of its value, and that leads back to this value. -/
structure PacksExactly (quantity : Decimal) : Prop where
  normal : Stripped quantity.toRat quantity.normalize.unscaled quantity.normalize.scale
  packs : (∃ weight, pack quantity = .ok weight) ↔ LeavesRoom quantity.normalize.unscaled
  refuses : ¬ LeavesRoom quantity.normalize.unscaled → pack quantity = .error .overflow
  unpacks : ∀ weight, pack quantity = .ok weight → Text.fitsInt64 weight = true ∧
    ∃ unpacked, unpack weight = .ok unpacked ∧ unpacked.toRat = quantity.toRat
  shares : ∀ other weight weight', pack quantity = .ok weight → pack other = .ok weight' →
    (weight = weight' ↔ quantity.toRat = other.toRat)

/-- A weight that stands for a value which can be packed again, if it holds a scale that
quantities have, and for none otherwise. -/
structure UnpacksExactly (weight : Int) : Prop where
  unpacks : (∃ unpacked, unpack weight = .ok unpacked) ↔ Unpacks weight
  packsAgain : ∀ unpacked, unpack weight = .ok unpacked →
    ∃ weight' again, pack unpacked = .ok weight' ∧ unpack weight' = .ok again ∧
      again.toRat = unpacked.toRat

theorem packsExactly
    (quantity : Decimal) :
    PacksExactly quantity := by
  refine ⟨stripped_normalize quantity, exists_pack_iff quantity, ?refuses, ?unpacks, ?shares⟩
  case refuses =>
    intro noRoom
    rw [pack_eq, if_neg noRoom]
  case unpacks =>
    intro weight packed
    exact ⟨((pack_eq_ok_iff quantity weight).mp packed).2.2.2, unpack_of_pack packed⟩
  case shares =>
    intro other weight weight' packed packed'
    exact pack_eq_iff packed packed'

theorem unpacksExactly
    (fits : Text.fitsInt64 weight = true) :
    UnpacksExactly weight := by
  refine ⟨exists_unpack_iff fits, ?_⟩
  intro unpacked fromWeight
  have ⟨weight', packed⟩ := (exists_pack_iff unpacked).mpr (leavesRoom_of_unpack fits fromWeight)
  have ⟨again, fromWeight', sameValue⟩ := unpack_of_pack packed
  exact ⟨weight', again, packed, fromWeight', sameValue⟩

/-- Quantities are packed exactly, and weights of 64 bits are unpacked exactly. -/
theorem packsExactly_and_unpacksExactly
    (quantity : Decimal)
    (weight : Int)
    (fits : Text.fitsInt64 weight = true) :
    PacksExactly quantity ∧ UnpacksExactly weight :=
  ⟨packsExactly quantity, unpacksExactly fits⟩

/-- The smallest mantissa is packed with the largest scale. A weight that holds `1.00`
leads to the weight of `1`. -/
theorem packsExactly_smallest_mantissa :
    ∃ smallest one : Decimal, smallest.unscaled = -2 ^ 58 ∧ smallest.scale = 28 ∧
      pack smallest = .ok (-2 ^ 63 + 28) ∧ unpack 3202 = .ok one ∧ pack one = .ok 32 ∧
      PacksExactly smallest ∧ UnpacksExactly 3202 := by
  have exact := packsExactly_and_unpacksExactly
    ⟨true, 288230376151711744, 28, by decide, by decide⟩ 3202 (by decide)
  exact ⟨_, ⟨false, 100, 2, by decide, by decide⟩, by decide, rfl, by decide, by decide, by decide,
    exact⟩

end PackedQuantity

end UsageBilling

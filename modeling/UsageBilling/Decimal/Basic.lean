import UsageBilling.Number.Power

/-!
Contract: the decimal numbers that volumes, prices and rates are written in.

Owns:
- the number type: a sign, a mantissa of 96 bits and a scale of at most 28
  fraction digits;
- its exact value, and comparison by that value;
- the form without trailing zeros.

Does not own: arithmetic, which may have to round, or the written form.
-/

namespace UsageBilling

namespace Decimal

def mantissaLimit : Nat := 79228162514264337593543950336

def maxScale : Nat := 28

end Decimal

/-- A decimal number: `mantissa / 10 ^ scale`, negated where `negative` holds.

The scale is part of the number, so `20.5` and `20.50` are two numbers of one
value. So is the sign of a zero, which some roundings of a negative number to
zero keep; by value the two zeros are equal. -/
structure Decimal where
  negative : Bool
  mantissa : Nat
  scale : Nat
  mantissa_lt : mantissa < Decimal.mantissaLimit
  scale_le : scale ≤ Decimal.maxScale
deriving DecidableEq, Repr

namespace Decimal

/-- The number of the given parts if they are within bounds, with the given
sign also where it is zero. -/
def ofSignedParts? (negative : Bool) (mantissa scale : Nat) : Option Decimal :=
  if within : mantissa < mantissaLimit ∧ scale ≤ maxScale then
    some ⟨negative, mantissa, scale, within.1, within.2⟩
  else none

/-- The same number, except that a zero has no sign. -/
def withUnsignedZero (d : Decimal) : Decimal :=
  { d with negative := d.negative && d.mantissa != 0 }

/-- The number of the given parts if they are within bounds. A zero made this
way has no sign. -/
def ofParts? (negative : Bool) (mantissa scale : Nat) : Option Decimal :=
  (ofSignedParts? negative mantissa scale).map withUnsignedZero

def zero : Decimal :=
  ⟨false, 0, 0, by decide, by decide⟩

def one : Decimal :=
  ⟨false, 1, 0, by decide, by decide⟩

instance : Inhabited Decimal :=
  ⟨zero⟩

/-- The integer as a number without fraction digits; beyond 96 bits, the
largest such number of its sign. -/
def ofInt (n : Int) : Decimal :=
  ⟨n < 0, min n.natAbs (mantissaLimit - 1), 0,
    Nat.lt_of_le_of_lt (Nat.min_le_right _ _) (by decide), by decide⟩

def unscaled (d : Decimal) : Int :=
  if d.negative then -(d.mantissa : Int) else d.mantissa

def toRat (d : Decimal) : Rat :=
  mkRat d.unscaled (Power.ofTen d.scale)

def isZero (d : Decimal) : Bool :=
  d.mantissa == 0

/-- Comparison by value: both mantissas are brought to a common scale. -/
def compare (a b : Decimal) : Ordering :=
  Ord.compare (a.unscaled * Power.ofTen b.scale) (b.unscaled * Power.ofTen a.scale)

/-- Equality of values, so that `1.0` and `1.00` agree. -/
def sameValue (a b : Decimal) : Bool :=
  a.compare b == .eq

def lessThan (a b : Decimal) : Bool :=
  a.compare b == .lt

def atMost (a b : Decimal) : Bool :=
  a.compare b != .gt

/-- The mantissa and scale that remain when as many trailing zeros as there
are fraction digits for them have been removed. -/
def stripZeros (mantissa : Nat) : Nat → Nat × Nat
  | 0 => (mantissa, 0)
  | scale + 1 =>
    if mantissa % 10 = 0 then stripZeros (mantissa / 10) scale else (mantissa, scale + 1)

/-- Removing trailing zeros makes neither the mantissa nor the scale larger. -/
theorem stripZeros_le
    (mantissa scale : Nat) :
    (stripZeros mantissa scale).1 ≤ mantissa ∧ (stripZeros mantissa scale).2 ≤ scale := by
  induction scale generalizing mantissa with
  | zero => exact ⟨Nat.le_refl _, Nat.le_refl _⟩
  | succ scale inductionHypothesis =>
    unfold stripZeros
    split
    · have shorter := inductionHypothesis (mantissa / 10)
      exact ⟨Nat.le_trans shorter.1 (Nat.div_le_self _ _), Nat.le_succ_of_le shorter.2⟩
    · exact ⟨Nat.le_refl _, Nat.le_refl _⟩

/-- The number of the same value without trailing zeros; zero has scale zero
and no sign. -/
def normalize (d : Decimal) : Decimal :=
  let stripped := stripZeros d.mantissa d.scale
  ⟨d.negative && d.mantissa != 0, stripped.1, stripped.2,
    Nat.lt_of_le_of_lt (stripZeros_le d.mantissa d.scale).1 d.mantissa_lt,
    Nat.le_trans (stripZeros_le d.mantissa d.scale).2 d.scale_le⟩

end Decimal

end UsageBilling

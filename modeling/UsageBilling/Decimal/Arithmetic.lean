import UsageBilling.Decimal.Basic
import UsageBilling.Number.Rounding

/-!
Contract: decimal arithmetic within 96 bits and 28 fraction digits.

Owns:
- the sum, product and quotient of two numbers, rounded only as far as their
  exact result does not fit, a half going to the even neighbour;
- which zero results keep a sign;
- rounding up to an integer, and the integer part;
- the choice of the larger of two numbers of equal value.

Does not own: what a result that cannot be held means to a caller.
-/

namespace UsageBilling.Decimal

/-- Whether dropping `dropped` digits of a mantissa leaves a number within
bounds. -/
def fitsAfterDropping (mantissa scale dropped : Nat) : Bool :=
  scale - dropped ≤ maxScale &&
    HalfRule.toEven.round mantissa (Power.ofTen dropped) < mantissaLimit

/-- The number nearest to `mantissa / 10 ^ scale` that gives up the fewest
fraction digits, with its sign even if nothing else is left. There is none if
giving up all fraction digits is not enough. -/
def reduce? (negative : Bool) (mantissa scale : Nat) : Option Decimal := do
  let dropped ← (List.range (scale + 1)).find? (fitsAfterDropping mantissa scale)
  ofSignedParts? negative (HalfRule.toEven.round mantissa (Power.ofTen dropped)) (scale - dropped)

/-- The sum. Beside a zero the other operand stands as it is, a signed zero
too; otherwise the sum has the larger of the two scales, loses fraction digits
only to fit, and has no sign where it is zero. -/
def add? (a b : Decimal) : Option Decimal :=
  if a.isZero then some b
  else if b.isZero then some a
  else
    let scale := max a.scale b.scale
    let total := a.unscaled * Power.ofTen (scale - a.scale) +
      b.unscaled * Power.ofTen (scale - b.scale)
    reduce? (total < 0) total.natAbs scale

def sum? (terms : List Decimal) : Option Decimal :=
  terms.foldlM add? zero

/-- Mantissas below this bound have 32 bits. -/
def shortMantissaLimit : Nat := 4294967296

/-- The largest joint scale at which the product of two short mantissas is
still rounded digit by digit. -/
def shortProductScale : Nat := 47

/-- The product. Scales add up; fraction digits are given up only to fit. A
zero factor gives plain zero. The product of two short mantissas is plain zero
beyond `shortProductScale`, and has no sign where it is rounded to zero; any
other product keeps its sign there. -/
def mul? (a b : Decimal) : Option Decimal :=
  let scale := a.scale + b.scale
  let product := reduce? (a.negative != b.negative) (a.mantissa * b.mantissa) scale
  if a.isZero || b.isZero then some zero
  else if a.mantissa < shortMantissaLimit && b.mantissa < shortMantissaLimit then
    if shortProductScale < scale then some zero else product.map withUnsignedZero
  else product

/-- Whether `numerator / denominator` written with `scale` fraction digits has
a mantissa within bounds. -/
def quotientFits (numerator denominator scale : Nat) : Bool :=
  numerator * Power.ofTen scale / denominator < mantissaLimit

/-- The quotient with as many fraction digits as fit, the last one rounded. A
zero quotient has no sign. There is none for a zero divisor or a quotient of
more than 96 bits. -/
def div? (a b : Decimal) : Option Decimal :=
  if b.isZero then none
  else do
    let numerator := a.mantissa * Power.ofTen b.scale
    let denominator := b.mantissa * Power.ofTen a.scale
    let scale ← (List.range (maxScale + 1)).reverse.find? (quotientFits numerator denominator)
    let quotient := HalfRule.toEven.round (numerator * Power.ofTen scale) denominator
    (reduce? (a.negative != b.negative) quotient scale).map withUnsignedZero

def truncated (d : Decimal) : Int :=
  let whole : Int := (d.mantissa / Power.ofTen d.scale : Nat)
  if d.negative then -whole else whole

theorem nextWhole_lt
    (d : Decimal)
    (fractional : d.scale ≠ 0) :
    d.mantissa / Power.ofTen d.scale + 1 < mantissaLimit := by
  have tenth : d.mantissa / Power.ofTen d.scale ≤ d.mantissa / 10 := by
    apply Nat.div_le_div_left _ (by decide)
    exact Power.ten_le_ofTen fractional
  have bound := d.mantissa_lt
  simp only [mantissaLimit] at bound ⊢
  omega

/-- The least integer that is not below the number. A negative fraction rounds
up to a zero that keeps its sign. -/
def ceil (d : Decimal) : Decimal :=
  if fractional : d.scale = 0 then d
  else if !d.negative && d.mantissa % Power.ofTen d.scale != 0 then
    ⟨false, d.mantissa / Power.ofTen d.scale + 1, 0, nextWhole_lt d fractional, Nat.zero_le _⟩
  else
    ⟨d.negative, d.mantissa / Power.ofTen d.scale, 0,
      Nat.lt_of_le_of_lt (Nat.div_le_self _ _) d.mantissa_lt, Nat.zero_le _⟩

/-- The larger number; of two equal values, the one held so far. -/
def larger (held next : Decimal) : Decimal :=
  if held.lessThan next then next else held

/-- The largest number of a list; of equal values, the last. -/
def maximum? : List Decimal → Option Decimal
  | [] => none
  | first :: rest =>
    some (rest.foldl (fun held next => if next.lessThan held then held else next) first)

end UsageBilling.Decimal

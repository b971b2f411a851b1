import UsageBilling.Number.Binary64

/-!
Contract: the shortest decimal digits of a binary floating-point number.

Owns:
- the interval of real numbers that round to a given number;
- the fewest decimal digits whose value lies in that interval, and of those the
  nearest to the number.

Does not own: how the digits are laid out as text, or which digits a text takes
when two choices are equally near.
-/

namespace UsageBilling.Binary64

/-- Decimal digits of a positive number: `digits * 10 ^ exponent`, the last
digit not zero. -/
structure Digits where
  digits : Nat
  exponent : Int
deriving DecidableEq, Repr

/-- The factor that a power of ten contributes above the line of a ratio. -/
def tenPower (exponent : Int) : Nat :=
  Power.ofTen exponent.toNat

/-- A positive number and its rounding interval over one denominator: the
number, both ends of the interval, and whether the ends belong to it. -/
structure RoundingInterval where
  value : Nat
  low : Nat
  high : Nat
  denominator : Nat
  closed : Bool

/-- The interval of reals that round to the number. Below a power of two the
neighbours are half as far away, except at the smallest exponent. The ends
round to the number exactly if its mantissa is even. -/
def roundingInterval (x : Binary64) : RoundingInterval :=
  let unit := twoPower x.exponent
  let value := 4 * x.mantissa
  let below := if 2 * x.mantissa = mantissaLimit ∧ minExponent < x.exponent then 1 else 2
  ⟨value * unit, (value - below) * unit, (value + 2) * unit,
    4 * twoPower (-x.exponent), x.mantissa % 2 == 0⟩

namespace RoundingInterval

/-- Whether `digits * 10 ^ exponent` lies in the interval. -/
def holds (i : RoundingInterval) (exponent : Int) (digits : Nat) : Bool :=
  let point := digits * tenPower exponent * i.denominator
  let scale := tenPower (-exponent)
  if i.closed then i.low * scale ≤ point && point ≤ i.high * scale
  else i.low * scale < point && point < i.high * scale

/-- The point of the decimal grid at `exponent` that lies in the interval and
is nearest to the number; of two equally near, the one of the rule. -/
def nearest? (i : RoundingInterval) (rule : HalfRule) (exponent : Int) : Option Nat :=
  let step := tenPower exponent * i.denominator
  let scaled := i.value * tenPower (-exponent)
  let floor := scaled / step
  let preferred := rule.round scaled step
  let other := if preferred = floor then floor + 1 else floor
  [preferred, other].find? fun digits => 0 < digits && i.holds exponent digits

def leadingExponent (i : RoundingInterval) : Int :=
  let estimate : Int := (toString (i.value / i.denominator)).length - 1
  if i.denominator ≤ i.value then estimate
  else -((toString (i.denominator / i.value)).length : Int)

end RoundingInterval

/-- Move trailing zeros of the digits into the exponent. -/
def withoutTrailingZeros (fuel : Nat) (d : Digits) : Digits :=
  match fuel with
  | 0 => d
  | fuel + 1 =>
    if d.digits ≠ 0 ∧ d.digits % 10 = 0 then
      withoutTrailingZeros fuel ⟨d.digits / 10, d.exponent + 1⟩
    else d

/-- The fewest digits that read back as the positive number, and the nearest of
those; of two equally near, the ones of the rule. Seventeen digits always
suffice. -/
def shortest (x : Binary64) (rule : HalfRule) : Digits :=
  let interval := x.roundingInterval
  let top := interval.leadingExponent + 1
  let found := (List.range 19).findSome? fun (taken : Nat) =>
    let exponent := top - taken
    (interval.nearest? rule exponent).map (Digits.mk · exponent)
  withoutTrailingZeros 20 (found.getD ⟨0, 0⟩)

end UsageBilling.Binary64

import UsageBilling.Number.Power
import UsageBilling.Number.Rounding

/-!
Contract: finite binary floating-point numbers of 64 bits, in exact arithmetic.

Owns:
- the number type: an integer of at most 53 bits times a power of two;
- rounding a ratio to the nearest such number, a half going to the even one;
- product and quotient, rounded once.

Does not own: infinities and values that are no number. A result beyond the
largest finite number does not exist here.
-/

namespace UsageBilling

/-- `mantissa * 2 ^ exponent`, negated where `negative` holds. -/
structure Binary64 where
  negative : Bool
  mantissa : Nat
  exponent : Int
deriving DecidableEq, Repr

namespace Binary64

def mantissaLimit : Nat := 9007199254740992

/-- The exponent of the smallest positive number. -/
def minExponent : Int := -1074

/-- The exponent of the largest numbers. -/
def maxExponent : Int := 971

def zero (negative : Bool) : Binary64 :=
  ⟨negative, 0, minExponent⟩

def isZero (x : Binary64) : Bool :=
  x.mantissa == 0

/-- The factor that a power of two contributes above the line of a ratio. -/
def twoPower (exponent : Int) : Nat :=
  Power.ofTwo exponent.toNat

/-- `numerator / denominator`, in units of `2 ^ exponent`, to the nearest. -/
def inUnits (numerator denominator : Nat) (exponent : Int) : Nat :=
  HalfRule.toEven.round (numerator * twoPower (-exponent)) (denominator * twoPower exponent)

/-- The exponent at which the ratio has 53 bits before its point, unless it is
too small for that. -/
def ratioExponent (numerator denominator : Nat) : Int :=
  let estimate : Int := (numerator.log2 : Int) - denominator.log2 - 53
  let whole :=
    numerator * twoPower (-estimate) / (denominator * twoPower estimate)
  max minExponent (if whole < mantissaLimit then estimate else estimate + 1)

/-- The number nearest to `numerator / denominator`, if it is finite. -/
def ofRatio? (negative : Bool) (numerator denominator : Nat) : Option Binary64 :=
  if numerator = 0 then some (zero negative)
  else
    let exponent := ratioExponent numerator denominator
    let mantissa := inUnits numerator denominator exponent
    let rounded : Binary64 :=
      if mantissa < mantissaLimit then ⟨negative, mantissa, exponent⟩
      else ⟨negative, mantissa / 2, exponent + 1⟩
    if rounded.exponent ≤ maxExponent then some rounded else none

def ofNat? (n : Nat) : Option Binary64 :=
  ofRatio? false n 1

def mul? (a b : Binary64) : Option Binary64 :=
  let exponent := a.exponent + b.exponent
  ofRatio? (a.negative != b.negative)
    (a.mantissa * b.mantissa * twoPower exponent) (twoPower (-exponent))

/-- The quotient; there is none for a zero divisor. -/
def div? (a b : Binary64) : Option Binary64 :=
  if b.isZero then none
  else
    let exponent := a.exponent - b.exponent
    ofRatio? (a.negative != b.negative)
      (a.mantissa * twoPower exponent) (b.mantissa * twoPower (-exponent))

def negate (x : Binary64) : Binary64 :=
  { x with negative := !x.negative }

end Binary64

end UsageBilling

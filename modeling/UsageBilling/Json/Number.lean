import UsageBilling.Json.Basic
import UsageBilling.Number.Shortest
import UsageBilling.Text.Integer

/-!
Contract: the numbers of JSON documents as text.

Owns:
- the grammar of number literals, and their values;
- the text of a floating-point number inside a document;
- the text of a floating-point number without an exponent.

Does not own: decimal numbers, which documents carry as text.
-/

namespace UsageBilling.Json

open Text

/-! ## Reading -/

/-- The parts of a number literal: sign, digits before and after the point, and
exponent. An absent part is `none`. -/
structure Literal where
  negative : Bool
  whole : List Char
  fraction : Option (List Char)
  exponent : Option (Bool × List Char)

/-- Split a number literal into its parts. The whole part has no leading zero,
and no part that is announced may be empty. -/
def Literal.ofChars? (cs : List Char) : Option Literal := do
  let (negative, cs) := match cs with
    | '-' :: rest => (true, rest)
    | _ => (false, cs)
  let whole := cs.takeWhile Char.isDigit
  let cs := cs.dropWhile Char.isDigit
  if whole.isEmpty ∨ (whole.head? = some '0' ∧ whole.length ≠ 1) then none
  let (fraction, cs) ← match cs with
    | '.' :: rest =>
      let digits := rest.takeWhile Char.isDigit
      if digits.isEmpty then none else some (some digits, rest.dropWhile Char.isDigit)
    | _ => some (none, cs)
  let exponent ← match cs with
    | [] => some none
    | mark :: rest =>
      let (minus, digits) := match rest with
        | '-' :: digits => (true, digits)
        | '+' :: digits => (false, digits)
        | digits => (false, digits)
      if (mark == 'e' || mark == 'E') && !digits.isEmpty && digits.all Char.isDigit then
        some (some (minus, digits))
      else none
  some ⟨negative, whole, fraction, exponent⟩

/-- The digits of a literal that its value is computed from: as many leading
ones as 64 bits hold, and the number of digits left out. -/
def significand (value : Nat) : List Char → Nat × Nat
  | [] => (value, 0)
  | c :: rest =>
    let next := 10 * value + (digit? c).getD 0
    if next ≤ nat64Max then significand next rest else (value, rest.length + 1)

def powerOfTen? (exponent : Nat) : Option Binary64 :=
  Binary64.ofNat? (Power.ofTen exponent)

/-- The largest exponent whose power of ten is a floating-point number. -/
def largestPower : Nat := 308

/-- The number of divisions by the largest power after which nothing is left of
any significand. -/
def vanishingSteps : Nat := 3

/-- A number divided a number of times by the largest power of ten, each
quotient rounded. -/
def divideByLargest? (x : Binary64) : Nat → Option Binary64
  | 0 => some x
  | steps + 1 => do divideByLargest? (← x.div? (← powerOfTen? largestPower)) steps

/-- A number divided by a power of ten. A power beyond the largest is taken in
steps, each rounded. -/
def scaleDown? (x : Binary64) (exponent : Nat) : Option Binary64 :=
  let steps := (exponent - 1) / largestPower
  if vanishingSteps < steps then some (Binary64.zero x.negative)
  else do
    let scaled ← divideByLargest? x steps
    scaled.div? (← powerOfTen? (exponent - steps * largestPower))

/-- A number multiplied by a power of ten, if the product is finite. -/
def scaleUp? (x : Binary64) (exponent : Nat) : Option Binary64 :=
  if exponent ≤ largestPower then do x.mul? (← powerOfTen? exponent)
  else if x.isZero then some x
  else none

/-- The floating-point value of a literal: its leading digits, rounded, times
or divided by a power of ten, rounded again. -/
def Literal.floatValue? (l : Literal) : Option Binary64 := do
  let (wholeDigits, wholeDropped) := significand 0 l.whole
  let fraction := l.fraction.getD []
  let (digits, dropped) := significand wholeDigits fraction
  let pointShift : Int := (wholeDropped : Int) - (fraction.length - dropped : Nat)
  let written : Int := match l.exponent with
    | some (true, exponent) => -((natural? exponent).getD 0 : Int)
    | some (false, exponent) => ((natural? exponent).getD 0 : Int)
    | none => 0
  let exponent := pointShift + written
  let magnitude ← Binary64.ofNat? digits
  let value ← if exponent < 0 then scaleDown? magnitude (-exponent).toNat
    else scaleUp? magnitude exponent.toNat
  some (if l.negative then value.negate else value)

/-- The value of a literal. Without point and exponent it is an integer if 64
bits hold it; minus zero is floating-point. -/
def Literal.value (l : Literal) : Json :=
  let float := match l.floatValue? with
    | some x => Json.float x
    | none => Json.unreadable
  match l.fraction, l.exponent with
  | none, none =>
    let magnitude := (natural? l.whole).getD 0
    if l.negative then
      if magnitude ≠ 0 ∧ fitsInt64 (-(magnitude : Int)) then Json.integer (-(magnitude : Int))
      else float
    else if magnitude ≤ nat64Max then Json.integer magnitude
    else float
  | _, _ => float

/-! ## Writing -/

/-- The least and largest exponent of the leading digit at which a document
writes a number without an exponent. -/
def positionalExponents : Int × Int := (-5, 15)

/-- Digits with the point put where the exponent says, and no exponent. A whole
number has no point. -/
def positionalText (d : Binary64.Digits) : String :=
  let digits := (toString d.digits).toList
  if 0 ≤ d.exponent then String.ofList (digits ++ List.replicate d.exponent.toNat '0')
  else
    let places := (-d.exponent).toNat
    let padded := List.replicate (places + 1 - digits.length) '0' ++ digits
    let whole := padded.take (padded.length - places)
    String.ofList (whole ++ '.' :: padded.drop (padded.length - places))

/-- Digits with one of them before the point, and a signed exponent. -/
def exponentText (d : Binary64.Digits) : String :=
  let digits := (toString d.digits).toList
  let exponent := d.exponent + digits.length - 1
  let mantissa := match digits with
    | first :: second :: rest => first :: '.' :: second :: rest
    | short => short
  String.ofList mantissa ++ (if exponent < 0 then "e-" else "e+") ++ toString exponent.natAbs

def signText (x : Binary64) : String :=
  if x.negative then "-" else ""

/-- The text of a floating-point number in a document: the fewest digits that
read back, even ones where two choices are equally near, and always a point or
an exponent. -/
def floatText (x : Binary64) : String :=
  if x.isZero then signText x ++ "0.0"
  else
    let d := x.shortest .toEven
    let leading := d.exponent + (toString d.digits).length - 1
    let body :=
      if positionalExponents.1 ≤ leading ∧ leading ≤ positionalExponents.2 then
        positionalText d ++ (if 0 ≤ d.exponent then ".0" else "")
      else exponentText d
    signText x ++ body

/-- The text of a floating-point number in the fewest digits that read back,
the larger ones where two choices are equally near, without an exponent. -/
def plainFloatText (x : Binary64) : String :=
  signText x ++ (if x.isZero then "0" else positionalText (x.shortest .up))

end UsageBilling.Json

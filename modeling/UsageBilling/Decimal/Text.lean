import UsageBilling.Decimal.Arithmetic
import UsageBilling.Text.Integer

/-!
Contract: decimal numbers as text.

Owns:
- the written form, which keeps every fraction digit of the scale;
- the reader of plain text, with its rounding of digits beyond the bounds;
- the reader of text with a decimal exponent, with its rounding of digits that
  the exponent moves beyond the bounds.

Does not own: blanks around a number, or the numbers of a JSON document.
-/

namespace UsageBilling.Decimal

/-- The written form: sign, integer part, and as many fraction digits as the
scale says. -/
def toText (d : Decimal) : String :=
  let sign := if d.negative then "-" else ""
  let whole := toString (d.mantissa / Power.ofTen d.scale)
  if d.scale = 0 then sign ++ whole
  else sign ++ whole ++ "." ++ Text.paddedDigits d.scale (d.mantissa % Power.ofTen d.scale)

/-- What has been read of a number so far. -/
structure Reading where
  negative : Bool
  mantissa : Nat
  scale : Nat
  pointSeen : Bool
  digitSeen : Bool

/-- Below this bound the digits before the last one make a number short. -/
def shortReadingLimit : Nat := 1844674407370954906

namespace Reading

def finish (r : Reading) : Option Decimal :=
  if r.digitSeen then ofParts? r.negative r.mantissa r.scale else none

def isFull (r : Reading) : Bool :=
  r.pointSeen && maxScale ≤ r.scale

/-- Whether a full number has so few digits that a separator ends it. In a
longer number separators are passed over to the end. -/
def endsAtSeparator (r : Reading) : Bool :=
  r.isFull && r.mantissa / 10 < shortReadingLimit

/-- The number read, when the given digit is the first that cannot be held: it
alone decides the rounding, up from five on. Only digits and separators may
follow it, and they count for nothing. -/
def roundAt (r : Reading) (digit : Nat) (rest : List Char) : Option Decimal :=
  if !rest.all fun c => (Text.digit? c).isSome || c == '_' then none
  else
    let mantissa := if 5 ≤ digit then r.mantissa + 1 else r.mantissa
    if mantissa < mantissaLimit then ofParts? r.negative mantissa r.scale
    else if r.scale = 0 then none
    else ofParts? r.negative ((mantissa + 4) / 10) (r.scale - 1)

/-- Read the remaining characters: digits, at most one point, and separators
after the first digit. -/
def continue? (r : Reading) : List Char → Option Decimal
  | [] => r.finish
  | c :: rest =>
    match Text.digit? c with
    | some digit =>
      let mantissa := 10 * r.mantissa + digit
      if !r.isFull && mantissa < mantissaLimit then
        let scale := if r.pointSeen then r.scale + 1 else r.scale
        continue? { r with mantissa := mantissa, scale := scale, digitSeen := true } rest
      else if r.pointSeen then r.roundAt digit rest
      else none
    | none =>
      if c == '.' && !r.pointSeen then continue? { r with pointSeen := true } rest
      else if c == '_' && r.digitSeen then
        if r.endsAtSeparator then r.roundAt 0 rest else continue? r rest
      else none

end Reading

def ofDigits? (negative : Bool) (cs : List Char) : Option Decimal :=
  Reading.continue? ⟨negative, 0, 0, false, false⟩ cs

/-- Read a number without an exponent: an optional sign and digits with at
most one point. -/
def ofPlainChars? : List Char → Option Decimal
  | '-' :: digits => ofDigits? true digits
  | '+' :: digits => ofDigits? false digits
  | digits => ofDigits? false digits

/-- The number times a power of ten. Within its scale the point moves; beyond,
the mantissa grows and trailing zeros are removed. -/
def shiftLeft? (d : Decimal) (exponent : Nat) : Option Decimal :=
  if exponent ≤ d.scale then ofParts? d.negative d.mantissa (d.scale - exponent)
  else if maxScale < exponent then none
  else (ofParts? d.negative (d.mantissa * Power.ofTen (exponent - d.scale)) 0).map normalize

/-- The number divided by a power of ten, if the exponent alone is within the
scale. The point moves; digits that leave the scale are given up, a half
rounding away from zero, and the sign stays even if no other digit does. -/
def shiftRight? (d : Decimal) (exponent : Nat) : Option Decimal :=
  if maxScale < exponent then none
  else
    let dropped := d.scale + exponent - maxScale
    ofSignedParts? d.negative (HalfRule.up.round d.mantissa (Power.ofTen dropped))
      (d.scale + exponent - dropped)

/-- Read a number with an exponent after the first `e` or `E`. -/
def ofExponentChars? (cs : List Char) : Option Decimal := do
  let isMark := fun c => c == 'e' || c == 'E'
  let base ← ofPlainChars? (cs.takeWhile (!isMark ·))
  match cs.dropWhile (!isMark ·) with
  | [] => none
  | _ :: '-' :: digits => do base.shiftRight? (← Text.readNat? Text.nat32Max digits)
  | _ :: digits => do base.shiftLeft? (← Text.readNat? Text.nat32Max digits)

def ofText? (s : String) : Option Decimal :=
  ofPlainChars? s.toList <|> ofExponentChars? s.toList

end UsageBilling.Decimal

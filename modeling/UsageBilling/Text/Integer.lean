/-!
Contract: integers written in decimal digits, read into a bounded range.

Owns:
- the value of a run of ASCII digits;
- the bounds of the 32-bit and 64-bit integers that documents and settings carry;
- digits padded to a width;
- readers that accept exactly the texts of integers within such a bound.

Does not own: decimal fractions, or the integers of a JSON document.
-/

namespace UsageBilling.Text

def digit? (c : Char) : Option Nat :=
  if '0' ≤ c && c ≤ '9' then some (c.toNat - '0'.toNat) else none

/-- The value of a non-empty run of ASCII digits, most significant first. -/
def natural? (cs : List Char) : Option Nat :=
  if cs.isEmpty then none
  else cs.foldlM (fun value c => (digit? c).map (10 * value + ·)) 0

/-- The digits of a natural, padded with zeros on the left to `width`. -/
def paddedDigits (width n : Nat) : String :=
  let digits := toString n
  String.ofList (List.replicate (width - digits.length) '0') ++ digits

def int64Min : Int := -9223372036854775808

def int64Max : Int := 9223372036854775807

def nat64Max : Nat := 18446744073709551615

def nat32Max : Nat := 4294967295

def fitsInt64 (n : Int) : Bool :=
  int64Min ≤ n && n ≤ int64Max

/-- An unsigned integer up to `largest`: digits after at most one plus sign. A
minus sign is refused even before zero. -/
def readNat? (largest : Nat) (cs : List Char) : Option Nat := do
  let value ← match cs with
    | '+' :: digits => natural? digits
    | digits => natural? digits
  if value ≤ largest then some value else none

/-- A signed 64-bit integer: digits after at most one sign. -/
def readInt64? (cs : List Char) : Option Int := do
  let value : Int ← match cs with
    | '-' :: digits => (natural? digits).map (fun n => -(n : Int))
    | '+' :: digits => (natural? digits).map Int.ofNat
    | digits => (natural? digits).map Int.ofNat
  if fitsInt64 value then some value else none

end UsageBilling.Text

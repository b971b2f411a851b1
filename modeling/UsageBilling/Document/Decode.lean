import UsageBilling.Decimal.Text
import UsageBilling.Instant.Text
import UsageBilling.Json.Number

/-!
Contract: reading values of given types out of JSON values.

Owns:
- decoders of texts, truth values, bounded integers, decimals and instants;
- decoders of lists and of maps, in which the last of repeated names wins;
- records: an object in which no field of the record is repeated, or an array
  of the fields in their order; fields that the record does not have are
  skipped.

A decoder gives a value or nothing; nothing ever converts from another type.

Does not own: the fields of particular records.
-/

namespace UsageBilling.Document

/-- Reads a value of a type, or refuses. -/
abbrev Decoder (α : Type) := Json → Option α

def text : Decoder String
  | .text s => some s
  | _ => none

def bool : Decoder Bool
  | .bool b => some b
  | _ => none

def int64 : Decoder Int
  | .integer n => if Text.fitsInt64 n then some n else none
  | _ => none

def nat64 : Decoder Nat
  | .integer n => if 0 ≤ n ∧ n ≤ Text.nat64Max then some n.toNat else none
  | _ => none

/-- A decimal number: a text, with or without an exponent, or a number. A
floating-point number has the fewest digits that read back. -/
def decimal : Decoder Decimal
  | .text s => Decimal.ofText? s
  | .integer n => Decimal.ofParts? (n < 0) n.natAbs 0
  | .float x => Decimal.ofText? (Json.plainFloatText x)
  | _ => none

def instant : Decoder Instant
  | .text s => Instant.ofText? s
  | _ => none

def nullable {α : Type} (decode : Decoder α) : Decoder (Option α)
  | .null => some none
  | value => (decode value).map some

def list {α : Type} (decode : Decoder α) : Decoder (List α)
  | .array items => items.mapM decode
  | _ => none

/-- A map from names to values; every value must decode. -/
def map {α : Type} (decode : Decoder α) : Decoder (List (String × α))
  | .object fields => fields.mapM fun (name, value) => (decode value).map (name, ·)
  | _ => none

/-- Any value that can be used whole. Of repeated field names the last one
counts. -/
def anything : Decoder Json :=
  fun value => if value.isReadable then some value.canonical else none

/-- Any value that can be used whole and is nested no deeper than a limit. A
value that a repeated field name displaces counts too. -/
def anythingWithin (deepest : Nat) : Decoder Json :=
  fun value => if value.depth ≤ deepest then anything value else none

/-! ## Records -/

/-- What a document holds for a field: a value, nothing, or nothing because an
array of fields ended before it. -/
inductive Slot where
  | given (value : Json)
  | absent
  | beyond

/-- The value of a field that occurs at most once among the fields. -/
def uniqueField? (fields : List (String × Json)) (name : String) : Option Slot :=
  match fields.filter fun field => field.1 == name with
  | [] => some .absent
  | [(_, value)] => some (.given value)
  | _ => none

/-- The slots of named fields, in the order of the names. -/
def slots (names : List String) : Decoder (List Slot)
  | .object fields => names.mapM (uniqueField? fields)
  | .array items =>
    if items.length ≤ names.length then
      some (items.map .given ++ List.replicate (names.length - items.length) .beyond)
    else none
  | _ => none

/-- A field that must be there. -/
def required {α : Type} (decode : Decoder α) : Slot → Option α
  | .given value => decode value
  | _ => none

/-- A field that may be null or left out of an object, but not out of an
array. -/
def optional {α : Type} (decode : Decoder α) : Slot → Option (Option α)
  | .given value => nullable decode value
  | .absent => some none
  | .beyond => none

/-- A field with a value to use where it is left out. -/
def defaulted {α : Type} (default_ : α) (decode : Decoder α) : Slot → Option α
  | .given value => decode value
  | _ => some default_

end UsageBilling.Document

import UsageBilling.Decimal.Text
import UsageBilling.Instant.Basic
import UsageBilling.Json.Number
import UsageBilling.Text.Blank

/-!
Contract: telemetry samples.

Owns:
- a sample: an instant, a value that may be missing, and free metadata;
- metadata read as text or as a decimal number, by the first of several keys
  that yields one.

Does not own: which keys a meter looks at.
-/

namespace UsageBilling

/-- One observation. -/
structure Sample where
  timestamp : Instant
  value : Option Decimal
  metadata : Json

namespace Sample

def valueOrZero (s : Sample) : Decimal :=
  s.value.getD Decimal.zero

/-- Metadata shown as text: texts as they stand, numbers as documents write
them, and truth values by name. -/
def metadataText? : Json → Option String
  | .text s => some s
  | .integer n => some (toString n)
  | .float x => some (Json.floatText x)
  | .bool b => some (toString b)
  | _ => none

/-- Metadata taken as a number: a text, blanks around it allowed, or a number as
documents write it, each with or without an exponent. -/
def metadataDecimal? : Json → Option Decimal
  | .text s => Decimal.ofText? (Text.trim s)
  | .integer n => Decimal.ofText? (toString n)
  | .float x => Decimal.ofText? (Json.floatText x)
  | _ => none

def text? (s : Sample) (keys : List String) : Option String :=
  keys.findSome? fun key => (s.metadata.field? key).bind metadataText?

def decimal? (s : Sample) (keys : List String) : Option Decimal :=
  keys.findSome? fun key => (s.metadata.field? key).bind metadataDecimal?

end Sample

end UsageBilling

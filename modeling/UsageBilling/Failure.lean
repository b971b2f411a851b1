import UsageBilling.Instant.Text

/-!
Contract: the ways an operation of the library can fail.

Owns:
- reported errors, one constructor a cause, and the message of each;
- faults that stop an operation without a report: an instant off the timeline,
  or a sum of decimals that cannot be held. One that stops a worker is reported by
  who waits for the worker;
- the type of failures, which is one or the other.

Does not own: which errors a caller recovers from.
-/

namespace UsageBilling

/-- A fault of arithmetic that is not reported but stops the operation. -/
inductive RangeFault where
  | instant
  | decimalSum
  | decimalQuotient
deriving DecidableEq, Repr

/-- Why a request is refused before any usage is looked at. -/
inductive RequestFault where
  | nonPositiveWidth (width : Int)
  | emptyPeriod (start stop : Instant)
  | unalignedStart (start : Instant) (width : Int)
  | described (reason : String)
deriving DecidableEq, Repr

/-- Why settings are refused. -/
inductive SettingsFault where
  | nonPositiveWidth (width : Int)
  | blankDefaultTariff
  | described (reason : String)
deriving DecidableEq, Repr

/-- A state that should never be: stored data that cannot be read, or a worker that was
stopped by a fault. -/
inductive StateFault where
  | corruptQuantity (weight : Int) (scale : Nat)
  | timestampOutOfRange (seconds : Int)
  | workerFailed (fault : RangeFault)
  | described (reason : String)
deriving DecidableEq, Repr

/-- An error that an operation reports. A rate is named by its text. -/
inductive BillingError where
  | invertedRange (first last : Int)
  | unknownService (service : String)
  | unknownProfile (profile : String)
  | unknownTariff (tariff : String)
  | invalidRate (service rate : String)
  | overflow
  | unknownMeter (meter : String)
  | storage (reason : String)
  | settings (fault : SettingsFault)
  | serialization (reason : String)
  | request (fault : RequestFault)
  | state (fault : StateFault)
deriving DecidableEq, Repr

def RequestFault.message : RequestFault → String
  | nonPositiveWidth width => s!"window width must be positive, got {width}"
  | emptyPeriod start stop => s!"Empty billing period {start.describe} .. {stop.describe}"
  | unalignedStart start width =>
    s!"Period start {start.describe} is not aligned to {width}s windows"
  | described reason => reason

def SettingsFault.message : SettingsFault → String
  | nonPositiveWidth width => s!"Window width must be positive, got {width}"
  | blankDefaultTariff => "Default tariff id is empty"
  | described reason => reason

def RangeFault.description : RangeFault → String
  | instant => "instant off the timeline"
  | decimalSum => "sum of decimals out of range"
  | decimalQuotient => "quotient of decimals out of range"

/-- The message of a fault. That of a failed worker ends in words of its own, in place of
those of the runtime, which number the worker. -/
def StateFault.message : StateFault → String
  | corruptQuantity weight scale =>
    s!"Corrupt quantity weight {weight}: Scale exceeds the maximum precision allowed: {scale} > 28"
  | timestampOutOfRange seconds => s!"Timestamp out of range: {seconds}"
  | workerFailed fault => "Metering worker failed: " ++ fault.description
  | described reason => reason

namespace BillingError

/-- The area of the library an error belongs to, as its message names it. -/
def area : BillingError → String
  | invertedRange _ _ => "Segment error"
  | unknownService _ | unknownProfile _ | unknownTariff _ | invalidRate _ _ | overflow =>
    "Pricing error"
  | unknownMeter _ => "Telemetry error"
  | storage _ => "Storage error"
  | settings _ => "Configuration error"
  | serialization _ => "Serialization error"
  | request _ => "Validation error"
  | state _ => "Internal error"

/-- What went wrong, without the area. -/
def detail : BillingError → String
  | invertedRange first last => s!"Inverted range: end {last} is before start {first}"
  | unknownService service => "Unknown service: " ++ service
  | unknownProfile profile => "Unknown profile: " ++ profile
  | unknownTariff tariff => "Unknown tariff: " ++ tariff
  | invalidRate service rate =>
    s!"Invalid rate {rate} for service {service}: must be at least 1"
  | overflow => "Pricing calculation overflow"
  | unknownMeter meter => "No transformer registered for meter: " ++ meter
  | storage reason => reason
  | settings fault => fault.message
  | serialization reason => reason
  | request fault => fault.message
  | state fault => fault.message

def message (error : BillingError) : String :=
  error.area ++ ": " ++ error.detail

end BillingError

/-- A failed operation. -/
inductive Failure where
  | reported (error : BillingError)
  | aborted (fault : RangeFault)
deriving DecidableEq, Repr

/-- The result of an operation that may fail. -/
abbrev Outcome (α : Type) := Except Failure α

namespace Outcome

/-- A reported error. -/
def report {α : Type} (error : BillingError) : Outcome α :=
  .error (.reported error)

/-- A result that arithmetic may not have. -/
def orAbort {α : Type} (fault : RangeFault) : Option α → Outcome α
  | some value => .ok value
  | none => .error (.aborted fault)

end Outcome

end UsageBilling

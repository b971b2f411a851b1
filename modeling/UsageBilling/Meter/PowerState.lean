import UsageBilling.Sample
import UsageBilling.Text.LowerCase

/-!
Contract: the power states of an instance.

Owns:
- the states, their names, and which of them accrue usage;
- states read from names, from numeric codes, and from samples.

Does not own: how long a state holds.
-/

namespace UsageBilling

/-- The power state of an instance. -/
inductive PowerState where
  | active
  | building
  | paused
  | suspended
  | stopped
  | rescued
  | resized
  | softDeleted
  | deleted
  | error
  | shelved
  | shelvedOffloaded
  | unknown
deriving DecidableEq, Repr

namespace PowerState

def name : PowerState → String
  | active => "active"
  | building => "building"
  | paused => "paused"
  | suspended => "suspended"
  | stopped => "stopped"
  | rescued => "rescued"
  | resized => "resized"
  | softDeleted => "soft_deleted"
  | deleted => "deleted"
  | error => "error"
  | shelved => "shelved"
  | shelvedOffloaded => "shelved_offloaded"
  | unknown => "unknown"

/-- Only a running instance accrues usage. -/
def isBillable (state : PowerState) : Bool :=
  state == active

def ofCode (code : Int) : PowerState :=
  if code = 1 then active
  else if code = 2 then building
  else if code = 3 then paused
  else if code = 4 then suspended
  else if code = 5 then stopped
  else if code = 6 then rescued
  else if code = 7 then resized
  else if code = 8 then softDeleted
  else if code = 9 then deleted
  else if code = 10 then error
  else if code = 11 then shelved
  else if code = 12 then shelvedOffloaded
  else unknown

/-- The names that telemetry gives to states, in lower case. -/
def telemetryNames : List (String × PowerState) := [
  ("active", active), ("running", active),
  ("building", building), ("build", building),
  ("paused", paused),
  ("suspended", suspended),
  ("stopped", stopped), ("shutoff", stopped),
  ("rescued", rescued), ("rescue", rescued),
  ("resized", resized), ("verify_resize", resized),
  ("soft_deleted", softDeleted), ("soft-delete", softDeleted),
  ("deleted", deleted),
  ("error", error),
  ("shelved", shelved),
  ("shelved_offloaded", shelvedOffloaded)]

def plainName (text : String) : String :=
  Text.toLowerCase (Text.trim text)

/-- The state of a name in any case, blanks around it allowed. -/
def ofText? (text : String) : Option PowerState :=
  telemetryNames.lookup (plainName text)

/-- What is said of a name that no state has. -/
def unknownNameMessage (text : String) : String :=
  "Unknown power state: " ++ plainName text

def stateKeys : List String := ["status", "state"]

/-- The state of a sample: named by its metadata, otherwise the integer part of
its value taken as a code. -/
def ofSample (sample : Sample) : PowerState :=
  match sample.text? stateKeys with
  | some text => (ofText? text).getD unknown
  | none =>
    match sample.value with
    | some value => ofCode value.truncated
    | none => unknown

end PowerState

end UsageBilling

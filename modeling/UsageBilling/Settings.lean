import UsageBilling.Failure
import UsageBilling.Rating
import UsageBilling.Reconciler.Basic
import UsageBilling.Text.Blank
import UsageBilling.Text.Integer

/-!
Contract: the settings of a billing service.

Owns:
- the settings and their defaults;
- settings taken from environment variables, where a number that does not read
  is passed over;
- the check that settings can be used.

Does not own: the environment itself.
-/

namespace UsageBilling

/-- Windows and reconciliation. -/
structure MeteringSettings where
  windowWidth : Int
  deviation : Nat
  defaultTariff : String
deriving DecidableEq, Repr

/-- Storage of coverage. -/
structure StorageSettings where
  address : Option String
  keyPrefix : String
  lifetime : Nat
  capacity : Nat
deriving DecidableEq, Repr

/-- The settings of a billing service. -/
structure Settings where
  metering : MeteringSettings
  storage : StorageSettings
deriving DecidableEq, Repr

namespace Settings

/-- Hourly windows, gaps of one second bridged, and coverage kept for 35 days:
a billing period and late deliveries. -/
def standard : Settings :=
  ⟨⟨Window.hourWidth, Reconciler.defaultDeviation, Rating.defaultTariff⟩,
    ⟨none, "nimbill", 35 * 24 * 3600, 100000⟩⟩

/-- The value of a variable in an environment. -/
abbrev Environment := String → Option String

/-- A signed number in the environment. Blanks around it do not matter. -/
def signedVariable (environment : Environment) (name : String) : Option Int :=
  (environment name).bind fun raw => Text.readInt64? (Text.trimChars raw.toList)

/-- An unsigned number in the environment. Blanks around it do not matter. -/
def unsignedVariable (environment : Environment) (name : String) : Option Nat :=
  (environment name).bind fun raw => Text.readNat? Text.nat64Max (Text.trimChars raw.toList)

/-- Settings with the values that an environment gives, and the standard ones
elsewhere. A blank address means none. -/
def ofEnvironment (environment : Environment) : Settings :=
  let metering := standard.metering
  let storage := standard.storage
  let address := match environment "NIMBILL_REDIS_URL" with
    | some url => if Text.isBlankText url then none else some url
    | none => storage.address
  ⟨⟨(signedVariable environment "NIMBILL_WINDOW_SECS").getD metering.windowWidth,
      (unsignedVariable environment "NIMBILL_DEVIATION_SECS").getD metering.deviation,
      (environment "NIMBILL_DEFAULT_TARIFF").getD metering.defaultTariff⟩,
    ⟨address,
      (environment "NIMBILL_CACHE_PREFIX").getD storage.keyPrefix,
      (unsignedVariable environment "NIMBILL_CACHE_TTL_SECS").getD storage.lifetime,
      (unsignedVariable environment "NIMBILL_CACHE_MAX_ENTRIES").getD storage.capacity⟩⟩

/-- Why settings cannot be used, if so. The width of windows is checked first. -/
def fault? (settings : Settings) : Option SettingsFault :=
  if settings.metering.windowWidth ≤ 0 then
    some (.nonPositiveWidth settings.metering.windowWidth)
  else if Text.isBlankText settings.metering.defaultTariff then some .blankDefaultTariff
  else none

/-- The settings, if they can be used. -/
def checked (settings : Settings) : Except BillingError Settings :=
  match settings.fault? with
  | some fault => .error (.settings fault)
  | none => .ok settings

def load (environment : Environment) : Except BillingError Settings :=
  (ofEnvironment environment).checked

end Settings

end UsageBilling

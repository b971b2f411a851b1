import UsageBilling.Document.Request
import UsageBilling.Json.Writer
import UsageBilling.Period.Service

/-!
Contract: the command line.

Owns:
- settings from the environment, the input document from a file, and the
  invoice on standard output.

A document is named by the first argument or by a variable. Coverage is not kept
between two runs of the program.

Does not own: any rule of billing.
-/

namespace UsageBilling

def variableNames : List String := [
  "NIMBILL_WINDOW_SECS", "NIMBILL_DEVIATION_SECS", "NIMBILL_DEFAULT_TARIFF",
  "NIMBILL_REDIS_URL", "NIMBILL_CACHE_PREFIX", "NIMBILL_CACHE_TTL_SECS",
  "NIMBILL_CACHE_MAX_ENTRIES", "NIMBILL_INPUT"]

def Failure.message : Failure → String
  | .reported error => error.message
  | .aborted _ => "Internal error: arithmetic out of range"

/-- The invoice of a document under an environment, as text. -/
def billDocument (environment : Settings.Environment) (path document : String) :
    Except String String := do
  let settings ← (Settings.load environment).mapError BillingError.message
  let input ← match Document.billingInputOfText? document with
    | some input => pure input
    | none => throw ("Invalid billing input in " ++ path)
  let (catalog, request) ← input.parts.mapError BillingError.message
  let service : BillingService Unit :=
    BillingService.start settings MeterRegistry.cloud catalog none ()
  let invoice ← (service.runPeriod request).1.mapError Failure.message
  pure (Json.object (Document.invoiceFields invoice)).indented

end UsageBilling

open UsageBilling in
/-- Bill the document named on the command line. -/
def main (args : List String) : IO UInt32 := do
  let values ← variableNames.mapM fun name => return (name, ← IO.getEnv name)
  let environment : Settings.Environment := fun name => (values.lookup name).join
  match args.head? <|> environment "NIMBILL_INPUT" with
  | none =>
    IO.eprintln "Error: usage: nimbill <input.json> (or set NIMBILL_INPUT)"
    return 1
  | some path =>
    match ← (IO.FS.readFile path).toBaseIO with
    | .error _ =>
      IO.eprintln ("Error: Failed to read " ++ path)
      return 1
    | .ok document =>
      match billDocument environment path document with
      | .error message =>
        IO.eprintln ("Error: " ++ message)
        return 1
      | .ok invoice =>
        IO.println invoice
        return 0

import UsageBilling.Document.Usage
import UsageBilling.Settings

/-!
Contract: settings in JSON documents.

Owns:
- the fields of settings, read and written. All but the address of the store
  must be there.

Does not own: the check that settings can be used.
-/

namespace UsageBilling.Document

def meteringSettings : Decoder MeteringSettings := fun json => do
  match ← slots ["window_secs", "deviation_secs", "default_tariff"] json with
  | [width, deviation, default_] =>
    some ⟨← required int64 width, ← required nat64 deviation, ← required text default_⟩
  | _ => none

def storageSettings : Decoder StorageSettings := fun json => do
  match ← slots ["redis_url", "prefix", "ttl_secs", "max_entries"] json with
  | [url, keyPrefix, lifetime, capacity] =>
    some ⟨← optional text url, ← required text keyPrefix, ← required nat64 lifetime,
      ← required nat64 capacity⟩
  | _ => none

def settings : Decoder Settings := fun json => do
  match ← slots ["metering", "cache"] json with
  | [metering, storage] =>
    some ⟨← required meteringSettings metering, ← required storageSettings storage⟩
  | _ => none

def ofSettings (s : Settings) : Json :=
  .object [
    ("metering", .object [("window_secs", .integer s.metering.windowWidth),
      ("deviation_secs", .integer s.metering.deviation),
      ("default_tariff", .text s.metering.defaultTariff)]),
    ("cache", .object [("redis_url", orNull .text s.storage.address),
      ("prefix", .text s.storage.keyPrefix), ("ttl_secs", .integer s.storage.lifetime),
      ("max_entries", .integer s.storage.capacity)])]

end UsageBilling.Document

import UsageBilling.Proofs.Rating.Provisioning

/-!
Contract: what provisioning may make of a catalog.

Owns:
- a catalog that has been provisioned further keeps its tariffs, its profiles and
  its provisional entries, and gives every tag the same service;
- each step of provisioning, and each lookup that falls back to it, is of this kind;
- a tag that has been provisioned is not provisioned again;
- a service that a tariff has an entry for is not provisioned.

Does not own: prices set by operators, or profiles mapped by them.
-/

namespace UsageBilling.Catalog

variable {c next after : Catalog} {tariff profile service tag : String} {entry : TariffEntry}

theorem get?_profiles_claimProfile
    (c : Catalog)
    (profile other : String) :
    (c.claimProfile profile).2.profiles.get? other =
      (c.profiles.get? other).or (if other = profile then some profile else none) :=
  Table.get?_getOrInsert c.profiles profile other profile

theorem get?_provisional_claimProvisional
    (c : Catalog)
    (service other : String)
    (unit : RateUnit) :
    (c.claimProvisional service unit).provisional.get? other =
      (c.provisional.get? other).or
        (if other = service then some (TariffEntry.provisional service unit) else none) :=
  Table.get?_getOrInsert c.provisional service other (TariffEntry.provisional service unit)

/-- A catalog has been provisioned further. A profile that is new is its own service,
and a provisional entry that is new is for the service of some tag. -/
structure Extends (c after : Catalog) : Prop where
  tariffs : after.tariffs = c.tariffs
  profiles : ∀ profile service, c.profiles.get? profile = some service →
    after.profiles.get? profile = some service
  serviceFor : after.serviceFor = c.serviceFor
  provisional : ∀ service entry, c.provisional.get? service = some entry →
    after.provisional.get? service = some entry
  made : ∀ service entry, after.provisional.get? service = some entry →
    c.provisional.get? service = some entry ∨
      ∃ tag unit, c.serviceFor tag = service ∧ entry = TariffEntry.provisional service unit

theorem Extends.refl
    (c : Catalog) :
    c.Extends c where
  tariffs := rfl
  profiles _ _ held := held
  serviceFor := rfl
  provisional _ _ held := held
  made _ _ held := Or.inl held

theorem Extends.trans
    (extended : c.Extends next)
    (further : next.Extends after) :
    c.Extends after where
  tariffs := further.tariffs.trans extended.tariffs
  profiles profile service held := further.profiles profile service
    (extended.profiles profile service held)
  serviceFor := further.serviceFor.trans extended.serviceFor
  provisional service entry held := further.provisional service entry
    (extended.provisional service entry held)
  made service entry held := by
    rcases further.made service entry held with before | ⟨tag, unit, ofTag, isNew⟩
    · exact extended.made service entry before
    · rw [extended.serviceFor] at ofTag
      exact Or.inr ⟨tag, unit, ofTag, isNew⟩

/-! ## Steps -/

theorem extends_claimProfile
    (c : Catalog)
    (profile : String) :
    c.Extends (c.claimProfile profile).2 where
  tariffs := rfl
  profiles other service held := by
    rw [get?_profiles_claimProfile, held]
    rfl
  serviceFor := (c.claimProfile_eq profile).2
  provisional _ _ held := held
  made _ _ held := Or.inl held

theorem extends_claimProvisional
    (ofTag : c.serviceFor tag = service)
    (unit : RateUnit) :
    c.Extends (c.claimProvisional service unit) where
  tariffs := rfl
  profiles _ _ held := held
  serviceFor := rfl
  provisional other entry held := by
    rw [get?_provisional_claimProvisional, held]
    rfl
  made other entry found := by
    rw [get?_provisional_claimProvisional, Option.or_eq_some_iff] at found
    rcases found with held | ⟨_, isNew⟩
    · exact Or.inl held
    · rw [Option.ite_none_right_eq_some] at isNew
      have ⟨same, given⟩ := isNew
      cases given
      exact Or.inr ⟨tag, unit, ofTag.trans same.symm, by rw [same]⟩

theorem extends_provision
    (c : Catalog)
    (tag : String)
    (unit : RateUnit) :
    c.Extends (c.provision tag unit).2 := by
  have claimed := c.extends_claimProfile tag
  have ofTag : (c.claimProfile tag).2.serviceFor tag = (c.claimProfile tag).1 := by
    rw [claimed.serviceFor, (c.claimProfile_eq tag).1]
  exact claimed.trans (extends_claimProvisional ofTag unit)

theorem extends_resolveProfile
    (c : Catalog)
    (profile : String) :
    c.Extends (c.resolveProfile profile).2 := by
  unfold resolveProfile
  split
  · exact .refl c
  · exact c.extends_provision profile .time

theorem extends_entryOrProvision
    (c : Catalog)
    (tariff service : String)
    (unit : RateUnit) :
    c.Extends (c.entryOrProvision tariff service unit).2 := by
  unfold entryOrProvision
  split
  · exact c.extends_provision service unit
  · exact .refl c

/-- Provisional entries of a catalog provisioned further are still free. -/
theorem AwaitsPrices.extends
    (awaits : c.AwaitsPrices)
    (extended : c.Extends after) :
    after.AwaitsPrices := by
  intro service entry held
  rcases extended.made service entry held with before | ⟨_, unit, _, isNew⟩
  · exact awaits service entry before
  · exact ⟨unit, isNew⟩

/-! ## Provisioned tags -/

/-- Whether a tag has a service, and its service a provisional entry. -/
def Provisioned (c : Catalog) (tag : String) : Prop :=
  ∃ service entry, c.profiles.get? tag = some service ∧ c.provisional.get? service = some entry

theorem get?_profiles_provision
    (c : Catalog)
    (tag : String)
    (unit : RateUnit) :
    (c.provision tag unit).2.profiles.get? tag = some (c.serviceFor tag) := by
  show (c.claimProfile tag).2.profiles.get? tag = _
  rw [get?_profiles_claimProfile, if_pos rfl, Catalog.serviceFor]
  cases c.profiles.get? tag with
  | none => rfl
  | some service => rfl

theorem provisioned_provision
    (c : Catalog)
    (tag : String)
    (unit : RateUnit) :
    (c.provision tag unit).2.Provisioned tag := by
  have given := get?_provisional_provision c tag unit (c.serviceFor tag)
  rw [if_pos rfl] at given
  refine ⟨c.serviceFor tag,
    (c.provisional.get? (c.serviceFor tag)).getD (.provisional (c.serviceFor tag) unit),
    c.get?_profiles_provision tag unit, ?_⟩
  rw [given]
  cases c.provisional.get? (c.serviceFor tag) with
  | none => rfl
  | some entry => rfl

/-- A provisioned tag keeps its service, and nothing changes. -/
theorem Provisioned.provision_eq
    (provisioned : c.Provisioned tag)
    (unit : RateUnit) :
    c.provision tag unit = (c.serviceFor tag, c) := by
  have ⟨service, entry, claimed, given⟩ := provisioned
  simp only [Catalog.provision, claimProfile, claimProvisional, Table.getOrInsert, claimed, given,
    Catalog.serviceFor, Option.getD_some]

theorem Provisioned.extends
    (provisioned : c.Provisioned tag)
    (extended : c.Extends after) :
    after.Provisioned tag := by
  have ⟨service, entry, claimed, given⟩ := provisioned
  exact ⟨service, entry, extended.profiles tag service claimed,
    extended.provisional service entry given⟩

/-! ## Priced services -/

theorem entryOrProvision_of_priced
    {table : Tariff}
    (held : c.tariffs.get? tariff = some table)
    (priced : table.entries.get? service = some entry)
    (unit : RateUnit) :
    c.entryOrProvision tariff service unit = (.ok entry, c) := by
  have found : c.entry tariff service = .ok entry := by
    rw [entry_of_held held, priced]
    rfl
  rw [entryOrProvision, found]

end UsageBilling.Catalog

import UsageBilling.Period.Service
import UsageBilling.Proofs.Sorting
import UsageBilling.Proofs.Table

/-!
Contract: the keys of metered usage, whatever order the usage is in.

Owns:
- the unit of a key is that of the first usage of the key;
- the ordered keys are those that have usage;
- where all usage of a key has one unit, the order of the usage does not matter
  for the units, nor for the ordered keys.

Does not own: what the units are used for.
-/

namespace UsageBilling

namespace BillingService

variable {tenant : String} {metered metered' : List MeteredJob}

/-- Whether all usage of a key has one unit. -/
def OneUnitEach (tenant : String) (entries : List (UsageRecord × RateUnit)) : Prop :=
  ∀ u ∈ entries, ∀ v ∈ entries,
    UsageKey.ofRecord tenant u.1 = UsageKey.ofRecord tenant v.1 → u.2 = v.2

def addUnit (tenant : String) (units : Table UsageKey RateUnit) (u : UsageRecord × RateUnit) :
    Table UsageKey RateUnit :=
  (units.getOrInsert (UsageKey.ofRecord tenant u.1) u.2).2

theorem keyUnits_eq_foldl
    (tenant : String)
    (metered : List MeteredJob) :
    keyUnits tenant metered =
      (recordsWithUnits metered).foldl (addUnit tenant) Table.empty :=
  rfl

/-- The first usage of a key gives its unit, unless the key has one. -/
theorem get?_foldl_addUnit
    (entries : List (UsageRecord × RateUnit))
    (units : Table UsageKey RateUnit)
    (key : UsageKey) :
    (entries.foldl (addUnit tenant) units).get? key =
      (units.get? key).or
        ((entries.find? fun u => key = UsageKey.ofRecord tenant u.1).map Prod.snd) := by
  induction entries generalizing units with
  | nil => simp
  | cons u rest inductionHypothesis =>
    rw [List.foldl_cons, inductionHypothesis, addUnit, Table.get?_getOrInsert, Option.or_assoc,
      List.find?_cons]
    by_cases ofKey : key = UsageKey.ofRecord tenant u.1 <;> simp [ofKey]

theorem unique_foldl_addUnit
    (entries : List (UsageRecord × RateUnit))
    {units : Table UsageKey RateUnit}
    (unique : units.Unique) :
    (entries.foldl (addUnit tenant) units).Unique := by
  induction entries generalizing units with
  | nil => exact unique
  | cons u rest inductionHypothesis => exact inductionHypothesis (unique.getOrInsert _ _)

theorem unique_keyUnits
    (tenant : String)
    (metered : List MeteredJob) :
    (keyUnits tenant metered).Unique := by
  rw [keyUnits_eq_foldl]
  exact unique_foldl_addUnit _ Table.unique_empty

/-- Where all usage of a key has one unit, the key has it. -/
theorem get?_keyUnits_eq_some_iff
    (oneUnit : OneUnitEach tenant (recordsWithUnits metered))
    (key : UsageKey)
    (unit : RateUnit) :
    (keyUnits tenant metered).get? key = some unit ↔
      ∃ u ∈ recordsWithUnits metered, key = UsageKey.ofRecord tenant u.1 ∧ u.2 = unit := by
  rw [keyUnits_eq_foldl, get?_foldl_addUnit, Table.get?_empty, Option.none_or]
  constructor
  · intro given
    obtain ⟨u, found, sameUnit⟩ := Option.map_eq_some_iff.mp given
    exact ⟨u, List.mem_of_find?_eq_some found, by simpa using List.find?_some found, sameUnit⟩
  · rintro ⟨u, member, ofKey, rfl⟩
    have someFound : ((recordsWithUnits metered).find? fun v =>
        key = UsageKey.ofRecord tenant v.1).isSome := by
      rw [List.find?_isSome]
      exact ⟨u, member, decide_eq_true ofKey⟩
    obtain ⟨v, found⟩ := Option.isSome_iff_exists.mp someFound
    have ofKey' : key = UsageKey.ofRecord tenant v.1 := by simpa using List.find?_some found
    rw [found, Option.map_some,
      oneUnit v (List.mem_of_find?_eq_some found) u member (ofKey'.symm.trans ofKey)]

theorem recordsWithUnits_perm
    (permuted : metered.Perm metered') :
    (recordsWithUnits metered).Perm (recordsWithUnits metered') :=
  permuted.flatMap_right _

theorem get?_keyUnits_perm
    (oneUnit : OneUnitEach tenant (recordsWithUnits metered))
    (permuted : metered.Perm metered')
    (key : UsageKey) :
    (keyUnits tenant metered).get? key = (keyUnits tenant metered').get? key := by
  have entries := recordsWithUnits_perm permuted
  have oneUnit' : OneUnitEach tenant (recordsWithUnits metered') := fun u member v member' =>
    oneUnit u (entries.mem_iff.mpr member) v (entries.mem_iff.mpr member')
  apply Option.ext
  intro unit
  rw [get?_keyUnits_eq_some_iff oneUnit, get?_keyUnits_eq_some_iff oneUnit']
  simp only [entries.mem_iff]

/-! ## Ordered keys -/

/-- The keys of a run are those of its records. -/
theorem mem_orderedKeys_iff
    (tenant : String)
    (metered : List MeteredJob)
    (key : UsageKey) :
    key ∈ (orderedKeys (keyUnits tenant metered)).map Prod.fst ↔
      ∃ u ∈ recordsWithUnits metered, key = UsageKey.ofRecord tenant u.1 := by
  have sameKeys := (List.mergeSort_perm (keyUnits tenant metered).entries
    fun a b => a.1.atMost b.1).map Prod.fst
  have missing : (keyUnits tenant metered).get? key = none ↔
      ∀ u ∈ recordsWithUnits metered, ¬ key = UsageKey.ofRecord tenant u.1 := by
    rw [keyUnits_eq_foldl, get?_foldl_addUnit, Table.get?_empty, Option.none_or,
      Option.map_eq_none_iff, List.find?_eq_none]
    simp only [decide_eq_true_eq]
  rw [orderedKeys, sameKeys.mem_iff, ← not_iff_not, ← Table.lookup_eq_none_iff]
  apply missing.trans
  simp only [not_exists, not_and]

def compareEntries : UsageKey × RateUnit → UsageKey × RateUnit → Ordering :=
  compareLex (compareOn fun entry => entry.1.tenant)
    (compareLex (compareOn fun entry => entry.1.resource)
      (compareOn fun entry => entry.1.service))

instance : Std.TransCmp compareEntries := by
  unfold compareEntries
  infer_instance

theorem atMost_eq_isLE
    (a b : UsageKey × RateUnit) :
    a.1.atMost b.1 = (compareEntries a b).isLE := by
  show (compareEntries a b != .gt) = (compareEntries a b).isLE
  cases compareEntries a b <;> rfl

theorem sameKey_of_compareEntries
    {a b : UsageKey × RateUnit}
    (level : compareEntries a b = .eq) :
    a.1 = b.1 := by
  simp only [compareEntries, compareLex, compareOn, Ordering.then_eq_eq,
    Std.LawfulEqOrd.compare_eq_iff_eq] at level
  obtain ⟨⟨tenant, resource, service⟩, unit⟩ := a
  simp only at level
  rw [level.1, level.2.1, level.2.2]

/-- Tables with the same lookups have the same ordered keys. -/
theorem orderedKeys_eq
    {units units' : Table UsageKey RateUnit}
    (unique : units.Unique)
    (unique' : units'.Unique)
    (sameLookups : ∀ key, units.get? key = units'.get? key) :
    orderedKeys units = orderedKeys units' := by
  apply mergeSort_eq_of_perm atMost_eq_isLE
    (unique.perm_entries unique' sameLookups)
  rintro ⟨key, unit⟩ member ⟨key', unit'⟩ member' level
  obtain rfl : key = key' := sameKey_of_compareEntries level
  have held := (unique.mem_entries_iff key unit).mp member
  rw [(unique.mem_entries_iff key unit').mp member'] at held
  rw [Option.some.inj held]

end BillingService

end UsageBilling

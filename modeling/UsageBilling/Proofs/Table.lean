import Mathlib.Data.List.Nodup
import UsageBilling.Table

/-!
Contract: finite maps have one entry a key, and are known by their lookups.

Owns:
- insertion never gives a key a second entry, and one that finds a value keeps
  it; of two values put for a key, the later stays;
- the entries of a map with one entry a key are its successful lookups;
- lookups among entries that are filtered by a test the key passes, and what
  insertion does to entries that are filtered by a test of keys;
- two such maps with the same lookups have the same entries, in some order.

Does not own: the order of entries.
-/

namespace UsageBilling.Table

variable {κ α : Type} [DecidableEq κ] {t u : Table κ α}

/-- Each key has one entry at most. -/
def Unique (t : Table κ α) : Prop :=
  t.keys.Nodup

omit [DecidableEq κ] in
theorem unique_empty : (empty : Table κ α).Unique :=
  List.nodup_nil

theorem mem_keys_put_iff
    (key other : κ)
    (value : α)
    (entries : List (κ × α)) :
    other ∈ (put key value entries).map Prod.fst ↔
      other = key ∨ other ∈ entries.map Prod.fst := by
  induction entries with
  | nil => simp [put]
  | cons entry rest inductionHypothesis =>
    obtain ⟨first, held⟩ := entry
    by_cases same : first = key
    · subst same
      simp [put]
    · rw [put, if_neg same, List.map_cons, List.mem_cons, inductionHypothesis, List.map_cons,
        List.mem_cons]
      exact or_left_comm

theorem lookup_eq_none_iff
    (key : κ)
    (entries : List (κ × α)) :
    lookup key entries = none ↔ key ∉ entries.map Prod.fst := by
  induction entries with
  | nil => simp [lookup]
  | cons entry rest inductionHypothesis =>
    obtain ⟨first, held⟩ := entry
    by_cases same : first = key
    · simp [lookup, same]
    · rw [lookup, if_neg same, inductionHypothesis, List.map_cons, List.mem_cons, not_or]
      exact (and_iff_right (Ne.symm same)).symm

theorem mem_of_lookup
    {key : κ}
    {value : α}
    {entries : List (κ × α)}
    (found : lookup key entries = some value) :
    (key, value) ∈ entries := by
  induction entries with
  | nil => cases found
  | cons entry rest inductionHypothesis =>
    have (first, held) := entry
    unfold lookup at found
    split at found
    · rename_i same
      cases found
      rw [same]
      exact List.mem_cons_self
    · exact List.mem_cons_of_mem _ (inductionHypothesis found)

/-- A test that a key passes does not matter for its lookup. -/
theorem lookup_filter
    {key : κ}
    {test : κ × α → Bool}
    (passes : ∀ value, test (key, value) = true)
    (entries : List (κ × α)) :
    lookup key (entries.filter test) = lookup key entries := by
  induction entries with
  | nil => rfl
  | cons entry rest inductionHypothesis =>
    obtain ⟨first, held⟩ := entry
    by_cases same : first = key
    · subst same
      rw [List.filter_cons_of_pos (passes held), lookup, lookup, if_pos rfl, if_pos rfl]
    · rw [List.filter_cons, lookup, if_neg same]
      split
      · rw [lookup, if_neg same, inductionHypothesis]
      · exact inductionHypothesis

/-- Entries filtered by a test of keys get a key that passes. -/
theorem filter_put_of_pass
    {key : κ}
    (test : κ → Bool)
    (passes : test key = true)
    (value : α)
    (entries : List (κ × α)) :
    (put key value entries).filter (fun entry => test entry.1) =
      put key value (entries.filter fun entry => test entry.1) := by
  induction entries with
  | nil => simp [put, passes]
  | cons entry rest inductionHypothesis =>
    obtain ⟨first, held⟩ := entry
    by_cases same : first = key
    · subst same
      simp [put, passes]
    · cases kept : test first with
      | true => simp [put, same, kept, inductionHypothesis]
      | false => simp [put, same, kept, inductionHypothesis]

/-- Entries filtered by a test of keys do not see a key that fails. -/
theorem filter_put_of_fail
    {key : κ}
    (test : κ → Bool)
    (fails : test key = false)
    (value : α)
    (entries : List (κ × α)) :
    (put key value entries).filter (fun entry => test entry.1) =
      entries.filter fun entry => test entry.1 := by
  induction entries with
  | nil => simp [put, fails]
  | cons entry rest inductionHypothesis =>
    obtain ⟨first, held⟩ := entry
    by_cases same : first = key
    · subst same
      simp [put, fails]
    · rw [put, if_neg same, List.filter_cons, List.filter_cons, inductionHypothesis]

/-- The entries with each value passed through a function of it and its key. -/
def mapEntries (f : κ → α → α) (entries : List (κ × α)) : List (κ × α) :=
  entries.map fun entry => (entry.1, f entry.1 entry.2)

omit [DecidableEq κ] in
theorem keys_mapEntries
    (f : κ → α → α)
    (entries : List (κ × α)) :
    (mapEntries f entries).map Prod.fst = entries.map Prod.fst := by
  rw [mapEntries, List.map_map]
  rfl

theorem lookup_mapEntries
    (f : κ → α → α)
    (key : κ)
    (entries : List (κ × α)) :
    lookup key (mapEntries f entries) = (lookup key entries).map (f key) := by
  induction entries with
  | nil => rfl
  | cons entry rest inductionHypothesis =>
    obtain ⟨first, held⟩ := entry
    rw [mapEntries, List.map_cons, lookup, lookup]
    by_cases same : first = key
    · subst same
      rw [if_pos rfl, if_pos rfl]
      rfl
    · rw [if_neg same, if_neg same]
      exact inductionHypothesis

theorem Unique.insert
    (unique : t.Unique)
    (key : κ)
    (value : α) :
    (t.insert key value).Unique := by
  obtain ⟨entries⟩ := t
  show ((put key value entries).map Prod.fst).Nodup
  change (entries.map Prod.fst).Nodup at unique
  induction entries with
  | nil => simp [put]
  | cons entry rest inductionHypothesis =>
    obtain ⟨first, held⟩ := entry
    obtain ⟨fresh, restUnique⟩ := List.nodup_cons.mp unique
    by_cases same : first = key
    · subst same
      simpa [put] using unique
    · rw [put, if_neg same]
      refine List.nodup_cons.mpr ⟨?_, inductionHypothesis restUnique⟩
      rw [mem_keys_put_iff]
      rintro (equal | inRest)
      · exact same equal
      · exact fresh inRest

theorem Unique.getOrInsert
    (unique : t.Unique)
    (key : κ)
    (value : α) :
    (t.getOrInsert key value).2.Unique := by
  unfold Table.getOrInsert
  split
  · exact unique
  · exact unique.insert key value

theorem get?_getOrInsert
    (t : Table κ α)
    (key other : κ)
    (value : α) :
    (t.getOrInsert key value).2.get? other =
      (t.get? other).or (if other = key then some value else none) := by
  by_cases sameKey : other = key
  · subst sameKey
    cases held : t.get? other <;> simp [Table.getOrInsert, held]
  · cases held : t.get? key <;> simp [Table.getOrInsert, held, sameKey]

theorem put_put
    (key : κ)
    (value other : α)
    (entries : List (κ × α)) :
    put key other (put key value entries) = put key other entries := by
  induction entries with
  | nil => exact if_pos rfl
  | cons entry rest inductionHypothesis =>
    obtain ⟨first, held⟩ := entry
    by_cases same : first = key
    · rw [put, if_pos same, put, if_pos rfl, put, if_pos same]
    · rw [put, if_neg same, put, if_neg same, inductionHypothesis, put, if_neg same]

/-- Of two values put for a key, the later stays. -/
theorem insert_insert
    (t : Table κ α)
    (key : κ)
    (value other : α) :
    (t.insert key value).insert key other = t.insert key other :=
  congrArg mk (put_put key value other t.entries)

theorem insert_getOrInsert
    (t : Table κ α)
    (key : κ)
    (value other : α) :
    (t.getOrInsert key value).2.insert key other = t.insert key other := by
  unfold Table.getOrInsert
  split
  · rfl
  · exact insert_insert t key value other

theorem fst_getOrInsert
    (t : Table κ α)
    (key : κ)
    (value : α) :
    (t.getOrInsert key value).1 = (t.get? key).getD value := by
  unfold Table.getOrInsert
  split
  · rename_i held
    rw [held]
    rfl
  · rename_i missing
    rw [missing]
    rfl

theorem Unique.mem_entries_iff
    (unique : t.Unique)
    (key : κ)
    (value : α) :
    (key, value) ∈ t.entries ↔ t.get? key = some value := by
  obtain ⟨entries⟩ := t
  show _ ↔ lookup key entries = some value
  change (entries.map Prod.fst).Nodup at unique
  induction entries with
  | nil => simp [lookup]
  | cons entry rest inductionHypothesis =>
    obtain ⟨first, held⟩ := entry
    obtain ⟨fresh, restUnique⟩ := List.nodup_cons.mp unique
    rw [lookup, List.mem_cons]
    by_cases same : first = key
    · subst same
      have notInRest : (first, value) ∉ rest := fun member =>
        fresh (List.mem_map.mpr ⟨_, member, rfl⟩)
      simp [notInRest, eq_comm]
    · rw [if_neg same, ← inductionHypothesis restUnique]
      simp [Ne.symm same]

/-- Maps whose lookups are the same once passed through a function have the same
entries once passed through it. -/
theorem Unique.perm_mapEntries
    (leftUnique : t.Unique)
    (rightUnique : u.Unique)
    (f : κ → α → α)
    (sameLookups : ∀ key, (t.get? key).map (f key) = (u.get? key).map (f key)) :
    (mapEntries f t.entries).Perm (mapEntries f u.entries) := by
  have mapped : ∀ {t : Table κ α}, t.Unique → (⟨mapEntries f t.entries⟩ : Table κ α).Unique := by
    intro t unique
    rw [Unique, keys, keys_mapEntries]
    exact unique
  apply (List.perm_ext_iff_of_nodup (List.Nodup.of_map _ (mapped leftUnique))
    (List.Nodup.of_map _ (mapped rightUnique))).mpr
  rintro ⟨key, value⟩
  have left := (mapped leftUnique).mem_entries_iff key value
  have right := (mapped rightUnique).mem_entries_iff key value
  simp only [get?, lookup_mapEntries] at left right sameLookups
  rw [left, right, sameLookups]

/-- Maps with the same lookups have the same entries. -/
theorem Unique.perm_entries
    (leftUnique : t.Unique)
    (rightUnique : u.Unique)
    (sameLookups : ∀ key, t.get? key = u.get? key) :
    t.entries.Perm u.entries := by
  have unchanged : ∀ entries : List (κ × α), mapEntries (fun _ value => value) entries = entries :=
    fun entries => List.map_id entries
  have permuted := leftUnique.perm_mapEntries rightUnique (fun _ value => value)
    (by simpa using sameLookups)
  rwa [unchanged, unchanged] at permuted

end UsageBilling.Table

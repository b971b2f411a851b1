/-!
Contract: finite maps as lists of entries, in the order keys were first put.

Owns:
- lookup, insertion, and removal of a key;
- the small laws that say what each operation does to lookups.

Does not own: an order on keys. Whoever shows keys in order sorts them.
-/

namespace UsageBilling

/-- A finite map. A key has at most one entry as long as entries are put by
`insert`. -/
structure Table (κ α : Type) where
  entries : List (κ × α)
deriving Repr, DecidableEq

namespace Table

variable {κ α : Type} [DecidableEq κ]

def empty : Table κ α :=
  ⟨[]⟩

instance : Inhabited (Table κ α) :=
  ⟨empty⟩

def keys (t : Table κ α) : List κ :=
  t.entries.map Prod.fst

def size (t : Table κ α) : Nat :=
  t.entries.length

def lookup (key : κ) : List (κ × α) → Option α
  | [] => none
  | (other, value) :: rest => if other = key then some value else lookup key rest

def get? (t : Table κ α) (key : κ) : Option α :=
  lookup key t.entries

def contains (t : Table κ α) (key : κ) : Bool :=
  (t.get? key).isSome

/-- Replace the value of a key where it stands, or put the key at the end. -/
def put (key : κ) (value : α) : List (κ × α) → List (κ × α)
  | [] => [(key, value)]
  | (other, held) :: rest =>
    if other = key then (key, value) :: rest else (other, held) :: put key value rest

def insert (t : Table κ α) (key : κ) (value : α) : Table κ α :=
  ⟨put key value t.entries⟩

def erase (t : Table κ α) (key : κ) : Table κ α :=
  ⟨t.entries.filter fun entry => entry.1 ≠ key⟩

/-- The value of a key, and the map in which the key has it; a missing key is
given the value first. -/
def getOrInsert (t : Table κ α) (key : κ) (value : α) : α × Table κ α :=
  match t.get? key with
  | some held => (held, t)
  | none => (value, t.insert key value)

/-- The map that holds the last value given for each key. -/
def ofList (entries : List (κ × α)) : Table κ α :=
  entries.foldl (fun t entry => t.insert entry.1 entry.2) empty

theorem lookup_put
    (key other : κ)
    (value : α)
    (entries : List (κ × α)) :
    lookup other (put key value entries) =
      if other = key then some value else lookup other entries := by
  induction entries with
  | nil => simp [put, lookup, eq_comm]
  | cons entry rest inductionHypothesis =>
    obtain ⟨first, held⟩ := entry
    by_cases sameEntry : first = key
    · subst sameEntry
      by_cases sameKey : other = first <;> simp [put, lookup, sameKey, eq_comm]
    · by_cases sameKey : first = other
      · subst sameKey
        simp [put, lookup, sameEntry]
      · simp [put, lookup, sameEntry, sameKey, inductionHypothesis]

/-- A lookup after an insertion finds the new value, and other keys as before. -/
@[simp]
theorem get?_insert
    (t : Table κ α)
    (key other : κ)
    (value : α) :
    (t.insert key value).get? other = if other = key then some value else t.get? other :=
  lookup_put key other value t.entries

theorem lookup_filter_ne
    (key other : κ)
    (entries : List (κ × α)) :
    lookup other (entries.filter fun entry => entry.1 ≠ key) =
      if other = key then none else lookup other entries := by
  induction entries with
  | nil => simp [lookup]
  | cons entry rest inductionHypothesis =>
    obtain ⟨first, held⟩ := entry
    by_cases sameEntry : first = key
    · subst sameEntry
      by_cases sameKey : other = first
      · simp_all
      · simp_all [lookup, eq_comm]
    · by_cases sameKey : first = other
      · subst sameKey
        simp [lookup, sameEntry]
      · simp_all [lookup]

/-- A lookup after a removal finds nothing for the key, and other keys as
before. -/
@[simp]
theorem get?_erase
    (t : Table κ α)
    (key other : κ) :
    (t.erase key).get? other = if other = key then none else t.get? other :=
  lookup_filter_ne key other t.entries

/-- The empty map holds nothing. -/
@[simp]
theorem get?_empty
    (key : κ) :
    (empty : Table κ α).get? key = none :=
  rfl

end Table

end UsageBilling

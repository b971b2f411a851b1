import UsageBilling.Failure
import UsageBilling.Table
import UsageBilling.Text.Integer
import UsageBilling.Usage

/-!
Contract: storage for coverage snapshots between billing runs.

Owns:
- what a store offers to a run, whatever state it keeps;
- a bounded store in memory whose entries live for a limited time;
- a store that is out of order.

What the clock reads and in which order the store in memory goes over its entries
comes from outside, anew for each call.

Does not own: the meaning of the texts it holds.
-/

namespace UsageBilling

/-- A store with states of type `σ`: loading and saving the text of a key, each
of which may fail. -/
structure SnapshotStore (σ : Type) where
  load : UsageKey → σ → Except BillingError (Option String) × σ
  save : UsageKey → String → σ → Except BillingError Unit × σ

/-- A text in the store in memory, with what the clock read as it was set and what it reads
as its life ends, both in milliseconds. -/
structure CacheEntry where
  text : String
  stamp : Int
  expiry : Int
deriving DecidableEq, Repr

/-- What is outside the store in memory as a call is made: what the clock reads as it checks
the entry of a name, what it reads as it makes a new entry, and in which order it goes over
its entries. A clock may stand still or go back. -/
structure CacheMoment where
  check : String → Int
  stamp : Int
  order : List (String × CacheEntry) → List (String × CacheEntry)
  order_perm : ∀ entries, (order entries).Perm entries

namespace CacheMoment

/-- The moment of a call under a clock that goes on by a millisecond from call to call. -/
def steady (call : Nat) : CacheMoment :=
  ⟨fun _ => call, call, id, fun entries => .refl entries⟩

def isLive (moment : CacheMoment) (entry : String × CacheEntry) : Bool :=
  moment.check entry.1 < entry.2.expiry

/-- What a lookup shows of the entry of a name. -/
def read? (moment : CacheMoment) (name : String) (entry : CacheEntry) : Option String :=
  if moment.isLive (name, entry) then some entry.text else none

/-- A new entry. Its life ends on the clock, however long it is. -/
def entry (moment : CacheMoment) (lifetime : Nat) (text : String) : CacheEntry :=
  ⟨text, moment.stamp, min (moment.stamp + min (lifetime : Int) Text.int64Max) Text.int64Max⟩

end CacheMoment

/-- The store in memory: how many entries it may have, how many milliseconds each lives, the
entries, named by the canonical texts of their keys, and the moments of all calls with the
number of those made. -/
structure SnapshotCache where
  capacity : Nat
  lifetime : Nat
  entries : List (String × CacheEntry)
  moments : Nat → CacheMoment
  made : Nat

namespace SnapshotCache

def standardLifetime : Nat :=
  35 * 24 * 3600 * 1000

def start (moments : Nat → CacheMoment) (capacity lifetime : Nat) : SnapshotCache :=
  ⟨capacity, lifetime, [], moments, 0⟩

/-- A store under a steady clock, whose entries are dead at once or live for the standard
time. -/
def empty (capacity : Nat) (expires : Bool) : SnapshotCache :=
  start CacheMoment.steady capacity (if expires then 0 else standardLifetime)

/-- The moment of the next call. -/
def now (cache : SnapshotCache) : CacheMoment :=
  cache.moments cache.made

/-- The store once a call is made that changes none of its entries. -/
def later (cache : SnapshotCache) : SnapshotCache :=
  { cache with made := cache.made + 1 }

/-- The number of entries, dead ones included. -/
def size (cache : SnapshotCache) : Nat :=
  cache.entries.length

def live (cache : SnapshotCache) : List (String × CacheEntry) :=
  cache.entries.filter cache.now.isLive

/-- The entry of a key, alive or dead. -/
def entryOf? (cache : SnapshotCache) (key : UsageKey) : Option CacheEntry :=
  cache.entries.lookup key.canonical

def get? (cache : SnapshotCache) (key : UsageKey) : Option String :=
  (cache.entryOf? key).bind (cache.now.read? key.canonical)

/-- Make room for one entry in a full store: drop dead entries, and if that is not enough
one with the least stamp, the first of these that the store goes over. -/
def makeRoom (cache : SnapshotCache) : List (String × CacheEntry) :=
  if cache.size < cache.capacity then cache.entries
  else if cache.live.length < cache.capacity then cache.live
  else
    match (cache.now.order cache.live).minOn? fun entry => entry.2.stamp with
    | some oldest => cache.live.filter fun entry => entry.1 != oldest.1
    | none => cache.live

def set (cache : SnapshotCache) (key : UsageKey) (text : String) : SnapshotCache :=
  let others := cache.makeRoom.filter fun entry => entry.1 != key.canonical
  { cache.later with
    entries := others ++ [(key.canonical, cache.now.entry cache.lifetime text)] }

def invalidate (cache : SnapshotCache) (key : UsageKey) : Bool × SnapshotCache :=
  let others := cache.entries.filter fun entry => entry.1 != key.canonical
  (others.length < cache.entries.length, { cache.later with entries := others })

def clear (cache : SnapshotCache) : SnapshotCache :=
  { cache.later with entries := [] }

/-- The cache as a store, which never fails. -/
def store : SnapshotStore SnapshotCache where
  load key cache := (.ok (cache.get? key), cache.later)
  save key text cache := (.ok (), cache.set key text)

end SnapshotCache

namespace SnapshotStore

/-- A store that fails every load and every save for one reason. -/
def outOfOrder (σ : Type) (reason : String) : SnapshotStore σ where
  load _ state := (.error (.storage reason), state)
  save _ _ state := (.error (.storage reason), state)

end SnapshotStore

end UsageBilling

import Mathlib.Data.List.Dedup
import Mathlib.Data.List.Infix
import Mathlib.Data.Set.Function
import UsageBilling.Proofs.SnapshotCache

/-!
Contract: which keys the store in memory holds, and since when.

Owns:
- the text that was set last for a key, told from the calls that were made;
- keys in the order in which they were last set, and what setting one more does to it;
- the entries of a store stand in that order, whichever of them it gave up.

All keys come from a set in which canonical texts tell them apart.

Does not own: how many entries a store holds.
-/

namespace UsageBilling

namespace CacheCall

variable {keys : Set UsageKey} {calls : List CacheCall} {key : UsageKey} {text : String}

/-- Whether a call names keys of a set only. -/
def Names (keys : Set UsageKey) : CacheCall → Prop
  | set key _ => key ∈ keys
  | get key => key ∈ keys
  | invalidate key => key ∈ keys
  | clear => True

/-! ## The text of a key -/

/-- Whether a call replaces or removes the text of a key. -/
def Ends (key : UsageKey) : CacheCall → Prop
  | set other _ => other = key
  | get _ => False
  | invalidate other => other = key
  | clear => True

/-- Whether a text was set for a key, and was neither replaced nor removed since. -/
def LatestSet (calls : List CacheCall) (key : UsageKey) (text : String) : Prop :=
  ∃ before after, calls = before ++ set key text :: after ∧ ∀ call ∈ after, ¬ call.Ends key

theorem lastSet_append_singleton
    (calls : List CacheCall)
    (call : CacheCall)
    (name : String) :
    lastSet (calls ++ [call]) name = leave name (lastSet calls name) call := by
  rw [lastSet, lastSet, List.foldl_append]
  rfl

theorem LatestSet.append_singleton
    (latest : LatestSet calls key text)
    {call : CacheCall}
    (lasts : ¬ call.Ends key) :
    LatestSet (calls ++ [call]) key text := by
  have ⟨before, after, made, unended⟩ := latest
  refine ⟨before, after ++ [call], by rw [made, List.append_assoc, List.cons_append], ?_⟩
  intro other member
  rcases List.mem_append.mp member with inAfter | isCall
  · exact unended other inAfter
  · rwa [List.mem_singleton.mp isCall]

theorem latestSet_append_set
    (calls : List CacheCall)
    (key : UsageKey)
    (text : String) :
    LatestSet (calls ++ [set key text]) key text :=
  ⟨calls, [], rfl, by simp⟩

/-- A call that does not end the text of a key leaves what is under its name. -/
theorem leave_of_not_ends
    (apart : keys.InjOn UsageKey.canonical)
    {call : CacheCall}
    (named : call.Names keys)
    (member : key ∈ keys)
    (lasts : ¬ call.Ends key)
    (held : Option String) :
    leave key.canonical held call = held := by
  cases call with
  | set other text => exact if_neg fun same => lasts (apart named member same)
  | get other => rfl
  | invalidate other => exact if_neg fun same => lasts (apart named member same)
  | clear => exact absurd trivial lasts

theorem latestSet_of_lastSet
    (apart : keys.InjOn UsageKey.canonical)
    (named : ∀ call ∈ calls, call.Names keys)
    (member : key ∈ keys)
    (found : lastSet calls key.canonical = some text) :
    LatestSet calls key text := by
  induction calls using List.reverseRecOn with
  | nil => cases found
  | append_singleton calls call inductionHypothesis =>
    have ⟨callsNamed, callNamed⟩ := List.forall_mem_append.mp named
    have callNames := callNamed call List.mem_cons_self
    rw [lastSet_append_singleton] at found
    by_cases ends : call.Ends key
    · cases call with
      | set other written =>
        have isKey : other = key := ends
        rw [isKey, leave, if_pos rfl] at found
        rw [isKey, Option.some.inj found]
        exact latestSet_append_set calls key text
      | get other => exact absurd ends id
      | invalidate other =>
        have isKey : other = key := ends
        rw [isKey, leave, if_pos rfl] at found
        cases found
      | clear => cases found
    · rw [leave_of_not_ends apart callNames member ends] at found
      exact (inductionHypothesis callsNamed found).append_singleton ends

theorem LatestSet.lastSet_eq
    (latest : LatestSet calls key text)
    (apart : keys.InjOn UsageKey.canonical)
    (named : ∀ call ∈ calls, call.Names keys)
    (member : key ∈ keys) :
    lastSet calls key.canonical = some text := by
  obtain ⟨before, after, rfl, unended⟩ := latest
  induction after using List.reverseRecOn with
  | nil =>
    rw [lastSet_append_singleton, leave, if_pos rfl]
  | append_singleton after call inductionHypothesis =>
    obtain ⟨afterUnended, callUnended⟩ := List.forall_mem_append.mp unended
    have reassociated : before ++ set key text :: (after ++ [call]) =
        (before ++ set key text :: after) ++ [call] := by
      rw [List.append_assoc, List.cons_append]
    rw [reassociated] at named ⊢
    obtain ⟨othersNamed, callNamed⟩ := List.forall_mem_append.mp named
    rw [lastSet_append_singleton,
      leave_of_not_ends apart (callNamed call List.mem_cons_self) member
        (callUnended call List.mem_cons_self)]
    exact inductionHypothesis afterUnended othersNamed

/-! ## The order in which keys were set -/

/-- The key that a call sets. -/
def setKey? : CacheCall → Option UsageKey
  | set key _ => some key
  | _ => none

/-- The keys that calls set, each where it was set last. -/
def lastSetOrder (calls : List CacheCall) : List UsageKey :=
  (calls.filterMap setKey?).dedup

theorem dedup_append_singleton
    {α : Type}
    [DecidableEq α]
    (l : List α)
    (a : α) :
    (l ++ [a]).dedup = l.dedup.filter (· ≠ a) ++ [a] := by
  induction l with
  | nil => rfl
  | cons b l inductionHypothesis =>
    rw [List.cons_append]
    by_cases again : b ∈ l
    · rw [List.dedup_cons_of_mem (List.mem_append_left _ again), List.dedup_cons_of_mem again,
        inductionHypothesis]
    · rw [List.dedup_cons_of_notMem again]
      by_cases isLast : b = a
      · rw [List.dedup_cons_of_mem (by simp [isLast]), inductionHypothesis, List.filter_cons_of_neg]
        simp [isLast]
      · rw [List.dedup_cons_of_notMem (by simp [again, isLast]), inductionHypothesis,
          List.filter_cons_of_pos, List.cons_append]
        simp [isLast]

theorem lastSetOrder_append_set
    (calls : List CacheCall)
    (key : UsageKey)
    (text : String) :
    lastSetOrder (calls ++ [set key text]) = (lastSetOrder calls).filter (· ≠ key) ++ [key] := by
  rw [lastSetOrder, List.filterMap_append]
  exact dedup_append_singleton _ key

theorem nodup_lastSetOrder
    (calls : List CacheCall) :
    (lastSetOrder calls).Nodup :=
  List.nodup_dedup _

theorem mem_keys_of_mem_lastSetOrder
    (named : ∀ call ∈ calls, call.Names keys)
    (member : key ∈ lastSetOrder calls) :
    key ∈ keys := by
  have ⟨call, inCalls, sets⟩ := List.mem_filterMap.mp (List.mem_dedup.mp member)
  cases call with
  | set other text => exact Option.some.inj sets ▸ named _ inCalls
  | get other => cases sets
  | invalidate other => cases sets
  | clear => cases sets

end CacheCall

namespace SnapshotCache

open CacheCall (Names lastSetOrder lastSet)

variable {cache : SnapshotCache} {keys : Set UsageKey} {calls : List CacheCall}
  {held stays : List UsageKey} {key other : UsageKey} {text : String}

/-! ## The keys that are held -/

/-- The keys of the entries of a cache, each from a set of keys. -/
structure Holds (cache : SnapshotCache) (keys : Set UsageKey) (held : List UsageKey) : Prop where
  names : cache.entries.map Prod.fst = held.map UsageKey.canonical
  known : ∀ key ∈ held, key ∈ keys
  unique : held.Nodup

theorem Holds.size_eq
    (holds : cache.Holds keys held) :
    cache.size = held.length := by
  have lengths := congrArg List.length holds.names
  rwa [List.length_map, List.length_map] at lengths

theorem Holds.named
    (holds : cache.Holds keys held)
    (apart : keys.InjOn UsageKey.canonical) :
    cache.Named := by
  rw [Named, holds.names]
  exact holds.unique.map_on fun key member other otherMember same =>
    apart (holds.known key member) (holds.known other otherMember) same

theorem Holds.exists_key
    (holds : cache.Holds keys held)
    {entry : String × CacheEntry}
    (member : entry ∈ cache.entries) :
    ∃ key ∈ held, key.canonical = entry.1 := by
  have inNames := List.mem_map_of_mem member (f := Prod.fst)
  rw [holds.names] at inNames
  exact List.mem_map.mp inNames

/-- A key has an entry exactly if it is held. -/
theorem Holds.isSome_entryOf?_iff
    (holds : cache.Holds keys held)
    (apart : keys.InjOn UsageKey.canonical)
    (member : key ∈ keys) :
    (cache.entryOf? key).isSome = true ↔ key ∈ held := by
  have found := (holds.named apart).entryOf?_eq_some_iff key
  have inNames : key.canonical ∈ held.map UsageKey.canonical ↔ key ∈ held := by
    rw [List.mem_map]
    constructor
    · intro ⟨other, inHeld, same⟩
      rwa [← apart (holds.known other inHeld) member same]
    · exact fun inHeld => ⟨key, inHeld, rfl⟩
  rw [← inNames, ← holds.names, List.mem_map, Option.isSome_iff_exists]
  constructor
  · intro ⟨entry, isEntry⟩
    exact ⟨_, (found entry).mp isEntry, rfl⟩
  · intro ⟨entry, inEntries, isName⟩
    refine ⟨entry.2, (found entry.2).mpr ?_⟩
    rwa [← isName]

theorem map_fst_filter_ne
    {α : Type}
    (apart : keys.InjOn UsageKey.canonical)
    (member : key ∈ keys)
    (known : ∀ key ∈ held, key ∈ keys)
    {entries : List (String × α)}
    (names : entries.map Prod.fst = held.map UsageKey.canonical) :
    (entries.filter fun entry => entry.1 != key.canonical).map Prod.fst =
      (held.filter (· ≠ key)).map UsageKey.canonical := by
  have byName : (entries.filter fun entry => entry.1 != key.canonical).map Prod.fst =
      (entries.map Prod.fst).filter (· != key.canonical) := by
    rw [List.filter_map]
    rfl
  rw [byName, names, List.filter_map]
  congr 1
  apply List.filter_congr
  intro other inHeld
  have differs : other.canonical ≠ key.canonical ↔ other ≠ key :=
    not_congr (apart.eq_iff (known other inHeld) member)
  rw [Bool.eq_iff_iff]
  simpa using differs

/-- Of the keys that stay when room is made the one that is set moves to the end. -/
theorem Holds.set
    (holds : cache.Holds keys held)
    (apart : keys.InjOn UsageKey.canonical)
    (member : key ∈ keys)
    (fewer : stays.Sublist held)
    (names : cache.makeRoom.map Prod.fst = stays.map UsageKey.canonical)
    (text : String) :
    (cache.set key text).Holds keys (stays.filter (· ≠ key) ++ [key]) := by
  have staysKnown : ∀ key ∈ stays, key ∈ keys :=
    fun key inStays => holds.known key (fewer.subset inStays)
  refine ⟨?names, ?known, ?unique⟩
  case names =>
    show ((cache.makeRoom.filter _ ++ [(key.canonical, _)]).map Prod.fst) = _
    rw [List.map_append, List.map_append, map_fst_filter_ne apart member staysKnown names]
    rfl
  case known =>
    intro other inNew
    rcases List.mem_append.mp inNew with inOthers | isKey
    · exact staysKnown other (List.mem_filter.mp inOthers).1
    · rwa [List.mem_singleton.mp isKey]
  case unique =>
    have others := (holds.unique.sublist fewer).filter (· ≠ key)
    refine List.nodup_append.mpr ⟨others, List.nodup_singleton key, ?_⟩
    intro other inOthers same isKey
    rw [List.mem_singleton.mp isKey]
    exact of_decide_eq_true (List.mem_filter.mp inOthers).2

theorem Holds.exists_stays
    (holds : cache.Holds keys held) :
    ∃ stays : List UsageKey, stays.Sublist held ∧
      cache.makeRoom.map Prod.fst = stays.map UsageKey.canonical := by
  have fewer := cache.makeRoom_sublist.map Prod.fst
  rw [holds.names] at fewer
  exact List.sublist_map_iff.mp fewer

theorem reached_append_singleton
    (moments : ℕ → CacheMoment)
    (capacity lifetime : ℕ)
    (calls : List CacheCall)
    (call : CacheCall) :
    reached moments capacity lifetime (calls ++ [call]) =
      (reached moments capacity lifetime calls).perform call := by
  rw [reached, List.foldl_append]
  rfl

/-- The keys that are held stand in the order in which they were last set. -/
theorem exists_holds_reached
    (apart : keys.InjOn UsageKey.canonical)
    (moments : ℕ → CacheMoment)
    (capacity lifetime : ℕ)
    (named : ∀ call ∈ calls, call.Names keys) :
    ∃ held, (reached moments capacity lifetime calls).Holds keys held ∧
      held.Sublist (lastSetOrder calls) := by
  induction calls using List.reverseRecOn with
  | nil => exact ⟨[], ⟨rfl, by simp, List.nodup_nil⟩, List.Sublist.refl _⟩
  | append_singleton calls call inductionHypothesis =>
    have ⟨callsNamed, callNamed⟩ := List.forall_mem_append.mp named
    have callNames := callNamed call List.mem_cons_self
    have ⟨held, holds, inOrder⟩ := inductionHypothesis callsNamed
    have sameOrder : call.setKey? = none → lastSetOrder (calls ++ [call]) = lastSetOrder calls := by
      intro setsNone
      simp [lastSetOrder, setsNone]
    rw [reached_append_singleton]
    cases call with
    | set key text =>
      have ⟨stays, fewer, names⟩ := holds.exists_stays
      refine ⟨_, holds.set apart callNames fewer names text, ?_⟩
      rw [CacheCall.lastSetOrder_append_set]
      exact ((fewer.trans inOrder).filter _).append (List.Sublist.refl _)
    | get key =>
      rw [sameOrder rfl]
      exact ⟨held, ⟨holds.names, holds.known, holds.unique⟩, inOrder⟩
    | invalidate key =>
      rw [sameOrder rfl]
      refine ⟨held.filter (· ≠ key), ⟨?_, ?_, holds.unique.filter _⟩,
        List.filter_sublist.trans inOrder⟩
      · exact map_fst_filter_ne apart callNames holds.known holds.names
      · exact fun other inRest => holds.known other (List.mem_filter.mp inRest).1
    | clear => exact ⟨[], ⟨rfl, by simp, List.nodup_nil⟩, List.nil_sublist _⟩

end SnapshotCache

end UsageBilling

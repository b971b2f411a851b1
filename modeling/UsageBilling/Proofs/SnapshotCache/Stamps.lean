import UsageBilling.Proofs.SnapshotCache.Forgetting

/-!
Contract: which entry the store in memory gives up for another one.

Owns:
- setting a key leaves the entries of all others, but that a full store gives up an entry
  with the least stamp, even for a key that has an entry already;
- if each set has a later stamp than those before it, that is the entry of the key that was
  set longest ago.

Which of several entries with the least stamp is given up is left open, as is what the clock
reads.

Does not own: which keys are held once many were set.
-/

namespace UsageBilling

namespace SnapshotCache

open CacheCall (SetsAt)

variable {cache : SnapshotCache} {moments : ℕ → CacheMoment} {capacity lifetime : ℕ}
  {keys : Set UsageKey} {calls : List CacheCall} {held : List UsageKey} {key other : UsageKey}
  {text : String}

/-! ## One entry more -/

/-- Whether a key has an entry, and none of a set of keys has one with a lesser stamp. -/
def Oldest (keys : Set UsageKey) (cache : SnapshotCache) (key : UsageKey) : Prop :=
  ∃ entry, cache.entryOf? key = some entry ∧
    ∀ other ∈ keys, ∀ next, cache.entryOf? other = some next → entry.stamp ≤ next.stamp

/-- What setting a key does to a cache: the key has its text, and all others keep their
entries, but that a full cache gives up one entry with the least stamp. -/
structure MakesRoom (keys : Set UsageKey) (cache : SnapshotCache) (key : UsageKey)
    (text : String) : Prop where
  own : (cache.set key text).entryOf? key = some (cache.now.entry cache.lifetime text)
  spare : cache.size < cache.capacity → ∀ other ∈ keys, other ≠ key →
    (cache.set key text).entryOf? other = cache.entryOf? other
  full : cache.capacity ≤ cache.size → ∃ oldest ∈ keys, Oldest keys cache oldest ∧
    ∀ other ∈ keys, other ≠ key →
      (cache.set key text).entryOf? other = if other = oldest then none else cache.entryOf? other

theorem Unexpired.live_eq
    (unexpired : cache.Unexpired) :
    cache.live = cache.entries :=
  List.filter_eq_self.mpr unexpired

/-- A full cache without dead entries makes room by giving up one entry. -/
theorem Unexpired.exists_makeRoom_eq
    (unexpired : cache.Unexpired)
    (inhabited : cache.entries ≠ [])
    (full : cache.capacity ≤ cache.size) :
    ∃ oldest ∈ cache.entries, (∀ entry ∈ cache.entries, oldest.2.stamp ≤ entry.2.stamp) ∧
      cache.makeRoom = cache.entries.filter fun entry => entry.1 != oldest.1 := by
  have made := cache.roomMade_makeRoom
  have size : cache.size = cache.entries.length := rfl
  generalize cache.makeRoom = left at made ⊢
  cases made with
  | spare room => exact absurd room (Nat.not_lt.mpr full)
  | dropped _ room =>
    rw [unexpired.live_eq] at room
    exact absurd room (Nat.not_lt.mpr full)
  | evicted _ member least =>
    rw [unexpired.live_eq] at member least ⊢
    exact ⟨_, member, least, rfl⟩
  | nothing none => exact absurd (unexpired.live_eq ▸ none) inhabited

theorem Holds.makesRoom
    (holds : cache.Holds keys held)
    (apart : keys.InjOn UsageKey.canonical)
    (roomy : 1 ≤ cache.capacity)
    (unexpired : cache.Unexpired)
    (member : key ∈ keys)
    (text : String) :
    MakesRoom keys cache key text := by
  have named := holds.named apart
  have otherNames : ∀ other ∈ keys, other ≠ key → key.canonical ≠ other.canonical :=
    fun other otherMember differ same => differ (apart member otherMember same).symm
  refine ⟨?own, ?spare, ?full⟩
  case own =>
    have namedAfter : (cache.set key text).Named := named.perform (.set key text)
    rw [namedAfter.entryOf?_eq_some_iff]
    exact (mem_entries_set_iff _).mpr (Or.inr rfl)
  case spare =>
    intro room other otherMember differ
    exact named.entryOf?_set_of_room (otherNames other otherMember differ) room text
  case full =>
    intro full
    have inhabited : cache.entries ≠ [] :=
      List.ne_nil_of_length_pos (Nat.lt_of_lt_of_le roomy full)
    have ⟨entry, inEntries, least, made⟩ := unexpired.exists_makeRoom_eq inhabited full
    have ⟨oldest, inHeld, ofName⟩ := holds.exists_key inEntries
    have oldestMember := holds.known oldest inHeld
    refine ⟨oldest, oldestMember, ⟨entry.2, ?_, ?_⟩, ?_⟩
    · rw [named.entryOf?_eq_some_iff, ofName]
      exact inEntries
    · intro other _ next isNext
      exact least _ ((named.entryOf?_eq_some_iff other next).mp isNext)
    · intro other otherMember differ
      have sameName : other.canonical = entry.1 ↔ other = oldest := by
        rw [← ofName]
        exact apart.eq_iff otherMember oldestMember
      apply Option.ext
      intro kept
      rw [named.entryOf?_set_eq_some_iff (otherNames other otherMember differ), made,
        List.mem_filter, bne_iff_ne, ne_eq, sameName]
      split
      · rename_i isOldest
        simp [isOldest]
      · rename_i notOldest
        rw [and_iff_left notOldest, named.entryOf?_eq_some_iff]

/-- Among equal stamps the order in which the store goes over its entries decides, so it may
give up the entry of the key set last. -/
example :
    let moment : CacheMoment := ⟨fun _ => 0, 0, List.reverse, List.reverse_perm⟩
    let cache := reached (fun _ => moment) 2 standardLifetime
      [.set (machineKey "vm-1") "0:59:1", .set (machineKey "vm-2") "0:59:1"]
    ((cache.set (machineKey "vm-3") "0:59:1").entryOf? (machineKey "vm-1")).isSome = true ∧
      (cache.set (machineKey "vm-3") "0:59:1").entryOf? (machineKey "vm-2") = none := by
  decide

/-! ## Stamps that ascend -/

/-- Whether each set of a run has a later stamp than the sets before it. -/
def StampsAscend (moments : ℕ → CacheMoment) (calls : List CacheCall) : Prop :=
  ∀ i j, i < j → SetsAt calls i → SetsAt calls j → (moments i).stamp < (moments j).stamp

theorem StampsAscend.of_append
    {later : List CacheCall}
    (ascend : StampsAscend moments (calls ++ later)) :
    StampsAscend moments calls :=
  fun i j before sets setsLater => ascend i j before (sets.append later) (setsLater.append later)

/-- Whether the entries of a cache stand in the order of their stamps. -/
def Ascending (cache : SnapshotCache) : Prop :=
  cache.entries.Pairwise fun entry next => entry.2.stamp < next.2.stamp

/-- A new entry has a later stamp than the others, and goes to the end. -/
theorem ascending_reached
    (ascend : StampsAscend moments calls)
    (capacity lifetime : ℕ) :
    (reached moments capacity lifetime calls).Ascending := by
  induction calls using List.reverseRecOn with
  | nil => exact List.Pairwise.nil
  | append_singleton calls call inductionHypothesis =>
    have before := inductionHypothesis ascend.of_append
    rw [reached_append_singleton]
    cases call with
    | set key text =>
      have fewer := (List.filter_sublist (p := fun entry => entry.1 != key.canonical)).trans
        (reached moments capacity lifetime calls).makeRoom_sublist
      refine List.pairwise_append.mpr ⟨before.sublist fewer, List.pairwise_singleton _ _, ?_⟩
      intro entry member next isNew
      have ⟨i, made⟩ := exists_madeAt_of_mem_reached (fewer.subset member)
      rw [List.mem_singleton.mp isNew, made.stamp_eq, now_reached]
      exact ascend i calls.length made.lt_length (made.setsAt.append _)
        (CacheCall.setsAt_length calls key text)
    | get key => exact before
    | invalidate key => exact before.sublist List.filter_sublist
    | clear => exact List.Pairwise.nil

/-- The number of entries that a set gives up to make room. -/
def evictions (cache : SnapshotCache) : ℕ :=
  if cache.size < cache.capacity then 0 else 1

/-- Where stamps ascend the entry with the least stamp is the first one. -/
theorem Ascending.makeRoom_eq
    (ascending : cache.Ascending)
    (named : cache.Named)
    (unexpired : cache.Unexpired) :
    cache.makeRoom = cache.entries.drop cache.evictions := by
  rw [evictions]
  split
  · rename_i room
    rw [makeRoom, if_pos room, List.drop_zero]
  · rename_i full
    rw [Ascending] at ascending
    rw [Named] at named
    cases entries : cache.entries with
    | nil =>
      have fewer := cache.makeRoom_sublist
      rw [entries] at fewer
      rw [List.drop_nil]
      exact List.eq_nil_of_sublist_nil fewer
    | cons first rest =>
      have inhabited : cache.entries ≠ [] := by simp [entries]
      obtain ⟨oldest, member, least, made⟩ :=
        unexpired.exists_makeRoom_eq inhabited (Nat.not_lt.mp full)
      rw [entries] at member least ascending named
      rw [List.map_cons, List.nodup_cons] at named
      have isFirst : oldest = first := by
        refine (List.mem_cons.mp member).resolve_right fun inRest => ?_
        have before := (List.pairwise_cons.mp ascending).1 oldest inRest
        exact absurd before (Int.not_lt.mpr (least first List.mem_cons_self))
      have otherNames : ∀ entry ∈ rest, (entry.1 != first.1) = true := by
        intro entry inRest
        rw [bne_iff_ne]
        intro same
        exact named.1 (List.mem_map.mpr ⟨entry, inRest, same⟩)
      rw [made, entries, isFirst, List.filter_cons_of_neg (by simp), List.drop_one, List.tail_cons]
      exact List.filter_eq_self.mpr otherNames

end SnapshotCache

end UsageBilling

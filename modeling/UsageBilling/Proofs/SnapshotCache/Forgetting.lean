import UsageBilling.Proofs.SnapshotCache.Lifetimes

/-!
Contract: the store in memory as an unbounded map that forgets.

Owns:
- the states that calls lead to, in which no entry is at the end of its life;
- a lookup in them finds the text that was set last for its key, or nothing, and finds it
  for the key that was set last of all;
- removing a key tells whether it would have been found, and the store never grows beyond
  its capacity, or beyond one entry if it has none.

Does not own: which keys are forgotten.
-/

namespace UsageBilling

/-- Whether a key was set to a text, no key was set since, and this one not removed. -/
def CacheCall.SetLast (calls : List CacheCall) (key : UsageKey) (text : String) : Prop :=
  ∃ before after, calls = before ++ .set key text :: after ∧
    ∀ call ∈ after, call.setKey? = none ∧ ¬ call.Ends key

namespace SnapshotCache

open CacheCall (LatestSet Names SetLast)

variable {cache : SnapshotCache} {moments : ℕ → CacheMoment} {capacity lifetime : ℕ}
  {keys : Set UsageKey} {calls : List CacheCall} {key : UsageKey} {text : String}

/-! ## Caches without dead entries -/

/-- Whether the next call would find no entry at the end of its life. -/
def Unexpired (cache : SnapshotCache) : Prop :=
  ∀ entry ∈ cache.entries, cache.now.isLive entry = true

instance (cache : SnapshotCache) : Decidable cache.Unexpired :=
  inferInstanceAs (Decidable (∀ _ ∈ _, _))

theorem Unexpired.get?_eq
    (unexpired : cache.Unexpired)
    (named : cache.Named)
    (key : UsageKey) :
    cache.get? key = (cache.entryOf? key).map CacheEntry.text := by
  apply Option.ext
  intro text
  rw [get?_eq_some_iff, Option.map_eq_some_iff]
  constructor
  · rintro ⟨entry, isEntry, _, isText⟩
    exact ⟨entry, isEntry, isText⟩
  · rintro ⟨entry, isEntry, isText⟩
    have inEntries := (named.entryOf?_eq_some_iff key entry).mp isEntry
    exact ⟨entry, isEntry, unexpired _ inEntries, isText⟩

/-! ## Size -/

/-- Room is made for one entry more, except that a cache without capacity has room for
one entry. -/
theorem length_makeRoom_lt
    (bounded : cache.size ≤ max cache.capacity 1) :
    cache.makeRoom.length < max cache.capacity 1 := by
  have alive : cache.live.length ≤ cache.size := List.length_filter_le _ _
  have made := cache.roomMade_makeRoom
  generalize cache.makeRoom = left at made ⊢
  cases made with
  | spare room => exact Nat.lt_of_lt_of_le room (Nat.le_max_left _ _)
  | dropped full room => exact Nat.lt_of_lt_of_le room (Nat.le_max_left _ _)
  | @evicted oldest full member least =>
    have fewer : (cache.live.filter fun entry => entry.1 != oldest.1).length <
        cache.live.length :=
      List.length_filter_lt_length_iff_exists.mpr ⟨oldest, member, by simp⟩
    exact Nat.lt_of_lt_of_le fewer (Nat.le_trans alive bounded)
  | nothing none => exact Nat.lt_of_lt_of_le Nat.zero_lt_one (Nat.le_max_right _ _)

theorem size_perform_le
    (bounded : cache.size ≤ max cache.capacity 1)
    (call : CacheCall) :
    (cache.perform call).size ≤ max cache.capacity 1 := by
  cases call with
  | set key text =>
    have others := List.length_filter_le (fun entry => entry.1 != key.canonical) cache.makeRoom
    have room := length_makeRoom_lt bounded
    show (_ ++ [(key.canonical, _)]).length ≤ _
    rw [List.length_append, List.length_singleton]
    omega
  | get key => exact bounded
  | invalidate key => exact Nat.le_trans (List.length_filter_le _ _) bounded
  | clear => exact Nat.zero_le _

theorem size_reached_le
    (moments : ℕ → CacheMoment)
    (capacity lifetime : ℕ)
    (calls : List CacheCall) :
    (reached moments capacity lifetime calls).size ≤ max capacity 1 := by
  induction calls using List.reverseRecOn with
  | nil => exact Nat.zero_le _
  | append_singleton calls call inductionHypothesis =>
    rw [reached_append_singleton]
    have kept := (madeWith_reached moments capacity lifetime calls).capacity
    have bounded : (reached moments capacity lifetime calls).size ≤
        max (reached moments capacity lifetime calls).capacity 1 := by
      rwa [kept]
    have later := size_perform_le bounded call
    rwa [kept] at later

/-! ## Lookups -/

/-- A call that neither sets a key nor removes this one leaves its entry. -/
theorem mem_entries_perform
    (apart : keys.InjOn UsageKey.canonical)
    (member : key ∈ keys)
    {call : CacheCall}
    (named : call.Names keys)
    (sets : call.setKey? = none)
    (lasts : ¬ call.Ends key)
    {entry : CacheEntry}
    (inEntries : (key.canonical, entry) ∈ cache.entries) :
    (key.canonical, entry) ∈ (cache.perform call).entries := by
  cases call with
  | set other written => cases sets
  | get other => exact inEntries
  | invalidate other =>
    refine (mem_entries_invalidate_iff _).mpr ⟨inEntries, ?_⟩
    exact fun same => lasts (apart member named same).symm
  | clear => exact absurd trivial lasts

/-- The entry of the key that was set last of all is there. -/
theorem exists_mem_entries_of_setLast
    (apart : keys.InjOn UsageKey.canonical)
    (member : key ∈ keys)
    (named : ∀ call ∈ calls, call.Names keys)
    (last : SetLast calls key text)
    (moments : ℕ → CacheMoment)
    (capacity lifetime : ℕ) :
    ∃ entry : CacheEntry, entry.text = text ∧
      (key.canonical, entry) ∈ (reached moments capacity lifetime calls).entries := by
  obtain ⟨before, after, rfl, quiet⟩ := last
  induction after using List.reverseRecOn with
  | nil =>
    rw [reached_append_singleton]
    exact ⟨_, rfl, (mem_entries_set_iff _).mpr (Or.inr rfl)⟩
  | append_singleton after call inductionHypothesis =>
    have reassociated : before ++ .set key text :: (after ++ [call]) =
        (before ++ .set key text :: after) ++ [call] := by
      rw [List.append_assoc, List.cons_append]
    rw [reassociated] at named ⊢
    have ⟨othersNamed, callNamed⟩ := List.forall_mem_append.mp named
    have ⟨othersQuiet, callQuiet⟩ := List.forall_mem_append.mp quiet
    have ⟨sets, lasts⟩ := callQuiet call List.mem_cons_self
    have ⟨entry, isText, inEntries⟩ := inductionHypothesis othersQuiet othersNamed
    rw [reached_append_singleton]
    exact ⟨entry, isText,
      mem_entries_perform apart member (callNamed call List.mem_cons_self) sets lasts inEntries⟩

/-- Removing a key tells whether it had an entry. -/
theorem Named.invalidate_eq_isSome
    (named : cache.Named)
    (key : UsageKey) :
    (cache.invalidate key).1 = (cache.entryOf? key).isSome := by
  have found := named.entryOf?_eq_some_iff key
  rw [Bool.eq_iff_iff, Option.isSome_iff_exists, SnapshotCache.invalidate]
  simp only [decide_eq_true_eq, List.length_filter_lt_length_iff_exists, bne_iff_ne, ne_eq,
    Decidable.not_not]
  constructor
  · rintro ⟨entry, inEntries, isName⟩
    exact ⟨entry.2, (found entry.2).mpr (isName ▸ inEntries)⟩
  · rintro ⟨entry, isEntry⟩
    exact ⟨_, (found entry).mp isEntry, rfl⟩

/-- What a cache of some capacity shows of the keys of a set once calls were made. -/
structure NeverStale (capacity : ℕ) (keys : Set UsageKey) (calls : List CacheCall)
    (cache : SnapshotCache) : Prop where
  latest : ∀ key ∈ keys, cache.get? key = none ∨
    ∃ text, cache.get? key = some text ∧ LatestSet calls key text
  remembered : ∀ key ∈ keys, ∀ text, SetLast calls key text → cache.get? key = some text
  invalidated : ∀ key ∈ keys, (cache.invalidate key).1 = (cache.get? key).isSome
  bounded : cache.size ≤ max capacity 1

/-- Whatever calls were made and whatever the clock read, a cache without dead entries shows
no text that was replaced or removed, and it stays bounded. -/
theorem neverStale_reached
    (apart : keys.InjOn UsageKey.canonical)
    (named : ∀ call ∈ calls, call.Names keys)
    (unexpired : (reached moments capacity lifetime calls).Unexpired) :
    NeverStale capacity keys calls (reached moments capacity lifetime calls) := by
  have unique := (named_and_recalls_reached moments capacity lifetime calls).1
  refine ⟨?latest, ?remembered, ?invalidated, size_reached_le moments capacity lifetime calls⟩
  case latest =>
    intro key member
    cases found : (reached moments capacity lifetime calls).get? key with
    | none => exact Or.inl rfl
    | some text =>
      have written := lastSet_of_get?_reached found
      exact Or.inr ⟨text, rfl, CacheCall.latestSet_of_lastSet apart named member written⟩
  case remembered =>
    intro key member text last
    have ⟨entry, isText, inEntries⟩ :=
      exists_mem_entries_of_setLast apart member named last moments capacity lifetime
    rw [unexpired.get?_eq unique, (unique.entryOf?_eq_some_iff key entry).mpr inEntries,
      Option.map_some, isText]
  case invalidated =>
    intro key _
    rw [unique.invalidate_eq_isSome, unexpired.get?_eq unique, Option.isSome_map]

theorem injOn_plain : {key : UsageKey | key.Plain}.InjOn UsageKey.canonical :=
  fun _ plain _ plain' same => plain.eq_of_canonical_eq plain' same

def machineKey (resource : String) : UsageKey :=
  ⟨"acme", resource, "m1.small"⟩

/-- A key that is set twice, and another one between. -/
def crossingCalls (first second : UsageKey) : List CacheCall :=
  [.set first "0:59:1", .set second "0:59:1", .get first, .set first "0:119:1"]

/-- A cache without capacity shows the key that was set last, and no other. -/
theorem neverStale_without_capacity :
    let calls := crossingCalls (machineKey "vm-1") (machineKey "vm-2")
    let cache := reached CacheMoment.steady 0 standardLifetime calls
    (∀ call ∈ calls, call.Names {key | key.Plain}) ∧ cache.Unexpired ∧
      cache.get? (machineKey "vm-1") = some "0:119:1" ∧ cache.get? (machineKey "vm-2") = none ∧
      NeverStale 0 {key | key.Plain} calls cache := by
  have plain : (machineKey "vm-1").Plain ∧ (machineKey "vm-2").Plain := by decide
  have named : ∀ call ∈ crossingCalls (machineKey "vm-1") (machineKey "vm-2"),
      call.Names {key | key.Plain} := by
    simp [crossingCalls, CacheCall.Names, plain]
  have unexpired : (reached CacheMoment.steady 0 standardLifetime
      (crossingCalls (machineKey "vm-1") (machineKey "vm-2"))).Unexpired := by decide
  exact ⟨named, unexpired, by decide, by decide, neverStale_reached injOn_plain named unexpired⟩

end SnapshotCache

end UsageBilling

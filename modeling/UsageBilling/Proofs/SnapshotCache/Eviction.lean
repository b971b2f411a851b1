import Mathlib.Data.List.DropRight
import UsageBilling.Proofs.SnapshotCache.Stamps

/-!
Contract: which keys the store in memory holds once many were set.

Owns:
- a store holds as many keys as it has the capacity for, or one less exactly if a key that
  was held displaced another one, and none that was not held was set since;
- if each set has a later stamp than those before it, these are the keys that were set last,
  and the key whose entry is given up is the one set longest ago.

Does not own: entries that come to the end of their lives.
-/

namespace UsageBilling.SnapshotCache

open CacheCall (LatestSet Names lastSetOrder)

variable {cache : SnapshotCache} {moments : ℕ → CacheMoment} {capacity lifetime : ℕ}
  {keys : Set UsageKey} {calls : List CacheCall} {sets : List (UsageKey × String)}
  {held stays : List UsageKey} {key other : UsageKey} {text : String}

/-! ## The key set longest ago -/

/-- The key set longest ago of those that have an entry. -/
def oldest? (calls : List CacheCall) (cache : SnapshotCache) : Option UsageKey :=
  (lastSetOrder calls).find? fun key => (cache.entryOf? key).isSome

theorem find?_eq_head?_of_sublist
    {α : Type}
    {test : α → Bool}
    {selected order : List α}
    (inOrder : selected.Sublist order)
    (unique : order.Nodup)
    (passes : ∀ a ∈ order, test a = true ↔ a ∈ selected) :
    order.find? test = selected.head? := by
  induction inOrder with
  | slnil => rfl
  | cons a rest inductionHypothesis =>
    have ⟨fresh, restUnique⟩ := List.nodup_cons.mp unique
    have ⟨headPasses, restPasses⟩ := List.forall_mem_cons.mp passes
    rw [List.find?_cons_of_neg (mt headPasses.mp fun inRest => fresh (rest.subset inRest))]
    exact inductionHypothesis restUnique restPasses
  | cons_cons a rest inductionHypothesis =>
    rw [List.find?_cons_of_pos ((passes a List.mem_cons_self).mpr List.mem_cons_self)]
    rfl

theorem Holds.oldest?_eq
    (holds : cache.Holds keys held)
    (apart : keys.InjOn UsageKey.canonical)
    (named : ∀ call ∈ calls, call.Names keys)
    (inOrder : held.Sublist (lastSetOrder calls)) :
    oldest? calls cache = held.head? := by
  apply find?_eq_head?_of_sublist inOrder (CacheCall.nodup_lastSetOrder calls)
  intro key member
  exact holds.isSome_entryOf?_iff apart (CacheCall.mem_keys_of_mem_lastSetOrder named member)

/-- Where stamps ascend the key with the least one is the first that is held. -/
theorem Ascending.oldest_iff
    (ascending : cache.Ascending)
    (holds : cache.Holds keys held)
    (apart : keys.InjOn UsageKey.canonical)
    (member : key ∈ keys) :
    Oldest keys cache key ↔ held.head? = some key := by
  have found := (holds.named apart).entryOf?_eq_some_iff
  have names := holds.names
  rw [Ascending] at ascending
  cases entries : cache.entries with
  | nil =>
    rw [entries] at found names
    rw [List.map_eq_nil_iff.mp names.symm]
    constructor
    · rintro ⟨entry, isEntry, _⟩
      cases (found key entry).mp isEntry
    · intro isHead
      cases isHead
  | cons first rest =>
    cases held with
    | nil =>
      rw [entries] at names
      cases names
    | cons firstKey others =>
      rw [entries] at found names ascending
      have isFirst : first.1 = firstKey.canonical := (List.cons.inj names).1
      have firstMember := holds.known firstKey List.mem_cons_self
      have sameKey : first.1 = key.canonical ↔ firstKey = key := by
        rw [isFirst]
        exact apart.eq_iff firstMember member
      rw [List.head?_cons, Option.some.injEq, ← sameKey]
      have firstFound : cache.entryOf? firstKey = some first.2 :=
        (found firstKey first.2).mpr (isFirst ▸ List.mem_cons_self)
      constructor
      · rintro ⟨entry, isEntry, least⟩
        have notLater := least firstKey firstMember first.2 firstFound
        rcases List.mem_cons.mp ((found key entry).mp isEntry) with isHead | inRest
        · exact (congrArg Prod.fst isHead).symm
        · have later := (List.pairwise_cons.mp ascending).1 _ inRest
          exact absurd later (Int.not_lt.mpr notLater)
      · intro isName
        refine ⟨first.2, (found key first.2).mpr (isName ▸ List.mem_cons_self), ?_⟩
        intro other _ next isNext
        rcases List.mem_cons.mp ((found other next).mp isNext) with isHead | inRest
        · exact (congrArg (fun entry => entry.2.stamp) isHead).ge
        · exact Int.le_of_lt ((List.pairwise_cons.mp ascending).1 _ inRest)

theorem oldest?_reached
    (apart : keys.InjOn UsageKey.canonical)
    (named : ∀ call ∈ calls, call.Names keys)
    (ascend : StampsAscend moments calls)
    (member : key ∈ keys)
    (oldest : Oldest keys (reached moments capacity lifetime calls) key) :
    oldest? calls (reached moments capacity lifetime calls) = some key := by
  have ⟨held, holds, inOrder⟩ := exists_holds_reached apart moments capacity lifetime named
  rw [holds.oldest?_eq apart named inOrder]
  exact ((ascending_reached ascend capacity lifetime).oldest_iff holds apart member).mp oldest

/-! ## Texts set one after another -/

def setCalls (sets : List (UsageKey × String)) : List CacheCall :=
  sets.map fun (key, text) => .set key text

/-- The cache once texts were set. -/
def filled (moments : ℕ → CacheMoment) (capacity lifetime : ℕ)
    (sets : List (UsageKey × String)) : SnapshotCache :=
  reached moments capacity lifetime (setCalls sets)

theorem setCalls_append_singleton
    (sets : List (UsageKey × String))
    (key : UsageKey)
    (text : String) :
    setCalls (sets ++ [(key, text)]) = setCalls sets ++ [.set key text] :=
  List.map_append

theorem filled_append_singleton
    (moments : ℕ → CacheMoment)
    (capacity lifetime : ℕ)
    (sets : List (UsageKey × String))
    (key : UsageKey)
    (text : String) :
    filled moments capacity lifetime (sets ++ [(key, text)]) =
      (filled moments capacity lifetime sets).set key text := by
  rw [filled, setCalls_append_singleton, reached_append_singleton]
  rfl

theorem names_of_mem_setCalls
    (known : ∀ s ∈ sets, s.1 ∈ keys) :
    ∀ call ∈ setCalls sets, call.Names keys := by
  intro call member
  have ⟨s, inSets, made⟩ := List.mem_map.mp member
  rw [← made]
  exact known s inSets

/-- Whether no text comes to the end of its life while others are set, nor right after. -/
def Lasts (moments : ℕ → CacheMoment) (capacity lifetime : ℕ)
    (sets : List (UsageKey × String)) : Prop :=
  ∀ earlier, earlier <+: sets → (filled moments capacity lifetime earlier).Unexpired

theorem Lasts.unexpired
    (lasts : Lasts moments capacity lifetime sets) :
    (filled moments capacity lifetime sets).Unexpired :=
  lasts sets (List.prefix_refl sets)

theorem Lasts.of_append
    {more : List (UsageKey × String)}
    (lasts : Lasts moments capacity lifetime (sets ++ more)) :
    Lasts moments capacity lifetime sets :=
  fun earlier isPrefix => lasts earlier (isPrefix.trans (List.prefix_append sets more))

/-- The keys that are held are the last ones in the order in which keys were set. -/
theorem exists_holds_filled
    (apart : keys.InjOn UsageKey.canonical)
    (known : ∀ s ∈ sets, s.1 ∈ keys)
    (lasts : Lasts moments capacity lifetime sets)
    (ascend : StampsAscend moments (setCalls sets)) :
    ∃ held, (filled moments capacity lifetime sets).Holds keys held ∧
      held <:+ lastSetOrder (setCalls sets) := by
  induction sets using List.reverseRecOn with
  | nil => exact ⟨[], ⟨rfl, by simp, List.nodup_nil⟩, List.suffix_refl _⟩
  | append_singleton sets s inductionHypothesis =>
    obtain ⟨key, text⟩ := s
    have ⟨setsKnown, sKnown⟩ := List.forall_mem_append.mp known
    have member : key ∈ keys := sKnown _ List.mem_cons_self
    rw [setCalls_append_singleton] at ascend ⊢
    have before := ascend.of_append
    have ⟨held, holds, recent⟩ := inductionHypothesis setsKnown lasts.of_append before
    have ascending : (filled moments capacity lifetime sets).Ascending :=
      ascending_reached before capacity lifetime
    have names : (filled moments capacity lifetime sets).makeRoom.map Prod.fst =
        (held.drop (filled moments capacity lifetime sets).evictions).map
          UsageKey.canonical := by
      rw [ascending.makeRoom_eq (holds.named apart) lasts.of_append.unexpired, List.map_drop,
        holds.names, List.map_drop]
    rw [filled_append_singleton, CacheCall.lastSetOrder_append_set]
    refine ⟨_, holds.set apart member (List.drop_sublist _ held) names text, ?_⟩
    exact (List.suffix_append_inj_of_length_eq rfl).mpr
      ⟨((List.drop_suffix _ held).trans recent).filter _, rfl⟩

/-! ## The number of entries -/

/-- The keys whose entries stay when room is made for one more. -/
inductive Stay (cache : SnapshotCache) (held : List UsageKey) : List UsageKey → Prop where
  | all (room : cache.size < cache.capacity) : Stay cache held held
  | allBut {oldest : UsageKey} (full : cache.capacity ≤ cache.size) (inHeld : oldest ∈ held) :
      Stay cache held (held.filter (· ≠ oldest))

theorem Holds.exists_stay
    (holds : cache.Holds keys held)
    (apart : keys.InjOn UsageKey.canonical)
    (roomy : 1 ≤ cache.capacity)
    (unexpired : cache.Unexpired) :
    ∃ stays, Stay cache held stays ∧
      cache.makeRoom.map Prod.fst = stays.map UsageKey.canonical := by
  by_cases room : cache.size < cache.capacity
  · refine ⟨held, .all room, ?_⟩
    rw [makeRoom, if_pos room, holds.names]
  · have full : cache.capacity ≤ cache.size := Nat.not_lt.mp room
    have inhabited : cache.entries ≠ [] :=
      List.ne_nil_of_length_pos (Nat.lt_of_lt_of_le roomy full)
    obtain ⟨entry, inEntries, _, made⟩ := unexpired.exists_makeRoom_eq inhabited full
    obtain ⟨oldest, inHeld, ofName⟩ := holds.exists_key inEntries
    refine ⟨_, .allBut full inHeld, ?_⟩
    rw [made, ← ofName]
    exact map_fst_filter_ne apart (holds.known oldest inHeld) holds.known holds.names

theorem Stay.sublist
    (stay : Stay cache held stays) :
    stays.Sublist held := by
  cases stay with
  | all room => exact List.Sublist.refl _
  | allBut full inHeld => exact List.filter_sublist

theorem length_filter_ne
    {l : List UsageKey}
    (unique : l.Nodup)
    (key : UsageKey) :
    (l.filter (· ≠ key)).length + (if key ∈ l then 1 else 0) = l.length := by
  have erased : l.filter (· ≠ key) = l.erase key := by
    rw [unique.erase_eq_filter]
    exact List.filter_congr fun other _ => by simp [bne, beq_eq_decide]
  rw [erased]
  split
  · rename_i inList
    exact List.length_erase_add_one inList
  · rename_i notInList
    rw [List.erase_of_not_mem notInList, Nat.add_zero]

/-- Whether setting a key takes an entry from another key. -/
def Displaces (cache : SnapshotCache) (key : UsageKey) (text : String) : Prop :=
  ∃ other, (cache.entryOf? other).isSome = true ∧ (cache.set key text).entryOf? other = none

theorem Holds.displaces_iff
    (holds : cache.Holds keys held)
    (apart : keys.InjOn UsageKey.canonical)
    {after : List UsageKey}
    (holdsAfter : (cache.set key text).Holds keys after) :
    Displaces cache key text ↔ ∃ other ∈ held, other ∉ after := by
  have goneIff : ∀ other ∈ keys,
      (cache.set key text).entryOf? other = none ↔ other ∉ after := by
    intro other member
    rw [← holdsAfter.isSome_entryOf?_iff apart member]
    simp
  constructor
  · intro ⟨other, isHeld, gone⟩
    have ⟨entry, isEntry⟩ := Option.isSome_iff_exists.mp isHeld
    have inEntries := ((holds.named apart).entryOf?_eq_some_iff other entry).mp isEntry
    have ⟨same, inHeld, ofName⟩ := holds.exists_key inEntries
    have sameName : same.canonical = other.canonical := ofName
    rw [entryOf?, ← sameName] at gone
    exact ⟨same, inHeld, (goneIff same (holds.known same inHeld)).mp gone⟩
  · intro ⟨other, inHeld, notAfter⟩
    have member := holds.known other inHeld
    exact ⟨other, (holds.isSome_entryOf?_iff apart member).mpr inHeld,
      (goneIff other member).mpr notAfter⟩

theorem mem_filter_ne_append
    {l : List UsageKey}
    (member : other ∈ l)
    (key : UsageKey) :
    other ∈ l.filter (· ≠ key) ++ [key] := by
  by_cases same : other = key
  · simp [same]
  · simp [same, member]

/-- A key that is held adds no entry, and takes one from a full cache unless it gives up
its own. -/
theorem Holds.size_set_of_mem
    (holds : cache.Holds keys held)
    (apart : keys.InjOn UsageKey.canonical)
    (roomy : 1 ≤ cache.capacity)
    (unexpired : cache.Unexpired)
    (inHeld : key ∈ held)
    (text : String) :
    Displaces cache key text ∧ cache.capacity ≤ cache.size ∧
        (cache.set key text).size + 1 = cache.size ∨
      ¬ Displaces cache key text ∧ (cache.set key text).size = cache.size := by
  have member := holds.known key inHeld
  have ⟨stays, stay, names⟩ := holds.exists_stay apart roomy unexpired
  have holdsAfter := holds.set apart member stay.sublist names text
  have others := length_filter_ne (holds.unique.sublist stay.sublist) key
  have all := length_filter_ne holds.unique key
  rw [if_pos inHeld] at all
  rw [holds.displaces_iff apart holdsAfter, holdsAfter.size_eq, holds.size_eq,
    List.length_append, List.length_singleton]
  cases stay with
  | all room =>
    right
    refine ⟨?_, all⟩
    intro ⟨other, otherHeld, gone⟩
    exact gone (mem_filter_ne_append otherHeld key)
  | @allBut oldest full oldestHeld =>
    by_cases own : oldest = key
    · right
      have once : (held.filter (· ≠ oldest)).filter (· ≠ key) = held.filter (· ≠ key) := by
        rw [own, List.filter_filter]
        simp only [Bool.and_self]
      rw [once]
      refine ⟨?_, all⟩
      intro ⟨other, otherHeld, gone⟩
      exact gone (mem_filter_ne_append otherHeld key)
    · left
      have inStays : key ∈ held.filter (· ≠ oldest) := by simpa [inHeld] using Ne.symm own
      have rest := length_filter_ne holds.unique oldest
      rw [if_pos oldestHeld] at rest
      rw [if_pos inStays] at others
      rw [holds.size_eq] at full
      exact ⟨⟨oldest, oldestHeld, by simp [own]⟩, full, by omega⟩

/-- A key that is not held adds an entry to a cache that has room for one more. -/
theorem Holds.size_set_of_not_mem
    (holds : cache.Holds keys held)
    (apart : keys.InjOn UsageKey.canonical)
    (member : key ∈ keys)
    (roomy : 1 ≤ cache.capacity)
    (unexpired : cache.Unexpired)
    (bounded : cache.size ≤ cache.capacity)
    (fresh : key ∉ held)
    (text : String) :
    (cache.set key text).size = min (cache.size + 1) cache.capacity := by
  have ⟨stays, stay, names⟩ := holds.exists_stay apart roomy unexpired
  have holdsAfter := holds.set apart member stay.sublist names text
  have others := length_filter_ne (holds.unique.sublist stay.sublist) key
  rw [if_neg fun inStays => fresh (stay.sublist.subset inStays)] at others
  rw [holds.size_eq] at bounded
  rw [holdsAfter.size_eq, holds.size_eq, List.length_append, List.length_singleton]
  cases stay with
  | all room =>
    rw [holds.size_eq] at room
    omega
  | @allBut oldest full oldestHeld =>
    have rest := length_filter_ne holds.unique oldest
    rw [if_pos oldestHeld] at rest
    rw [holds.size_eq] at full
    omega

theorem length_lastSetOrder_append_set
    (calls : List CacheCall)
    (key : UsageKey)
    (text : String) :
    (lastSetOrder (calls ++ [.set key text])).length =
      (lastSetOrder calls).length + if key ∈ lastSetOrder calls then 0 else 1 := by
  have others := length_filter_ne (CacheCall.nodup_lastSetOrder calls) key
  rw [CacheCall.lastSetOrder_append_set, List.length_append, List.length_singleton]
  by_cases inOrder : key ∈ lastSetOrder calls
  · rw [if_pos inOrder] at others ⊢
    omega
  · rw [if_neg inOrder] at others ⊢
    omega

/-- Whether a cache holds one entry less than it could: a key that was held displaced
another one, and since then only keys were set that were held. -/
inductive Depleted (moments : ℕ → CacheMoment) (capacity lifetime : ℕ) :
    List (UsageKey × String) → Prop where
  | displaced
      {sets : List (UsageKey × String)}
      {key : UsageKey}
      {text : String}
      (found : ((filled moments capacity lifetime sets).entryOf? key).isSome = true)
      (displaces : Displaces (filled moments capacity lifetime sets) key text) :
      Depleted moments capacity lifetime (sets ++ [(key, text)])
  | refreshed
      {sets : List (UsageKey × String)}
      {key : UsageKey}
      {text : String}
      (found : ((filled moments capacity lifetime sets).entryOf? key).isSome = true)
      (depleted : Depleted moments capacity lifetime sets) :
      Depleted moments capacity lifetime (sets ++ [(key, text)])

theorem depleted_append_singleton_iff
    (moments : ℕ → CacheMoment)
    (capacity lifetime : ℕ)
    (sets : List (UsageKey × String))
    (key : UsageKey)
    (text : String) :
    Depleted moments capacity lifetime (sets ++ [(key, text)]) ↔
      ((filled moments capacity lifetime sets).entryOf? key).isSome = true ∧
        (Displaces (filled moments capacity lifetime sets) key text ∨
          Depleted moments capacity lifetime sets) := by
  constructor
  · intro depleted
    generalize isLonger : sets ++ [(key, text)] = longer at depleted
    cases depleted with
    | displaced found displaces =>
      have ⟨sameSets, sameLast⟩ := List.append_singleton_inj.mp isLonger
      cases sameSets
      cases sameLast
      exact ⟨found, Or.inl displaces⟩
    | refreshed found depleted =>
      have ⟨sameSets, sameLast⟩ := List.append_singleton_inj.mp isLonger
      cases sameSets
      cases sameLast
      exact ⟨found, Or.inr depleted⟩
  · rintro ⟨found, displaces | depleted⟩
    · exact .displaced found displaces
    · exact .refreshed found depleted

theorem not_depleted_nil : ¬ Depleted moments capacity lifetime [] := by
  intro depleted
  generalize isNil : [] = none_ at depleted
  cases depleted with
  | displaced _ _ => simp at isNil
  | refreshed _ _ => simp at isNil

/-- Whether a cache is as full as it can be once texts were set, or holds one entry less
where it is depleted. -/
structure Sized (moments : ℕ → CacheMoment) (capacity lifetime : ℕ)
    (sets : List (UsageKey × String)) : Prop where
  depleted : Depleted moments capacity lifetime sets →
    (filled moments capacity lifetime sets).size + 1 = capacity
  full : ¬ Depleted moments capacity lifetime sets →
    (filled moments capacity lifetime sets).size =
      min capacity (lastSetOrder (setCalls sets)).length

theorem Sized.size_eq_or
    (sized : Sized moments capacity lifetime sets) :
    (filled moments capacity lifetime sets).size + 1 = capacity ∨
      (filled moments capacity lifetime sets).size =
        min capacity (lastSetOrder (setCalls sets)).length := by
  by_cases depleted : Depleted moments capacity lifetime sets
  · exact Or.inl (sized.depleted depleted)
  · exact Or.inr (sized.full depleted)

theorem Sized.size_le
    (sized : Sized moments capacity lifetime sets) :
    (filled moments capacity lifetime sets).size ≤ capacity := by
  rcases sized.size_eq_or with less | full
  · omega
  · omega

theorem Sized.append_of_mem
    (sized : Sized moments capacity lifetime sets)
    (holds : (filled moments capacity lifetime sets).Holds keys held)
    (apart : keys.InjOn UsageKey.canonical)
    (roomy : 1 ≤ capacity)
    (unexpired : (filled moments capacity lifetime sets).Unexpired)
    (inOrder : held.Sublist (lastSetOrder (setCalls sets)))
    (inHeld : key ∈ held)
    (text : String) :
    Sized moments capacity lifetime (sets ++ [(key, text)]) := by
  have kept : (filled moments capacity lifetime sets).capacity = capacity :=
    (madeWith_reached moments capacity lifetime (setCalls sets)).capacity
  have found := (holds.isSome_entryOf?_iff apart (holds.known key inHeld)).mpr inHeld
  have depletes := depleted_append_singleton_iff moments capacity lifetime sets key text
  have distinct := length_lastSetOrder_append_set (setCalls sets) key text
  rw [if_pos (inOrder.subset inHeld), ← setCalls_append_singleton] at distinct
  rw [and_iff_right found] at depletes
  have bounded := sized.size_le
  rcases holds.size_set_of_mem apart (by omega) unexpired inHeld text with
    ⟨displaces, isFull, less⟩ | ⟨noneLost, same⟩
  · have depleted := depletes.mpr (Or.inl displaces)
    refine ⟨fun _ => ?_, fun stays => absurd depleted stays⟩
    rw [filled_append_singleton]
    omega
  · rw [or_iff_right noneLost] at depletes
    constructor
    · intro depleted
      rw [filled_append_singleton, same]
      exact sized.depleted (depletes.mp depleted)
    · intro stays
      rw [filled_append_singleton, same, distinct]
      exact sized.full (mt depletes.mpr stays)

theorem Sized.append_of_not_mem
    (sized : Sized moments capacity lifetime sets)
    (holds : (filled moments capacity lifetime sets).Holds keys held)
    (apart : keys.InjOn UsageKey.canonical)
    (roomy : 1 ≤ capacity)
    (unexpired : (filled moments capacity lifetime sets).Unexpired)
    (inOrder : held.Sublist (lastSetOrder (setCalls sets)))
    (member : key ∈ keys)
    (notHeld : key ∉ held)
    (text : String) :
    Sized moments capacity lifetime (sets ++ [(key, text)]) := by
  have kept : (filled moments capacity lifetime sets).capacity = capacity :=
    (madeWith_reached moments capacity lifetime (setCalls sets)).capacity
  have found := holds.isSome_entryOf?_iff apart member
  have depletes := depleted_append_singleton_iff moments capacity lifetime sets key text
  have stays : ¬ Depleted moments capacity lifetime (sets ++ [(key, text)]) :=
    fun depleted => notHeld (found.mp (depletes.mp depleted).1)
  refine ⟨fun depleted => absurd depleted stays, fun _ => ?_⟩
  -- a key that is held no more is among those that were set, so fewer are held than were set
  have notAll : key ∈ lastSetOrder (setCalls sets) →
      held.length < (lastSetOrder (setCalls sets)).length := by
    intro inSets
    apply Nat.lt_of_le_of_ne inOrder.length_le
    intro sameLength
    exact notHeld (inOrder.eq_of_length sameLength ▸ inSets)
  have bounded := sized.size_le
  have ofHeld := holds.size_eq
  have fewer := inOrder.length_le
  rw [filled_append_singleton,
    holds.size_set_of_not_mem apart member (by omega) unexpired (by omega) notHeld text, kept,
    setCalls_append_singleton, length_lastSetOrder_append_set]
  have size := sized.size_eq_or
  by_cases inSets : key ∈ lastSetOrder (setCalls sets)
  · have fewerHeld := notAll inSets
    rw [if_pos inSets]
    omega
  · rw [if_neg inSets]
    omega

/-- The cache is as full as it can be, or holds one entry less, whatever the clock reads. -/
theorem sized_filled
    (roomy : 1 ≤ capacity)
    (apart : keys.InjOn UsageKey.canonical)
    (known : ∀ s ∈ sets, s.1 ∈ keys)
    (lasts : Lasts moments capacity lifetime sets) :
    Sized moments capacity lifetime sets := by
  induction sets using List.reverseRecOn with
  | nil => exact ⟨fun depleted => absurd depleted not_depleted_nil, fun _ => (Nat.min_zero _).symm⟩
  | append_singleton sets s inductionHypothesis =>
    obtain ⟨key, text⟩ := s
    obtain ⟨setsKnown, sKnown⟩ := List.forall_mem_append.mp known
    have member : key ∈ keys := sKnown _ List.mem_cons_self
    have before := lasts.of_append
    have sized := inductionHypothesis setsKnown before
    obtain ⟨held, holds, inOrder⟩ := exists_holds_reached apart moments capacity lifetime
      (names_of_mem_setCalls setsKnown)
    by_cases inHeld : key ∈ held
    · exact sized.append_of_mem holds apart roomy before.unexpired inOrder inHeld text
    · exact sized.append_of_not_mem holds apart roomy before.unexpired inOrder member inHeld text

/-- What a cache holds of the keys of a set once texts were set: those of the keys set
last. -/
def HoldsLatest (keys : Set UsageKey) (sets : List (UsageKey × String))
    (cache : SnapshotCache) : Prop :=
  ∀ key ∈ keys, ∀ text, cache.get? key = some text ↔
    key ∈ (lastSetOrder (setCalls sets)).rtake cache.size ∧ LatestSet (setCalls sets) key text

theorem holdsLatest_filled
    (apart : keys.InjOn UsageKey.canonical)
    (known : ∀ s ∈ sets, s.1 ∈ keys)
    (lasts : Lasts moments capacity lifetime sets)
    (ascend : StampsAscend moments (setCalls sets)) :
    HoldsLatest keys sets (filled moments capacity lifetime sets) := by
  have ⟨held, holds, recent⟩ := exists_holds_filled apart known lasts ascend
  have named := names_of_mem_setCalls known
  have isEnd : (lastSetOrder (setCalls sets)).rtake (filled moments capacity lifetime sets).size =
      held := by
    rw [holds.size_eq]
    exact (List.suffix_iff_eq_drop.mp recent).symm
  intro key member text
  have found : ((filled moments capacity lifetime sets).get? key).isSome = true ↔ key ∈ held := by
    rw [lasts.unexpired.get?_eq (holds.named apart), Option.isSome_map]
    exact holds.isSome_entryOf?_iff apart member
  rw [isEnd, ← found]
  constructor
  · intro isText
    exact ⟨Option.isSome_of_eq_some isText,
      CacheCall.latestSet_of_lastSet apart named member (lastSet_of_get?_reached isText)⟩
  · rintro ⟨isHeld, latest⟩
    have ⟨shown, isShown⟩ := Option.isSome_iff_exists.mp isHeld
    have written := lastSet_of_get?_reached isShown
    rw [latest.lastSet_eq apart named member] at written
    rwa [Option.some.inj written]

/-- What setting one key more does to a cache that calls have led to: it makes room, and
where stamps ascend the key whose entry is given up is the one set longest ago. -/
structure Evicts (keys : Set UsageKey) (moments : ℕ → CacheMoment) (calls : List CacheCall)
    (cache : SnapshotCache) : Prop where
  makesRoom : ∀ key ∈ keys, ∀ text, MakesRoom keys cache key text
  oldest : StampsAscend moments calls → ∀ key ∈ keys, Oldest keys cache key →
    oldest? calls cache = some key

theorem evicts_reached
    (roomy : 1 ≤ capacity)
    (apart : keys.InjOn UsageKey.canonical)
    (named : ∀ call ∈ calls, call.Names keys)
    (unexpired : (reached moments capacity lifetime calls).Unexpired) :
    Evicts keys moments calls (reached moments capacity lifetime calls) := by
  have ⟨held, holds, _⟩ := exists_holds_reached apart moments capacity lifetime named
  have kept := (madeWith_reached moments capacity lifetime calls).capacity
  refine ⟨?makesRoom, ?oldest⟩
  case makesRoom =>
    intro key member text
    exact holds.makesRoom apart (kept.symm ▸ roomy) unexpired member text
  case oldest =>
    intro ascend key member oldest
    exact oldest?_reached apart named ascend member oldest

/-- A full cache gives up an entry with the least stamp for every key that is set, its own
entry or not. It holds as many entries as it can, or at times one less, and where stamps
ascend these are those of the keys set last. -/
theorem evicts_and_holdsLatest
    (roomy : 1 ≤ capacity)
    (apart : keys.InjOn UsageKey.canonical)
    (named : ∀ call ∈ calls, call.Names keys)
    (unexpired : (reached moments capacity lifetime calls).Unexpired)
    (known : ∀ s ∈ sets, s.1 ∈ keys)
    (lasts : Lasts moments capacity lifetime sets) :
    Evicts keys moments calls (reached moments capacity lifetime calls) ∧
      Sized moments capacity lifetime sets ∧
      (StampsAscend moments (setCalls sets) →
        HoldsLatest keys sets (filled moments capacity lifetime sets)) :=
  ⟨evicts_reached roomy apart named unexpired, sized_filled roomy apart known lasts,
    holdsLatest_filled apart known lasts⟩

theorem stampsAscend_steady
    (calls : List CacheCall) :
    StampsAscend CacheMoment.steady calls :=
  fun _ _ before _ _ => Int.ofNat_lt.mpr before

/-- Two machines, the second of which is set again. -/
def refreshingSets (first second : UsageKey) : List (UsageKey × String) :=
  [(first, "0:59:1"), (second, "0:59:1"), (second, "0:119:1")]

theorem evicts_and_holdsLatest_refreshed :
    let sets := refreshingSets (machineKey "vm-1") (machineKey "vm-2")
    let cache := filled CacheMoment.steady 2 standardLifetime sets
    (∀ s ∈ sets, s.1 ∈ {key : UsageKey | key.Plain}) ∧
      Lasts CacheMoment.steady 2 standardLifetime sets ∧
      StampsAscend CacheMoment.steady (setCalls sets) ∧
      cache.get? (machineKey "vm-1") = none ∧
      cache.get? (machineKey "vm-2") = some "0:119:1" ∧
      Evicts {key | key.Plain} CacheMoment.steady (setCalls sets) cache ∧
      Sized CacheMoment.steady 2 standardLifetime sets ∧
      HoldsLatest {key | key.Plain} sets cache := by
  have plain : (machineKey "vm-1").Plain ∧ (machineKey "vm-2").Plain := by decide
  have known : ∀ s ∈ refreshingSets (machineKey "vm-1") (machineKey "vm-2"),
      s.1 ∈ {key : UsageKey | key.Plain} := by
    simp [refreshingSets, plain]
  have unexpired : ∀ earlier ∈ (refreshingSets (machineKey "vm-1") (machineKey "vm-2")).inits,
      (filled CacheMoment.steady 2 standardLifetime earlier).Unexpired := by decide
  have lasts : Lasts CacheMoment.steady 2 standardLifetime
      (refreshingSets (machineKey "vm-1") (machineKey "vm-2")) :=
    fun earlier isPrefix => unexpired earlier ((List.mem_inits _ _).mpr isPrefix)
  have ⟨evicts, sized, latest⟩ := evicts_and_holdsLatest (by decide) injOn_plain
    (names_of_mem_setCalls known) lasts.unexpired known lasts
  exact ⟨known, lasts, stampsAscend_steady _, by decide, by decide, evicts, sized,
    latest (stampsAscend_steady _)⟩

/-- In a full cache a key that is held displaces another one, although it needs no room. -/
theorem not_forall_entryOf?_set_of_held :
    ¬ ∀ (keys : Set UsageKey) (moments : ℕ → CacheMoment) (capacity lifetime : ℕ)
        (calls : List CacheCall) (key other : UsageKey) (text : String),
      keys.InjOn UsageKey.canonical → 1 ≤ capacity → (∀ call ∈ calls, call.Names keys) →
      (reached moments capacity lifetime calls).Unexpired →
      key ∈ keys → other ∈ keys → other ≠ key →
      ((reached moments capacity lifetime calls).entryOf? key).isSome = true →
      ((reached moments capacity lifetime calls).set key text).entryOf? other =
        (reached moments capacity lifetime calls).entryOf? other := by
  intro keeps
  have plain : (machineKey "vm-1").Plain ∧ (machineKey "vm-2").Plain := by decide
  have named : ∀ call ∈ setCalls [(machineKey "vm-1", "0:59:1"), (machineKey "vm-2", "0:59:1")],
      call.Names {key | key.Plain} := by
    simp [setCalls, Names, plain]
  have kept := keeps {key | key.Plain} CacheMoment.steady 2 standardLifetime _
    (machineKey "vm-2") (machineKey "vm-1") "0:119:1" injOn_plain (by decide) named (by decide)
    plain.2 plain.1 (by decide) (by decide)
  exact absurd kept (by decide)

end UsageBilling.SnapshotCache

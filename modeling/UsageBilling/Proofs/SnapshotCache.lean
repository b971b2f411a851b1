import Mathlib.Data.List.Nodup
import UsageBilling.SnapshotStore

/-!
Contract: which keys the store in memory keeps apart.

Owns:
- calls to the store in memory, and the states they reach, whatever the clock reads;
- every state has one entry a name at most, and each entry has the text that was
  last set under its name;
- two keys are kept apart exactly if their canonical texts differ, which those of
  different keys do if no tenant and no resource has a colon in it.

Does not own: texts that are lost when the store is full.
-/

namespace UsageBilling

inductive CacheCall where
  | set (key : UsageKey) (text : String)
  | get (key : UsageKey)
  | invalidate (key : UsageKey)
  | clear
deriving DecidableEq, Repr

namespace CacheCall

/-- The text left under a name once a call is made. -/
def leave (name : String) (held : Option String) : CacheCall → Option String
  | set key text => if key.canonical = name then some text else held
  | get _ => held
  | invalidate key => if key.canonical = name then none else held
  | clear => none

/-- The text last set under a name, unless it was removed since. -/
def lastSet (calls : List CacheCall) (name : String) : Option String :=
  calls.foldl (leave name) none

end CacheCall

namespace SnapshotCache

open CacheCall (lastSet leave)

variable {cache : SnapshotCache} {moments : Nat → CacheMoment} {capacity lifetime : Nat}
  {calls : List CacheCall} {first second key : UsageKey} {text : String}

def perform (cache : SnapshotCache) : CacheCall → SnapshotCache
  | .set key text => cache.set key text
  | .get _ => cache.later
  | .invalidate key => (cache.invalidate key).2
  | .clear => cache.clear

/-- The cache that calls bring a new one to, each of them made at its own moment. -/
def reached (moments : Nat → CacheMoment) (capacity lifetime : Nat) (calls : List CacheCall) :
    SnapshotCache :=
  calls.foldl perform (start moments capacity lifetime)

/-! ## Entries by name -/

/-- Each name has one entry at most. -/
def Named (cache : SnapshotCache) : Prop :=
  (cache.entries.map Prod.fst).Nodup

theorem lookup_eq_some_iff_mem
    {entries : List (String × CacheEntry)}
    (unique : (entries.map Prod.fst).Nodup)
    (name : String)
    (entry : CacheEntry) :
    entries.lookup name = some entry ↔ (name, entry) ∈ entries := by
  induction entries with
  | nil => simp
  | cons first rest inductionHypothesis =>
    have ⟨other, held⟩ := first
    have ⟨fresh, restUnique⟩ := List.nodup_cons.mp unique
    rw [List.lookup_cons, List.mem_cons]
    by_cases same : name = other
    · have notInRest : (other, entry) ∉ rest := fun member =>
        fresh (List.mem_map.mpr ⟨_, member, rfl⟩)
      simp [same, notInRest, eq_comm]
    · have differs : (name == other) = false := beq_eq_false_iff_ne.mpr same
      simp [same, differs, inductionHypothesis restUnique]

/-- A store that is gone over in any order finds one of the entries with the least stamp. -/
theorem exists_minOn?_order
    (moment : CacheMoment)
    {entries : List (String × CacheEntry)}
    (inhabited : entries ≠ []) :
    ∃ oldest ∈ entries, (∀ entry ∈ entries, oldest.2.stamp ≤ entry.2.stamp) ∧
      (moment.order entries).minOn? (fun entry => entry.2.stamp) = some oldest := by
  have permuted := moment.order_perm entries
  have orderInhabited : moment.order entries ≠ [] := by
    intro isNil
    rw [isNil] at permuted
    exact inhabited permuted.symm.eq_nil
  refine ⟨_, permuted.subset List.minOn_mem, ?_, List.minOn?_eq_some_minOn orderInhabited⟩
  intro entry member
  exact List.apply_minOn_le_of_mem (f := fun entry : String × CacheEntry => entry.2.stamp)
    (permuted.symm.subset member)

/-- What is left once room is made for one entry: all entries of a store that has room, the
live ones if these leave room, and otherwise those without one that has the least stamp of
them, if there is any. -/
inductive RoomMade (cache : SnapshotCache) : List (String × CacheEntry) → Prop where
  | spare (room : cache.size < cache.capacity) : RoomMade cache cache.entries
  | dropped (full : cache.capacity ≤ cache.size) (room : cache.live.length < cache.capacity) :
      RoomMade cache cache.live
  | evicted {oldest : String × CacheEntry} (full : cache.capacity ≤ cache.live.length)
      (member : oldest ∈ cache.live)
      (least : ∀ entry ∈ cache.live, oldest.2.stamp ≤ entry.2.stamp) :
      RoomMade cache (cache.live.filter fun entry => entry.1 != oldest.1)
  | nothing (none : cache.live = []) : RoomMade cache []

theorem roomMade_makeRoom
    (cache : SnapshotCache) :
    RoomMade cache cache.makeRoom := by
  unfold makeRoom
  split
  · rename_i room
    exact .spare room
  · rename_i noRoom
    split
    · rename_i room
      exact .dropped (Nat.not_lt.mp noRoom) room
    · rename_i stillNoRoom
      by_cases none : cache.live = []
      · have noOrder : cache.now.order [] = [] := (cache.now.order_perm []).eq_nil
        rw [none, noOrder]
        exact .nothing none
      · have ⟨oldest, member, least, found⟩ := exists_minOn?_order cache.now none
        rw [found]
        exact .evicted (Nat.not_lt.mp stillNoRoom) member least

theorem makeRoom_sublist
    (cache : SnapshotCache) :
    cache.makeRoom.Sublist cache.entries := by
  have alive : cache.live.Sublist cache.entries := List.filter_sublist
  have made := cache.roomMade_makeRoom
  generalize cache.makeRoom = left at made ⊢
  cases made with
  | spare room => exact List.Sublist.refl _
  | dropped full room => exact alive
  | evicted full member least => exact List.filter_sublist.trans alive
  | nothing none => exact List.nil_sublist _

theorem Named.entryOf?_eq_some_iff
    (named : cache.Named)
    (key : UsageKey)
    (entry : CacheEntry) :
    cache.entryOf? key = some entry ↔ (key.canonical, entry) ∈ cache.entries :=
  lookup_eq_some_iff_mem named key.canonical entry

theorem get?_eq_some_iff
    (cache : SnapshotCache)
    (key : UsageKey)
    (text : String) :
    cache.get? key = some text ↔ ∃ entry, cache.entryOf? key = some entry ∧
      cache.now.isLive (key.canonical, entry) = true ∧ entry.text = text := by
  simp [get?, CacheMoment.read?, Option.bind_eq_some_iff]

theorem mem_entries_set_iff
    (entry : String × CacheEntry) :
    entry ∈ (cache.set key text).entries ↔
      (entry ∈ cache.makeRoom ∧ entry.1 ≠ key.canonical) ∨
        entry = (key.canonical, cache.now.entry cache.lifetime text) := by
  simp [set]

theorem mem_entries_invalidate_iff
    (entry : String × CacheEntry) :
    entry ∈ (cache.invalidate key).2.entries ↔
      entry ∈ cache.entries ∧ entry.1 ≠ key.canonical := by
  simp [invalidate]

theorem Named.perform
    (named : cache.Named)
    (call : CacheCall) :
    (cache.perform call).Named := by
  cases call with
  | set key text =>
    have kept : ((cache.makeRoom.filter fun entry => entry.1 != key.canonical).map
        Prod.fst).Nodup :=
      List.Nodup.sublist ((List.filter_sublist.trans cache.makeRoom_sublist).map _) named
    show ((_ ++ [(key.canonical, _)]).map Prod.fst).Nodup
    rw [List.map_append, List.nodup_append]
    refine ⟨kept, List.nodup_singleton _, ?_⟩
    intro name member other isNew
    have ⟨entry, inOthers, ofEntry⟩ := List.mem_map.mp member
    have differs := (List.mem_filter.mp inOthers).2
    rw [List.mem_singleton.mp isNew, ← ofEntry]
    exact bne_iff_ne.mp differs
  | get key => exact named
  | invalidate key => exact List.Nodup.sublist (List.filter_sublist.map _) named
  | clear => exact List.nodup_nil

/-- What a cache holds under a name is the text last set under it. -/
def Recalls (cache : SnapshotCache) (held : String → Option String) : Prop :=
  ∀ entry ∈ cache.entries, held entry.1 = some entry.2.text

theorem Recalls.perform
    {held : String → Option String}
    (recalls : cache.Recalls held)
    (call : CacheCall) :
    (cache.perform call).Recalls fun name => leave name (held name) call := by
  intro entry member
  cases call with
  | set key text =>
    rcases (mem_entries_set_iff entry).mp member with old | new
    · show (if key.canonical = entry.1 then _ else _) = _
      rw [if_neg (Ne.symm old.2)]
      exact recalls entry (cache.makeRoom_sublist.subset old.1)
    · show (if key.canonical = entry.1 then _ else _) = _
      rw [new, if_pos rfl]
      rfl
  | get key => exact recalls entry member
  | invalidate key =>
    have ⟨old, differs⟩ := (mem_entries_invalidate_iff entry).mp member
    show (if key.canonical = entry.1 then _ else _) = _
    rw [if_neg (Ne.symm differs)]
    exact recalls entry old
  | clear => cases member

theorem named_and_recalls_foldl_perform
    {held : String → Option String}
    (named : cache.Named)
    (recalls : cache.Recalls held)
    (calls : List CacheCall) :
    (calls.foldl SnapshotCache.perform cache).Named ∧
      (calls.foldl SnapshotCache.perform cache).Recalls
        fun name => calls.foldl (leave name) (held name) := by
  induction calls generalizing cache held with
  | nil => exact ⟨named, recalls⟩
  | cons call rest inductionHypothesis =>
    exact inductionHypothesis (named.perform call) (recalls.perform call)

theorem named_and_recalls_reached
    (moments : Nat → CacheMoment)
    (capacity lifetime : Nat)
    (calls : List CacheCall) :
    (reached moments capacity lifetime calls).Named ∧
      (reached moments capacity lifetime calls).Recalls (lastSet calls) := by
  have named : (start moments capacity lifetime).Named := List.nodup_nil
  have recalls : (start moments capacity lifetime).Recalls fun _ => none := by
    simp [Recalls, start]
  exact named_and_recalls_foldl_perform named recalls calls

/-- A lookup never finds another text than the one last set under the name of its
key. -/
theorem lastSet_of_get?_reached
    (found : (reached moments capacity lifetime calls).get? key = some text) :
    lastSet calls key.canonical = some text := by
  have ⟨named, recalls⟩ := named_and_recalls_reached moments capacity lifetime calls
  have ⟨entry, inCache, _, isText⟩ := (get?_eq_some_iff _ key text).mp found
  rw [← isText]
  exact recalls _ ((named.entryOf?_eq_some_iff key entry).mp inCache)

theorem exists_set_of_foldl_leave
    {name : String}
    {held : Option String}
    {calls : List CacheCall}
    (given : calls.foldl (leave name) held = some text) :
    held = some text ∨ ∃ key, .set key text ∈ calls ∧ key.canonical = name := by
  induction calls generalizing held with
  | nil => exact Or.inl given
  | cons call rest inductionHypothesis =>
    rcases inductionHypothesis given with inHead | ⟨key, member, ofName⟩
    · cases call with
      | set key text' =>
        simp only [leave] at inHead
        split at inHead
        · rename_i ofName
          cases inHead
          exact Or.inr ⟨key, List.mem_cons_self, ofName⟩
        · exact Or.inl inHead
      | get key => exact Or.inl inHead
      | invalidate key =>
        simp only [leave] at inHead
        split at inHead
        · cases inHead
        · exact Or.inl inHead
      | clear => cases inHead
    · exact Or.inr ⟨key, List.mem_cons_of_mem call member, ofName⟩

/-! ## Keys of different names -/

/-- The entries of other keys are those that stay when room is made. -/
theorem Named.entryOf?_set_eq_some_iff
    (named : cache.Named)
    (differ : first.canonical ≠ second.canonical)
    (text : String)
    (entry : CacheEntry) :
    (cache.set first text).entryOf? second = some entry ↔
      (second.canonical, entry) ∈ cache.makeRoom := by
  have namedAfter : (cache.set first text).Named := named.perform (.set first text)
  have notNew : (second.canonical, entry) ≠
      (first.canonical, cache.now.entry cache.lifetime text) := by
    intro same
    exact differ (congrArg Prod.fst same).symm
  rw [namedAfter.entryOf?_eq_some_iff, mem_entries_set_iff, or_iff_left notNew]
  exact and_iff_left (Ne.symm differ)

theorem Named.entryOf?_set_of_room
    (named : cache.Named)
    (differ : first.canonical ≠ second.canonical)
    (room : cache.size < cache.capacity)
    (text : String) :
    (cache.set first text).entryOf? second = cache.entryOf? second := by
  apply Option.ext
  intro entry
  rw [named.entryOf?_set_eq_some_iff differ, named.entryOf?_eq_some_iff, makeRoom, if_pos room]

theorem Named.entryOf?_set_of_ne
    (named : cache.Named)
    (differ : first.canonical ≠ second.canonical)
    (text : String) :
    (cache.set first text).entryOf? second = cache.entryOf? second ∨
      cache.capacity ≤ cache.size ∧ (cache.set first text).entryOf? second = none := by
  by_cases room : cache.size < cache.capacity
  · exact Or.inl (named.entryOf?_set_of_room differ room text)
  · cases found : (cache.set first text).entryOf? second with
    | some entry =>
      have inRoom := (named.entryOf?_set_eq_some_iff differ text entry).mp found
      left
      symm
      rw [named.entryOf?_eq_some_iff]
      exact cache.makeRoom_sublist.subset inRoom
    | none => exact Or.inr ⟨Nat.not_lt.mp room, rfl⟩

theorem Named.get?_set_of_ne
    (named : cache.Named)
    (differ : first.canonical ≠ second.canonical)
    (text : String) :
    (cache.set first text).get? second = cache.later.get? second ∨
      cache.capacity ≤ cache.size ∧ (cache.set first text).get? second = none := by
  rcases named.entryOf?_set_of_ne differ text with same | ⟨full, evicted⟩
  · left
    rw [get?, same]
    rfl
  · right
    rw [get?, evicted]
    exact ⟨full, rfl⟩

theorem Named.get?_invalidate_of_ne
    (named : cache.Named)
    (differ : first.canonical ≠ second.canonical) :
    (cache.invalidate first).2.get? second = cache.later.get? second := by
  have namedAfter : (cache.invalidate first).2.Named := named.perform (.invalidate first)
  have same : (cache.invalidate first).2.entryOf? second = cache.entryOf? second := by
    apply Option.ext
    intro entry
    rw [namedAfter.entryOf?_eq_some_iff, named.entryOf?_eq_some_iff, mem_entries_invalidate_iff]
    exact and_iff_left (Ne.symm differ)
  rw [get?, same]
  rfl

/-- Whether the store in memory keeps a key apart from another, whatever calls were
made and at whatever times: a lookup of the second after setting or invalidating the
first shows what it would have shown at that time without it, but that setting the first
may evict the second from a full cache; and no text set for the first only is found for
the second. -/
structure KeepsApart (first second : UsageKey) : Prop where
  set : ∀ moments capacity lifetime calls text,
    let cache := reached moments capacity lifetime calls
    (cache.set first text).get? second = cache.later.get? second ∨
      cache.capacity ≤ cache.size ∧ (cache.set first text).get? second = none
  invalidate : ∀ moments capacity lifetime calls,
    let cache := reached moments capacity lifetime calls
    (cache.invalidate first).2.get? second = cache.later.get? second
  get? : ∀ moments capacity lifetime calls text,
    (∀ key, CacheCall.set key text ∈ calls → key = first) →
      (reached moments capacity lifetime calls).get? second ≠ some text

theorem keepsApart_of_canonical_ne
    (differ : first.canonical ≠ second.canonical) :
    KeepsApart first second := by
  refine ⟨?_, ?_, ?_⟩
  · intro moments capacity lifetime calls text
    exact (named_and_recalls_reached moments capacity lifetime calls).1.get?_set_of_ne differ text
  · intro moments capacity lifetime calls
    exact (named_and_recalls_reached moments capacity lifetime calls).1.get?_invalidate_of_ne differ
  · intro moments capacity lifetime calls text onlyFirst found
    have set := exists_set_of_foldl_leave (lastSet_of_get?_reached found)
    rcases set with impossible | ⟨key, member, ofName⟩
    · cases impossible
    · rw [onlyFirst key member] at ofName
      exact differ ofName

/-- A text set for one key is found for every other key of the same name. -/
theorem canonical_ne_of_keepsApart
    (apart : KeepsApart first second) :
    first.canonical ≠ second.canonical := by
  intro same
  apply apart.get? CacheMoment.steady 1 standardLifetime [.set first ""] ""
  · intro key member
    cases List.mem_singleton.mp member
    rfl
  · have lives : (1 : Int) < (CacheMoment.entry (.steady 0) standardLifetime "").expiry := by decide
    rw [get?_eq_some_iff]
    refine ⟨CacheMoment.entry (.steady 0) standardLifetime "", ?_, decide_eq_true lives, rfl⟩
    show List.lookup second.canonical [(first.canonical, _)] = some _
    rw [same, List.lookup_cons_self]
    rfl

end SnapshotCache

/-! ## Names of keys -/

namespace UsageKey

/-- Whether neither the tenant nor the resource has a colon in it. -/
def Plain (key : UsageKey) : Prop :=
  ':' ∉ key.tenant.toList ∧ ':' ∉ key.resource.toList

instance (key : UsageKey) : Decidable key.Plain :=
  inferInstanceAs (Decidable (_ ∧ _))

/-- A part without a mark is told apart from what follows the first mark. -/
theorem append_cons_inj
    {mark : Char}
    {part part' rest rest' : List Char}
    (free : mark ∉ part)
    (free' : mark ∉ part')
    (same : part ++ mark :: rest = part' ++ mark :: rest') :
    part = part' ∧ rest = rest' := by
  induction part generalizing part' with
  | nil =>
    cases part' with
    | nil => exact ⟨rfl, (List.cons.inj same).2⟩
    | cons c others =>
      have isMark := (List.cons.inj same).1
      exact absurd (isMark ▸ List.mem_cons_self) free'
  | cons c others inductionHypothesis =>
    cases part' with
    | nil =>
      have isMark := (List.cons.inj same).1
      exact absurd (isMark ▸ List.mem_cons_self) free
    | cons c' others' =>
      have ⟨sameHead, sameTail⟩ := List.cons.inj same
      have ⟨sameOthers, sameRest⟩ := inductionHypothesis
        (fun member => free (List.mem_cons_of_mem c member))
        (fun member => free' (List.mem_cons_of_mem c' member)) sameTail
      exact ⟨by rw [sameHead, sameOthers], sameRest⟩

theorem toList_canonical
    (key : UsageKey) :
    key.canonical.toList =
      key.tenant.toList ++ ':' :: (key.resource.toList ++ ':' :: key.service.toList) := by
  simp [canonical]

/-- Plain keys are told apart by their canonical texts. -/
theorem Plain.eq_of_canonical_eq
    {first second : UsageKey}
    (plain : first.Plain)
    (plain' : second.Plain)
    (same : first.canonical = second.canonical) :
    first = second := by
  have sameCharacters := congrArg String.toList same
  rw [toList_canonical, toList_canonical] at sameCharacters
  have ⟨sameTenant, sameRest⟩ := append_cons_inj plain.1 plain'.1 sameCharacters
  have ⟨sameResource, sameService⟩ := append_cons_inj plain.2 plain'.2 sameRest
  cases first
  cases second
  simp only [UsageKey.mk.injEq]
  exact ⟨String.toList_inj.mp sameTenant, String.toList_inj.mp sameResource,
    String.toList_inj.mp sameService⟩

end UsageKey

namespace SnapshotCache

/-- The store in memory keeps two keys apart exactly if their canonical texts
differ, which those of different plain keys do. -/
theorem keepsApart_iff_canonical_ne
    (first second : UsageKey) :
    (KeepsApart first second ↔ first.canonical ≠ second.canonical) ∧
      (first.Plain → second.Plain → first ≠ second → KeepsApart first second) := by
  refine ⟨⟨canonical_ne_of_keepsApart, keepsApart_of_canonical_ne⟩, ?_⟩
  intro plain plain' differ
  apply keepsApart_of_canonical_ne
  intro same
  exact differ (plain.eq_of_canonical_eq plain' same)

/-- The service may have colons in it. -/
theorem keepsApart_plain_keys :
    KeepsApart ⟨"acme", "vm-1", "m1.small"⟩ ⟨"acme", "vm-1", "eu:m1.small"⟩ :=
  (keepsApart_iff_canonical_ne _ _).2 (by decide) (by decide) (by decide)

/-- Keys of two tenants may have one canonical text. The cache then shows each of
them the text of the other. -/
theorem not_forall_keepsApart :
    ¬ ∀ first second : UsageKey, first ≠ second → KeepsApart first second := by
  intro apart
  have differ := apart ⟨"acme", "eu:vm-1", "m1.small"⟩ ⟨"acme:eu", "vm-1", "m1.small"⟩ (by decide)
  exact canonical_ne_of_keepsApart differ (by decide)

end SnapshotCache

end UsageBilling

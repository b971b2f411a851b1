import UsageBilling.Proofs.SnapshotCache.Recency

/-!
Contract: where the entries of the store in memory come from, and how long they are shown.

Owns:
- the settings of a store, which no call changes, and the moment of each call;
- each entry is what a set has made of its text at the moment of that call;
- a text is shown only while the clock has not gone a lifetime beyond a set of it.

Does not own: which entries are left.
-/

namespace UsageBilling

namespace CacheCall

/-- Whether the call at a place in a list sets a key. -/
def SetsAt (calls : List CacheCall) (i : ℕ) : Prop :=
  ∃ key text, calls[i]? = some (.set key text)

theorem SetsAt.append
    {calls : List CacheCall}
    {i : ℕ}
    (sets : SetsAt calls i)
    (later : List CacheCall) :
    SetsAt (calls ++ later) i := by
  have ⟨key, text, isSet⟩ := sets
  have inCalls := (List.getElem?_eq_some_iff.mp isSet).1
  refine ⟨key, text, ?_⟩
  rw [List.getElem?_append_left inCalls, isSet]

theorem setsAt_length
    (calls : List CacheCall)
    (key : UsageKey)
    (text : String) :
    SetsAt (calls ++ [.set key text]) calls.length :=
  ⟨key, text, List.getElem?_concat_length⟩

end CacheCall

namespace SnapshotCache

variable {cache : SnapshotCache} {moments : ℕ → CacheMoment} {capacity lifetime : ℕ}
  {calls : List CacheCall} {entry : String × CacheEntry} {key : UsageKey} {text : String} {i : ℕ}

/-! ## Settings -/

/-- The settings of a cache that was made for some capacity and lifetime, and at which moment
of all the next call is made. -/
structure MadeWith (moments : ℕ → CacheMoment) (capacity lifetime made : ℕ)
    (cache : SnapshotCache) : Prop where
  moments : cache.moments = moments
  capacity : cache.capacity = capacity
  lifetime : cache.lifetime = lifetime
  made : cache.made = made

theorem MadeWith.perform
    {made : ℕ}
    (settings : MadeWith moments capacity lifetime made cache)
    (call : CacheCall) :
    MadeWith moments capacity lifetime (made + 1) (cache.perform call) := by
  have ⟨sameMoments, sameCapacity, sameLifetime, isMade⟩ := settings
  have more : cache.made + 1 = made + 1 := congrArg (· + 1) isMade
  cases call with
  | set key text => exact ⟨sameMoments, sameCapacity, sameLifetime, more⟩
  | get key => exact ⟨sameMoments, sameCapacity, sameLifetime, more⟩
  | invalidate key => exact ⟨sameMoments, sameCapacity, sameLifetime, more⟩
  | clear => exact ⟨sameMoments, sameCapacity, sameLifetime, more⟩

theorem madeWith_reached
    (moments : ℕ → CacheMoment)
    (capacity lifetime : ℕ)
    (calls : List CacheCall) :
    MadeWith moments capacity lifetime calls.length (reached moments capacity lifetime calls) := by
  induction calls using List.reverseRecOn with
  | nil => exact ⟨rfl, rfl, rfl, rfl⟩
  | append_singleton calls call inductionHypothesis =>
    rw [reached_append_singleton, List.length_append]
    exact inductionHypothesis.perform call

theorem now_reached
    (moments : ℕ → CacheMoment)
    (capacity lifetime : ℕ)
    (calls : List CacheCall) :
    (reached moments capacity lifetime calls).now = moments calls.length := by
  have settings := madeWith_reached moments capacity lifetime calls
  rw [now, settings.moments, settings.made]

/-! ## Entries -/

/-- Whether an entry is what the call at a place has made, which sets the key of its name. -/
def MadeAt (moments : ℕ → CacheMoment) (lifetime : ℕ) (calls : List CacheCall)
    (entry : String × CacheEntry) (i : ℕ) : Prop :=
  ∃ key text, calls[i]? = some (.set key text) ∧
    entry = (key.canonical, (moments i).entry lifetime text)

theorem MadeAt.setsAt
    (made : MadeAt moments lifetime calls entry i) :
    CacheCall.SetsAt calls i :=
  have ⟨key, text, isSet, _⟩ := made
  ⟨key, text, isSet⟩

theorem MadeAt.lt_length
    (made : MadeAt moments lifetime calls entry i) :
    i < calls.length := by
  have ⟨_, _, isSet, _⟩ := made
  exact (List.getElem?_eq_some_iff.mp isSet).1

theorem MadeAt.append
    (made : MadeAt moments lifetime calls entry i)
    (later : List CacheCall) :
    MadeAt moments lifetime (calls ++ later) entry i := by
  have inCalls := made.lt_length
  have ⟨key, text, isSet, isEntry⟩ := made
  refine ⟨key, text, ?_, isEntry⟩
  rw [List.getElem?_append_left inCalls, isSet]

theorem MadeAt.stamp_eq
    (made : MadeAt moments lifetime calls entry i) :
    entry.2.stamp = (moments i).stamp := by
  obtain ⟨_, _, _, rfl⟩ := made
  rfl

/-- A call keeps entries or makes one. -/
theorem mem_entries_of_mem_perform
    {call : CacheCall}
    (member : entry ∈ (cache.perform call).entries) :
    entry ∈ cache.entries ∨ ∃ key text, call = .set key text ∧
      entry = (key.canonical, cache.now.entry cache.lifetime text) := by
  cases call with
  | set key text =>
    rcases (mem_entries_set_iff entry).mp member with ⟨inRoom, _⟩ | isNew
    · exact Or.inl (cache.makeRoom_sublist.subset inRoom)
    · exact Or.inr ⟨key, text, rfl, isNew⟩
  | get key => exact Or.inl member
  | invalidate key => exact Or.inl ((mem_entries_invalidate_iff entry).mp member).1
  | clear => cases member

theorem exists_madeAt_of_mem_reached
    (member : entry ∈ (reached moments capacity lifetime calls).entries) :
    ∃ i, MadeAt moments lifetime calls entry i := by
  induction calls using List.reverseRecOn with
  | nil => cases member
  | append_singleton calls call inductionHypothesis =>
    rw [reached_append_singleton] at member
    rcases mem_entries_of_mem_perform member with old | ⟨key, text, isSet, isNew⟩
    · have ⟨i, made⟩ := inductionHypothesis old
      exact ⟨i, made.append [call]⟩
    · have settings := madeWith_reached moments capacity lifetime calls
      rw [now_reached, settings.lifetime] at isNew
      rw [isSet]
      exact ⟨calls.length, key, text, List.getElem?_concat_length, isNew⟩

/-- A text is shown for a lifetime after a set of it and no longer. -/
theorem lt_of_get?_reached
    (found : (reached moments capacity lifetime calls).get? key = some text) :
    ∃ i setter, calls[i]? = some (.set setter text) ∧ setter.canonical = key.canonical ∧
      (moments calls.length).check key.canonical < (moments i).stamp + lifetime := by
  have named := (named_and_recalls_reached moments capacity lifetime calls).1
  have ⟨entry, isEntry, alive, isText⟩ := (get?_eq_some_iff _ key text).mp found
  have ⟨i, setter, written, isSet, made⟩ :=
    exists_madeAt_of_mem_reached ((named.entryOf?_eq_some_iff key entry).mp isEntry)
  have ⟨ofName, ofEntry⟩ := Prod.mk.inj made
  have sameText : written = text := by
    rw [← isText, ofEntry]
    rfl
  refine ⟨i, setter, sameText ▸ isSet, ofName.symm, ?_⟩
  have notEnded : (moments calls.length).check key.canonical < entry.expiry := by
    rw [now_reached] at alive
    exact of_decide_eq_true alive
  have ends : entry.expiry ≤ (moments i).stamp + lifetime := by
    rw [ofEntry]
    exact Int.le_trans (Int.min_le_left _ _) (Int.add_le_add_left (Int.min_le_left _ _) _)
  exact Int.lt_of_lt_of_le notEnded ends

/-- A text without a life is not shown at all. -/
example :
    ((empty 1 true).set ⟨"acme", "vm-1", "m1.small"⟩ "0:59:1").get? ⟨"acme", "vm-1", "m1.small"⟩ =
      none := by
  decide

end SnapshotCache

end UsageBilling

import UsageBilling.Proofs.Reconciler.Lookups
import UsageBilling.Proofs.Reconciler.Tenants

/-!
Contract: the order of what is read back, and the keys that it comes from.

Owns:
- the order of usage: by start, then service, then resource, with none before any;
- what is read back increases in this order, so that no two records share a place in it;
- the records read back are those of the segments of the tenant's tracks, and each leads
  back to the key of its track;
- entries in any order are read back as the same list.

Does not own: readings that fail. The order of entries may decide which error they fail
with.
-/

namespace UsageBilling

/-- Whether one record is before another: by start, then service, then resource, where no
resource is before any. -/
def UsageRecord.Precedes (a b : UsageRecord) : Prop :=
  a.start < b.start ∨ a.start = b.start ∧
    (a.service < b.service ∨ a.service = b.service ∧ a.resource < b.resource)

namespace Reconciler

variable {r : Reconciler} {tenant : String} {key : UsageKey} {first last : Int}
  {usages : List UsageRecord} {a b : UsageRecord}

/-! ## The order of records -/

/-- No text is before the empty one, so that no resource is before any. -/
theorem lt_of_getD_lt
    {resource other : Option String}
    (before : resource.getD "" < other.getD "") :
    resource < other := by
  cases other with
  | none =>
    rw [Option.getD_none, String.lt_iff_toList_lt] at before
    exact absurd before (List.not_lt_nil _)
  | some name =>
    cases resource with
    | none => exact trivial
    | some otherName => exact before

theorem precedes_of_compareReading
    (before : compareReading a b = .lt) :
    a.Precedes b := by
  simp only [compareReading, compareLex, compareOn, Ordering.then_eq_lt,
    Std.LawfulEqOrd.compare_eq_iff_eq, compare_lt_iff_lt] at before
  rcases before with earlier | ⟨samePosition, later⟩
  · exact Or.inl earlier
  · have sameStart : a.start = b.start :=
      Instant.le_antisymm (Int.le_of_eq samePosition) (Int.le_of_eq samePosition.symm)
    exact Or.inr ⟨sameStart, later.imp id (And.imp_right lt_of_getD_lt)⟩

/-! ## Records of segments -/

/-- Whether a record is the usage of a segment that a window shows of the track of a key. -/
def ComesFrom (r : Reconciler) (key : UsageKey) (window : Window) (usage : UsageRecord) :
    Prop :=
  ∃ track s stop, r.tracks.get? key = some track ∧ window.stop = .ok stop ∧
    s ∈ track.coverage.inRange window.start.timestamp (stop.timestamp - 1) ∧
    usageOf key track s = .ok usage

theorem ofRecord_of_comesFrom
    {window : Window}
    {usage : UsageRecord}
    (comesFrom : r.ComesFrom key window usage) :
    UsageKey.ofRecord key.tenant usage = key := by
  have ⟨_, _, _, _, _, _, made⟩ := comesFrom
  exact (usageOf_of_usageOf_eq_ok made).sameKey

theorem Sound.mem_usageIn_iff
    (sound : r.Sound)
    {window : Window}
    (read : r.usageIn tenant window = .ok usages)
    (usage : UsageRecord) :
    usage ∈ usages ↔ ∃ key : UsageKey, key.tenant = tenant ∧ r.ComesFrom key window usage := by
  have ⟨stop, stops⟩ := exists_stop_of_usageIn read
  have between := (usageIn_eq_ok_iff stops tenant).mp read
  constructor
  · intro member
    have ⟨key, track, s, own, found, shown, made⟩ :=
      sound.exists_of_mem_usageBetween between member
    exact ⟨key, own, track, s, stop, found, stops, shown, made⟩
  · rintro ⟨key, own, track, s, stop', found, stops', shown, made⟩
    obtain rfl : stop = stop' := Except.ok.inj (stops.symm.trans stops')
    obtain ⟨collected, entriesRead, rfl⟩ := (usageBetween_eq_ok_iff _ _ _ _ _).mp between
    have entry : (key, track) ∈ r.tracks.entries.filter fun entry => entry.1.tenant == tenant :=
      List.mem_filter.mpr ⟨(sound.unique.mem_entries_iff key track).mpr found, by simpa using own⟩
    have ⟨ownUsages, inCollected, ofEntry⟩ := exists_of_mem_forall₂ entriesRead.flip entry
    have ⟨made', inOwn, same⟩ :=
      exists_of_mem_forall₂ ((mapM_eq_ok_iff _ _ _).mp ofEntry).flip shown
    rw [made] at same
    cases same
    exact (List.mergeSort_perm _ _).mem_iff.mpr (List.mem_flatten.mpr ⟨ownUsages, inCollected, inOwn⟩)

/-! ## Increasing readings -/

/-- No record is read back twice: the records of a key start one after another. -/
theorem Sound.nodup_usageBetween
    (sound : r.Sound)
    (read : r.usageBetween tenant first last = .ok usages) :
    usages.Nodup := by
  rw [List.nodup_iff_count_le_one]
  intro usage
  let key := UsageKey.ofRecord tenant usage
  have ⟨own, sameUsage, ofSegments⟩ := sound.among_usageBetween key read
  have ordered := sound.ordered_segmentsOf key first last
  have ascending : (r.segmentsOf key first last).Pairwise fun s next => s.first < next.first := by
    apply ordered.ascending.imp_of_mem
    intro s next member _ before
    exact Int.lt_of_le_of_lt (ordered.inhabited s member) before
  have apart : own.Nodup := by
    apply pairwise_of_forall₂ ofSegments _ ascending
    rintro s next x y ⟨track, _, ofS⟩ ⟨track', _, ofNext⟩ before rfl
    have sameStart : s.first = next.first := ofS.start.symm.trans ofNext.start
    omega
  have counted : (key.among usages).count usage = usages.count usage :=
    List.count_filter (decide_eq_true rfl)
  rw [← counted]
  exact List.nodup_iff_count_le_one.mp (sameUsage.nodup_iff.mpr apart) usage

theorem Sound.pairwise_precedes
    (sound : r.Sound)
    (read : r.usageBetween tenant first last = .ok usages) :
    usages.Pairwise UsageRecord.Precedes := by
  have ⟨collected, _, inOrder⟩ := (usageBetween_eq_ok_iff _ _ _ _ _).mp read
  have sorted := pairwise_mergeSort_of_isLE readingOrder_eq_isLE collected.flatten
  rw [← inOrder] at sorted
  apply (sorted.and (sound.nodup_usageBetween read)).imp_of_mem
  rintro a b aMember bMember ⟨atMost, differ⟩
  apply precedes_of_compareReading
  rw [readingOrder_eq_isLE] at atMost
  cases level : compareReading a b with
  | lt => rfl
  | eq => exact absurd (sound.eq_of_compareReading read aMember bMember level) differ
  | gt =>
    rw [level] at atMost
    cases atMost

/-! ## Entries in any order -/

theorem Sound.same_of_perm
    (sound : r.Sound)
    {entries : List (UsageKey × Track)}
    (permuted : entries.Perm r.tracks.entries) :
    Sound ⟨r.deviation, ⟨entries⟩⟩ ∧ Same ⟨r.deviation, ⟨entries⟩⟩ r := by
  have unique : (⟨entries⟩ : Table UsageKey Track).Unique :=
    (permuted.map Prod.fst).nodup_iff.mpr sound.unique
  have sameLookups : ∀ key, (⟨entries⟩ : Table UsageKey Track).get? key = r.tracks.get? key := by
    intro key
    apply Option.ext
    intro track
    rw [← unique.mem_entries_iff, ← sound.unique.mem_entries_iff]
    exact permuted.mem_iff
  refine ⟨⟨unique, ?_⟩, rfl, ?_⟩
  · intro key track found
    exact sound.kept key track (sameLookups key ▸ found)
  · intro key
    exact congrArg (Option.map (Track.shown key)) (sameLookups key)

theorem Sound.mayRead_ok_iff
    (sound : r.Sound)
    (window : Window) :
    r.MayRead tenant window (.ok usages) ↔ r.usageIn tenant window = .ok usages := by
  constructor
  · rintro ⟨entries, permuted, read⟩
    have ⟨permutedSound, same⟩ := sound.same_of_perm permuted
    exact (same.usageIn_eq_ok_iff permutedSound sound tenant window usages).mp read
  · intro read
    exact ⟨r.tracks.entries, .refl _, read⟩

/-- If a window can be read with the entries in some order, it is read alike in all. -/
theorem Sound.eq_of_mayRead
    (sound : r.Sound)
    {window : Window}
    (read : r.usageIn tenant window = .ok usages)
    {outcome : Outcome (List UsageRecord)}
    (mayRead : r.MayRead tenant window outcome) :
    outcome = .ok usages := by
  have ⟨entries, permuted, readPermuted⟩ := mayRead
  have ⟨permutedSound, same⟩ := sound.same_of_perm permuted
  rw [← readPermuted]
  exact (same.usageIn_eq_ok_iff permutedSound sound tenant window usages).mpr read

/-- What a window of a tenant is read back as: one list for all orders of the entries, which
increases, and holds the usage of the segments of the tenant's tracks, each of which leads
back to the key of its track. -/
structure ReadsBack (r : Reconciler) (tenant : String) (window : Window)
    (usages : List UsageRecord) : Prop where
  anyOrder : ∀ outcome, r.MayRead tenant window outcome ↔ outcome = .ok usages
  increasing : usages.Pairwise UsageRecord.Precedes
  origin : ∀ usage, usage ∈ usages ↔
    ∃ key : UsageKey, key.tenant = tenant ∧ r.ComesFrom key window usage
  leadsBack : ∀ (key : UsageKey) usage, key.tenant = tenant → r.ComesFrom key window usage →
    UsageKey.ofRecord tenant usage = key

theorem Sound.readsBack
    (sound : r.Sound)
    {window : Window}
    (mayRead : r.MayRead tenant window (.ok usages)) :
    r.ReadsBack tenant window usages := by
  have read := (sound.mayRead_ok_iff window).mp mayRead
  have ⟨stop, stops⟩ := exists_stop_of_usageIn read
  refine ⟨?_, sound.pairwise_precedes ((usageIn_eq_ok_iff stops tenant).mp read),
    sound.mem_usageIn_iff read, ?_⟩
  · intro outcome
    constructor
    · exact sound.eq_of_mayRead read
    · rintro rfl
      exact mayRead
  · rintro key usage rfl comesFrom
    exact ofRecord_of_comesFrom comesFrom

end Reconciler

end UsageBilling

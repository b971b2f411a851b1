import Mathlib.Data.List.Perm.Basic
import UsageBilling.Proofs.Reconciler.Reading
import UsageBilling.Proofs.Sorting

/-!
Contract: reconcilers that show the same track for every key.

Owns:
- a track as the usage of its key shows it;
- keeping usage in reconcilers that show the same leaves such reconcilers;
- the same usage is read back from them, in the same order.

Does not own: how a reconciler came to hold its tracks. The order of its entries
is that in which keys were first recorded, so that equality would say too much.
-/

namespace UsageBilling

/-- A track as the usage of a key shows it: usage without a resource has no name
of one. -/
def Track.shown (key : UsageKey) (track : Track) : Track :=
  if key.resource = "" then { track with resourceName := none } else track

@[simp]
theorem Track.coverage_shown
    (key : UsageKey)
    (track : Track) :
    (track.shown key).coverage = track.coverage := by
  rw [shown]
  split
  · rfl
  · rfl

theorem Track.shown_add
    (key : UsageKey)
    (track : Track)
    (s : Segment)
    (name : Option String) :
    (track.add s name).shown key = ((track.shown key).add s name).shown key := by
  by_cases blank : key.resource = ""
  · simp only [shown, blank, if_true, add]
  · simp only [shown, blank, if_false]

namespace Reconciler

variable {r r' r'' : Reconciler} {tenant : String} {key : UsageKey} {first last : Int}
  {usages : List UsageRecord}

theorem usageOf_shown
    (key : UsageKey)
    (track : Track)
    (s : Segment) :
    usageOf key (track.shown key) s = usageOf key track s := by
  by_cases blank : key.resource = ""
  · simp only [Track.shown, usageOf, blank, if_true]
  · simp only [Track.shown, blank, if_false]

/-- Two reconcilers have one deviation, and show the same track for every key. -/
structure Same (r r' : Reconciler) : Prop where
  deviation : r.deviation = r'.deviation
  tracks : ∀ key, (r.tracks.get? key).map (Track.shown key) =
    (r'.tracks.get? key).map (Track.shown key)

theorem Same.refl
    (r : Reconciler) :
    r.Same r :=
  ⟨rfl, fun _ => rfl⟩

theorem Same.symm
    (same : r.Same r') :
    r'.Same r :=
  ⟨same.deviation.symm, fun key => (same.tracks key).symm⟩

theorem Same.trans
    (same : r.Same r')
    (same' : r'.Same r'') :
    r.Same r'' :=
  ⟨same.deviation.trans same'.deviation, fun key => (same.tracks key).trans (same'.tracks key)⟩

theorem Same.trackOf
    (same : r.Same r')
    (key : UsageKey)
    (unit : RateUnit) :
    (r.trackOf key unit).shown key = (r'.trackOf key unit).shown key := by
  have tracks := same.tracks key
  rw [Reconciler.trackOf, Reconciler.trackOf, same.deviation]
  cases found : r.tracks.get? key with
  | none =>
    rw [found, Option.map_none, eq_comm, Option.map_eq_none_iff] at tracks
    rw [tracks]
  | some track =>
    rw [found, Option.map_some, eq_comm, Option.map_eq_some_iff] at tracks
    obtain ⟨track', found', shown⟩ := tracks
    rw [found']
    exact shown.symm

theorem Same.keep
    (same : r.Same r')
    (tenant : String)
    (usage : UsageRecord)
    (unit : RateUnit)
    (weight : Int) :
    (r.keep tenant usage unit weight).Same (r'.keep tenant usage unit weight) := by
  refine ⟨same.deviation, ?_⟩
  intro key
  rw [get?_keep, get?_keep]
  split
  · rw [Option.map_some, Option.map_some, Track.shown_add, same.trackOf, ← Track.shown_add]
  · exact same.tracks key

theorem Same.snapshot
    (same : r.Same r')
    (key : UsageKey) :
    r.snapshot key = r'.snapshot key := by
  have texts := congrArg (Option.map fun track : Track => track.coverage.toText) (same.tracks key)
  simp only [Option.map_map, Function.comp_def, Track.coverage_shown] at texts
  exact texts

/-! ## The reading order -/

def compareReading : UsageRecord → UsageRecord → Ordering :=
  compareLex (compareOn fun usage => usage.start.position)
    (compareLex (compareOn fun usage => usage.service)
      (compareOn fun usage => usage.resource.getD ""))

instance : Std.TransCmp compareReading := by
  unfold compareReading
  infer_instance

theorem readingOrder_eq_isLE
    (a b : UsageRecord) :
    readingOrder a b = (compareReading a b).isLE := by
  show (compareReading a b != .gt) = (compareReading a b).isLE
  cases compareReading a b <;> rfl

/-- Records that the reading order does not tell apart start together, and are of
one service and resource. -/
theorem of_compareReading_eq
    (tenant : String)
    {a b : UsageRecord}
    (level : compareReading a b = .eq) :
    a.start.position = b.start.position ∧
      UsageKey.ofRecord tenant a = UsageKey.ofRecord tenant b := by
  simp only [compareReading, compareLex, compareOn, Ordering.then_eq_eq,
    Std.LawfulEqOrd.compare_eq_iff_eq] at level
  obtain ⟨sameStart, sameService, sameResource⟩ := level
  refine ⟨sameStart, ?_⟩
  rw [UsageKey.ofRecord, UsageKey.ofRecord, sameService, sameResource]

/-! ## Reading back -/

/-- What is read back is the usage of a segment of one of the tenant's tracks. -/
theorem Sound.exists_of_mem_usageBetween
    (sound : r.Sound)
    (read : r.usageBetween tenant first last = .ok usages)
    {usage : UsageRecord}
    (member : usage ∈ usages) :
    ∃ key track s, key.tenant = tenant ∧ r.tracks.get? key = some track ∧
      s ∈ track.coverage.inRange first last ∧ usageOf key track s = .ok usage := by
  obtain ⟨collected, entriesRead, rfl⟩ := (usageBetween_eq_ok_iff _ _ _ _ _).mp read
  obtain ⟨own, inCollected, inOwn⟩ :=
    List.mem_flatten.mp ((List.mergeSort_perm _ _).mem_iff.mp member)
  obtain ⟨⟨key, track⟩, owned, ofEntry⟩ := exists_of_mem_forall₂ entriesRead inCollected
  obtain ⟨s, clipped, made⟩ := exists_of_mem_forall₂ ((mapM_eq_ok_iff _ _ _).mp ofEntry) inOwn
  obtain ⟨inEntries, ofTenant⟩ := List.mem_filter.mp owned
  exact ⟨key, track, s, by simpa using ofTenant,
    (sound.unique.mem_entries_iff key track).mp inEntries, clipped, made⟩

/-- The reading order tells apart what is read back. -/
theorem Sound.eq_of_compareReading
    (sound : r.Sound)
    (read : r.usageBetween tenant first last = .ok usages)
    {a b : UsageRecord}
    (aMember : a ∈ usages)
    (bMember : b ∈ usages)
    (level : compareReading a b = .eq) :
    a = b := by
  obtain ⟨key, track, s, ofTenant, found, sClipped, aMade⟩ :=
    sound.exists_of_mem_usageBetween read aMember
  obtain ⟨key', track', t, ofTenant', found', tClipped, bMade⟩ :=
    sound.exists_of_mem_usageBetween read bMember
  have ofS := usageOf_of_usageOf_eq_ok aMade
  have ofT := usageOf_of_usageOf_eq_ok bMade
  obtain ⟨samePosition, sameRecordKey⟩ := of_compareReading_eq tenant level
  have sameKey : key = key' := by
    rw [← ofS.sameKey, ← ofT.sameKey, ofTenant, ofTenant', sameRecordKey]
  subst sameKey
  obtain rfl : track = track' := Option.some.inj (found.symm.trans found')
  have ordered := (sound.kept key track found).1.ordered.inRange first last
  have sameFirst : s.first = t.first := by
    rw [← ofS.start, ← ofT.start]
    simp only [Instant.position, ofS.wholeStart, ofT.wholeStart] at samePosition
    omega
  have sameSegment : s = t :=
    ordered.eq_of_holds sClipped tClipped ⟨Int.le_refl _, ordered.inhabited s sClipped⟩
      ⟨by omega, by rw [sameFirst]; exact ordered.inhabited t tClipped⟩
  subst sameSegment
  exact Except.ok.inj (aMade.symm.trans bMade)

private theorem Same.shownEntries
    (same : r.Same r')
    (sound : r.Sound)
    (sound' : r'.Sound)
    (tenant : String) :
    (Table.mapEntries Track.shown
        (r.tracks.entries.filter fun entry => entry.1.tenant == tenant)).Perm
      (Table.mapEntries Track.shown
        (r'.tracks.entries.filter fun entry => entry.1.tenant == tenant)) := by
  have permuted := sound.unique.perm_mapEntries sound'.unique Track.shown same.tracks
  have owned := permuted.filter fun entry => entry.1.tenant == tenant
  simpa only [Table.mapEntries, List.filter_map, Function.comp_def] using owned

/-- Reading entries does not see more of a track than its key shows. -/
private theorem read_mapEntries_iff
    (first last : Int)
    (entries : List (UsageKey × Track))
    (collected : List (List UsageRecord)) :
    List.Forall₂ (fun entry usages =>
        (entry.2.coverage.inRange first last).mapM (usageOf entry.1 entry.2) = .ok usages)
        (Table.mapEntries Track.shown entries) collected ↔
      List.Forall₂ (fun entry usages =>
        (entry.2.coverage.inRange first last).mapM (usageOf entry.1 entry.2) = .ok usages)
        entries collected := by
  have sameUsage : ∀ key track, usageOf key (Track.shown key track) = usageOf key track :=
    fun key track => funext (usageOf_shown key track)
  rw [Table.mapEntries, List.forall₂_map_left_iff]
  simp only [Track.coverage_shown, sameUsage]

theorem Same.usageBetween
    (same : r.Same r')
    (sound : r.Sound)
    (sound' : r'.Sound)
    (read : r.usageBetween tenant first last = .ok usages) :
    r'.usageBetween tenant first last = .ok usages := by
  obtain ⟨collected, entriesRead, readInOrder⟩ := (usageBetween_eq_ok_iff _ _ _ _ _).mp read
  rw [← read_mapEntries_iff] at entriesRead
  have entries := (same.shownEntries sound sound' tenant).symm
  obtain ⟨collected', entriesRead', permuted⟩ := List.perm_comp_forall₂ entries entriesRead
  rw [read_mapEntries_iff] at entriesRead'
  refine (usageBetween_eq_ok_iff _ _ _ _ _).mpr ⟨collected', entriesRead', ?_⟩
  subst readInOrder
  apply mergeSort_eq_of_perm readingOrder_eq_isLE permuted.flatten.symm
  intro a aMember b bMember level
  have inReading := List.mergeSort_perm collected.flatten readingOrder
  exact sound.eq_of_compareReading read (inReading.mem_iff.mpr aMember)
    (inReading.mem_iff.mpr bMember) level

theorem Same.usageIn_eq_ok_iff
    (same : r.Same r')
    (sound : r.Sound)
    (sound' : r'.Sound)
    (tenant : String)
    (w : Window)
    (usages : List UsageRecord) :
    r.usageIn tenant w = .ok usages ↔ r'.usageIn tenant w = .ok usages := by
  cases stops : w.stop with
  | error failure => simp [usageIn, stops, bind, Except.bind]
  | ok stop =>
    rw [Reconciler.usageIn_eq_ok_iff stops, Reconciler.usageIn_eq_ok_iff stops]
    exact ⟨same.usageBetween sound sound', same.symm.usageBetween sound' sound⟩

end Reconciler

end UsageBilling

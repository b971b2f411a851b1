import UsageBilling.Proofs.Coverage.Clipping
import UsageBilling.Proofs.Reconciler.Tracks
import UsageBilling.Proofs.Traversal
import UsageBilling.Proofs.Window.Timeline

/-!
Contract: what is read back from a reconciler.

Owns:
- the usage of one segment, and when there is one;
- the usage of a key among that of its tenant: one record for each clipped
  segment of the key;
- reading a window of whole seconds.

Does not own: how the coverage came to be.
-/

namespace UsageBilling

/-- The usage of a key among the usage of its tenant. -/
def UsageKey.among (key : UsageKey) (usages : List UsageRecord) : List UsageRecord :=
  usages.filter fun usage => UsageKey.ofRecord key.tenant usage = key

namespace Reconciler

open Coverage (Ordered ordered_nil bounds_of_mem_inRange weighs_inRange_iff)

variable {r : Reconciler} {key : UsageKey} {track : Track} {s : Segment}
  {usage : UsageRecord} {usages : List UsageRecord} {first last : Int}

/-! ## The usage of one segment -/

/-- A record is the usage of a segment: it is of the key, lasts from the first
second of the segment to the end of the last one, and has its volume. -/
structure UsageOf (key : UsageKey) (unit : RateUnit) (s : Segment) (usage : UsageRecord) :
    Prop where
  sameKey : UsageKey.ofRecord key.tenant usage = key
  start : usage.start.timestamp = s.first
  wholeStart : usage.start.nanos = 0
  stop : usage.stop.timestamp = s.last + 1
  wholeStop : usage.stop.nanos = 0
  volume : volumeOf unit s = .ok usage.volume

theorem instantOf_eq_ok_iff
    (seconds : Int)
    (t : Instant) :
    instantOf seconds = .ok t ↔ t.timestamp = seconds ∧ t.nanos = 0 := by
  rw [instantOf, ← Instant.ofTimestamp?_eq_some_iff]
  cases Instant.ofTimestamp? seconds 0 <;> simp

theorem usageOf_eq_ok_iff
    (key : UsageKey)
    (track : Track)
    (s : Segment)
    (usage : UsageRecord) :
    usageOf key track s = .ok usage ↔
      ∃ volume start stop, volumeOf track.unit s = .ok volume ∧ instantOf s.first = .ok start ∧
        instantOf (s.last + 1) = .ok stop ∧
        usage = if key.resource = "" then .ofService key.service start stop volume
          else (UsageRecord.ofService key.service start stop volume).withResource key.resource
            track.resourceName := by
  unfold usageOf
  cases volumeOf track.unit s with
  | error error => simp [bind, Except.bind]
  | ok volume =>
    cases instantOf s.first with
    | error error => simp [bind, Except.bind]
    | ok start =>
      cases instantOf (s.last + 1) with
      | error error => simp [bind, Except.bind]
      | ok stop =>
        simp only [bind, Except.bind, pure, Except.pure, Except.ok.injEq]
        constructor
        · rintro rfl
          exact ⟨volume, start, stop, rfl, rfl, rfl, rfl⟩
        · rintro ⟨_, _, _, rfl, rfl, rfl, rfl⟩
          rfl

theorem usageOf_of_usageOf_eq_ok
    (made : usageOf key track s = .ok usage) :
    UsageOf key track.unit s usage := by
  obtain ⟨volume, start, stop, measured, starts, stops, rfl⟩ :=
    (usageOf_eq_ok_iff _ _ _ _).mp made
  obtain ⟨begins, beginsWhole⟩ := (instantOf_eq_ok_iff _ _).mp starts
  obtain ⟨ends, endsWhole⟩ := (instantOf_eq_ok_iff _ _).mp stops
  obtain ⟨tenant, resource, service⟩ := key
  by_cases nameless : resource = ""
  · subst nameless
    exact ⟨rfl, begins, beginsWhole, ends, endsWhole, measured⟩
  · rw [if_neg nameless]
    exact ⟨rfl, begins, beginsWhole, ends, endsWhole, measured⟩

/-- Usage of a resource has the name that is kept for it. -/
theorem resourceName_of_usageOf_eq_ok
    (made : usageOf key track s = .ok usage)
    (named : key.resource ≠ "") :
    usage.resourceName = track.resourceName := by
  obtain ⟨volume, start, stop, _, _, _, rfl⟩ := (usageOf_eq_ok_iff _ _ _ _).mp made
  rw [if_neg named]
  rfl

theorem exists_usageOf
    {low high : Instant}
    (lower : low.timestamp ≤ s.first)
    (inhabited : s.first ≤ s.last)
    (upper : s.last + 1 ≤ high.timestamp)
    {volume : Decimal}
    (measured : volumeOf track.unit s = .ok volume) :
    ∃ usage, usageOf key track s = .ok usage := by
  obtain ⟨start, begins⟩ := Instant.exists_ofTimestamp? s.first lower
    (by omega : s.first ≤ high.timestamp)
  obtain ⟨stop, ends⟩ := Instant.exists_ofTimestamp? (s.last + 1)
    (by omega : low.timestamp ≤ s.last + 1) upper
  refine ⟨_, (usageOf_eq_ok_iff _ _ _ _).mpr ⟨volume, start, stop, measured, ?_, ?_, rfl⟩⟩
  · rw [instantOf, begins]
  · rw [instantOf, ends]

/-! ## The usage of a key -/

def segmentsOf (r : Reconciler) (key : UsageKey) (first last : Int) : List Segment :=
  match r.tracks.get? key with
  | some track => track.coverage.inRange first last
  | none => []

private theorem among_append
    (key : UsageKey)
    (left right : List UsageRecord) :
    key.among (left ++ right) = key.among left ++ key.among right :=
  List.filter_append left right

/-- What the entries of a tenant are read back as: the usage of a key comes from
the entry of the key alone. -/
private theorem among_flatten
    (key : UsageKey)
    {entries : List (UsageKey × Track)}
    {read : List (List UsageRecord)}
    (unique : (entries.map Prod.fst).Nodup)
    (owned : ∀ entry ∈ entries, entry.1.tenant = key.tenant)
    (entriesRead : List.Forall₂ (fun entry usages =>
      (entry.2.coverage.inRange first last).mapM (usageOf entry.1 entry.2) = .ok usages)
      entries read) :
    match Table.lookup key entries with
    | some track => (track.coverage.inRange first last).mapM (usageOf key track) =
        .ok (key.among read.flatten)
    | none => key.among read.flatten = [] := by
  induction entriesRead with
  | nil => rfl
  | @cons entry usages entries read headRead _ inductionHypothesis =>
    obtain ⟨other, track⟩ := entry
    obtain ⟨fresh, restUnique⟩ := List.nodup_cons.mp unique
    simp only [List.mem_cons, forall_eq_or_imp] at owned
    have restRead := inductionHypothesis restUnique owned.2
    have ofHead : ∀ usage ∈ usages, UsageKey.ofRecord key.tenant usage = other := by
      intro usage member
      obtain ⟨s, _, made⟩ := exists_of_mem_forall₂ ((mapM_eq_ok_iff _ _ _).mp headRead) member
      exact owned.1 ▸ (usageOf_of_usageOf_eq_ok made).sameKey
    rw [List.flatten_cons, among_append, Table.lookup]
    by_cases sameKey : other = key
    · subst sameKey
      rw [(Table.lookup_eq_none_iff other entries).mpr fresh] at restRead
      have wholeHead : other.among usages = usages :=
        List.filter_eq_self.mpr (by simpa using ofHead)
      rw [if_pos rfl, restRead, wholeHead, List.append_nil]
      exact headRead
    · have headEmpty : key.among usages = [] := by
        rw [UsageKey.among, List.filter_eq_nil_iff]
        intro usage member
        simp [ofHead usage member, sameKey]
      rw [if_neg sameKey, headEmpty, List.nil_append]
      exact restRead

/-- The usage of a tenant is that of its entries, in reading order. -/
theorem usageBetween_eq_ok_iff
    (tenant : String)
    (first last : Int)
    (usages : List UsageRecord)
    (r : Reconciler) :
    r.usageBetween tenant first last = .ok usages ↔
      ∃ collected, List.Forall₂ (fun entry own =>
          (entry.2.coverage.inRange first last).mapM (usageOf entry.1 entry.2) = .ok own)
        (r.tracks.entries.filter fun entry => entry.1.tenant == tenant) collected ∧
        usages = collected.flatten.mergeSort readingOrder := by
  simp only [← mapM_eq_ok_iff]
  unfold usageBetween
  cases entriesRead : (r.tracks.entries.filter fun entry => entry.1.tenant == tenant).mapM
      (fun entry => (entry.2.coverage.inRange first last).mapM (usageOf entry.1 entry.2)) with
  | error error => simp [entriesRead, bind, Except.bind]
  | ok collected => simp [entriesRead, bind, Except.bind, pure, Except.pure, eq_comm]

/-- The usage of a key is one record for each of its segments. -/
theorem Sound.among_usageBetween
    (sound : r.Sound)
    (key : UsageKey)
    (read : r.usageBetween key.tenant first last = .ok usages) :
    ∃ own, (key.among usages).Perm own ∧
      List.Forall₂ (fun s usage => ∃ track, r.tracks.get? key = some track ∧
        UsageOf key track.unit s usage) (r.segmentsOf key first last) own := by
  obtain ⟨collected, entriesRead, rfl⟩ := (usageBetween_eq_ok_iff _ _ _ _ _).mp read
  refine ⟨key.among collected.flatten, (List.mergeSort_perm _ _).filter _, ?_⟩
  have ofEntry := among_flatten key
    (sound.unique.sublist (List.filter_sublist.map Prod.fst)) (by simp) entriesRead
  rw [Table.lookup_filter (by simp)] at ofEntry
  change match r.tracks.get? key with
    | some track => _
    | none => _ at ofEntry
  rw [segmentsOf]
  cases found : r.tracks.get? key with
  | none =>
    rw [found] at ofEntry
    rw [ofEntry]
    exact List.Forall₂.nil
  | some track =>
    rw [found] at ofEntry
    refine ((mapM_eq_ok_iff _ _ _).mp ofEntry).imp fun s usage made => ?_
    exact ⟨track, rfl, usageOf_of_usageOf_eq_ok made⟩

/-- Usage on the timeline is read back if every segment has a volume. -/
theorem Sound.exists_usageBetween
    (sound : r.Sound)
    {low high : Instant}
    (inhabited : low.timestamp ≤ high.timestamp - 1)
    (tenant : String)
    (measured : ∀ key track, r.tracks.get? key = some track →
      ∀ s ∈ track.coverage.inRange low.timestamp (high.timestamp - 1),
        ∃ volume, volumeOf track.unit s = .ok volume) :
    ∃ usages, r.usageBetween tenant low.timestamp (high.timestamp - 1) = .ok usages := by
  obtain ⟨collected, read⟩ : ∃ collected,
      (r.tracks.entries.filter fun entry => entry.1.tenant == tenant).mapM (fun entry =>
        (entry.2.coverage.inRange low.timestamp (high.timestamp - 1)).mapM
          (usageOf entry.1 entry.2)) = .ok collected := by
    apply exists_mapM_eq_ok
    rintro ⟨key, track⟩ member
    have found := (sound.unique.mem_entries_iff key track).mp (List.mem_filter.mp member).1
    apply exists_mapM_eq_ok
    intro s clipped
    obtain ⟨lower, filled, upper⟩ :=
      bounds_of_mem_inRange (sound.kept key track found).1.ordered inhabited s clipped
    obtain ⟨volume, hasVolume⟩ := measured key track found s clipped
    have stopsInTime : s.last + 1 ≤ high.timestamp := by omega
    exact exists_usageOf lower filled stopsInTime hasVolume
  exact ⟨_, (usageBetween_eq_ok_iff _ _ _ _ r).mpr
    ⟨collected, (mapM_eq_ok_iff _ _ _).mp read, rfl⟩⟩

/-! ## The segments of a key -/

theorem Sound.ordered_segmentsOf
    (sound : r.Sound)
    (key : UsageKey)
    (first last : Int) :
    Ordered (r.segmentsOf key first last) := by
  rw [segmentsOf]
  cases found : r.tracks.get? key with
  | none => exact ordered_nil
  | some track => exact (sound.kept key track found).1.ordered.inRange first last

theorem Sound.bounds_of_mem_segmentsOf
    (sound : r.Sound)
    (inhabited : first ≤ last)
    (member : s ∈ r.segmentsOf key first last) :
    first ≤ s.first ∧ s.first ≤ s.last ∧ s.last ≤ last := by
  rw [segmentsOf] at member
  cases found : r.tracks.get? key with
  | none => simp [found] at member
  | some track =>
    rw [found] at member
    exact bounds_of_mem_inRange (sound.kept key track found).1.ordered inhabited s member

theorem Sound.weighs_segmentsOf_iff
    (sound : r.Sound)
    (inhabited : first ≤ last)
    (key : UsageKey)
    (second weight : Int) :
    Coverage.Weighs (r.segmentsOf key first last) second weight ↔
      (first ≤ second ∧ second ≤ last) ∧ r.Weighs key second weight := by
  rw [segmentsOf, Weighs]
  cases found : r.tracks.get? key with
  | none => simp
  | some track =>
    rw [weighs_inRange_iff (sound.kept key track found).1.ordered inhabited]
    simp

/-! ## Windows -/

/-- Reading a window that stops on the timeline is reading its seconds. -/
theorem usageIn_eq_ok_iff
    {w : Window}
    {stop : Instant}
    (stops : w.stop = .ok stop)
    (tenant : String) :
    r.usageIn tenant w = .ok usages ↔
      r.usageBetween tenant w.start.timestamp (stop.timestamp - 1) = .ok usages := by
  unfold usageIn
  rw [stops]
  simp only [bind, Except.bind]
  cases r.usageBetween tenant w.start.timestamp (stop.timestamp - 1) with
  | error error => simp [Outcome.report]
  | ok read => simp [pure, Except.pure]

theorem exists_stop_of_usageIn
    {w : Window}
    {tenant : String}
    (read : r.usageIn tenant w = .ok usages) :
    ∃ stop, w.stop = .ok stop := by
  cases stops : w.stop with
  | ok stop => exact ⟨stop, rfl⟩
  | error failure =>
    rw [usageIn, stops] at read
    cases read

theorem Sound.bounds_of_mem_usageIn
    (sound : r.Sound)
    {w : Window}
    (whole : w.Whole)
    {stop : Instant}
    (stops : w.stop = .ok stop)
    {tenant : String}
    (read : r.usageIn tenant w = .ok usages)
    (member : usage ∈ usages) :
    w.start ≤ usage.start ∧ usage.start < usage.stop ∧ usage.stop ≤ stop := by
  obtain ⟨ends, _⟩ := whole.stop_eq_ok_iff.mp stops
  have positive := whole.width
  have inhabited : w.start.timestamp ≤ stop.timestamp - 1 := by omega
  let key := UsageKey.ofRecord tenant usage
  obtain ⟨own, sameUsage, ofSegments⟩ := sound.among_usageBetween key
    ((usageIn_eq_ok_iff stops tenant).mp read)
  have inOwn : usage ∈ own :=
    sameUsage.mem_iff.mp (List.mem_filter.mpr ⟨member, by simp [key, UsageKey.ofRecord]⟩)
  obtain ⟨s, inSegments, track, _, ofSegment⟩ := exists_of_mem_forall₂ ofSegments inOwn
  obtain ⟨lower, filled, upper⟩ := sound.bounds_of_mem_segmentsOf inhabited inSegments
  rw [Instant.le_iff_of_whole whole.start, Instant.lt_iff_of_whole ofSegment.wholeStop,
    Instant.le_iff_of_whole ofSegment.wholeStop, ofSegment.start, ofSegment.stop]
  omega

end Reconciler

end UsageBilling

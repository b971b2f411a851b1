import UsageBilling.Proofs.Reconciler.Commutation
import UsageBilling.Proofs.Reconciler.Windows

/-!
Contract: a reconciler that tracks one key.

Owns:
- restoring and recording in it, as steps on its track;
- seconds that a track covers, which are read back as one record each.

Does not own: several keys, which do not see each other.
-/

namespace UsageBilling

open Reconciler (segment?)

/-- The track once usage of its key is recorded. Usage without a weight is left
out. -/
def Track.take (track : Track) (u : UsageRecord × RateUnit) : Track :=
  match segment? u with
  | some s => track.add s u.1.resourceName
  | none => track

def Track.takeAll (entries : List (UsageRecord × RateUnit)) (track : Track) : Track :=
  entries.foldl Track.take track

namespace Reconciler

variable {deviation : Nat} {key : UsageKey} {track : Track} {tenant : String}
  {u v : UsageRecord × RateUnit}

def only (deviation : Nat) (key : UsageKey) (track : Track) : Reconciler :=
  ⟨deviation, ⟨[(key, track)]⟩⟩

theorem take_only
    (deviation : Nat)
    (track : Track)
    (ofKey : UsageKey.ofRecord tenant u.1 = key) :
    (only deviation key track).take tenant u = only deviation key (track.take u) := by
  subst ofKey
  unfold take Track.take
  cases found : segment? u with
  | none => rfl
  | some s =>
    obtain ⟨_, weight, _, rfl⟩ := (segment?_eq_some_iff u s).mp found
    simp [keep, only, trackOf, Table.get?, Table.lookup, Table.insert, Table.put, segmentOf]

theorem kept_take
    (kept : track.coverage.Kept)
    (u : UsageRecord × RateUnit) :
    (track.take u).coverage.Kept ∧
      (track.take u).coverage.deviation = track.coverage.deviation := by
  unfold Track.take
  cases found : segment? u with
  | none => exact ⟨kept, rfl⟩
  | some s =>
    obtain ⟨reaches, weight, _, rfl⟩ := (segment?_eq_some_iff u s).mp found
    exact ⟨kept.insertSegment (inhabited_segmentOf reaches weight), rfl⟩

theorem unit_take
    (track : Track)
    (u : UsageRecord × RateUnit) :
    (track.take u).unit = track.unit := by
  unfold Track.take
  cases segment? u <;> rfl

theorem takeAll_only
    {entries : List (UsageRecord × RateUnit)}
    (deviation : Nat)
    (track : Track)
    (ofKey : ∀ u ∈ entries, UsageKey.ofRecord tenant u.1 = key) :
    (only deviation key track).takeAll tenant entries =
      only deviation key (track.takeAll entries) := by
  induction entries generalizing track with
  | nil => rfl
  | cons u rest inductionHypothesis =>
    have restTaken := inductionHypothesis (track.take u)
      fun v member => ofKey v (List.mem_cons_of_mem u member)
    rw [← take_only deviation track (ofKey u List.mem_cons_self)] at restTaken
    exact restTaken

theorem kept_takeAll
    (kept : track.coverage.Kept)
    (entries : List (UsageRecord × RateUnit)) :
    (track.takeAll entries).coverage.Kept ∧
      (track.takeAll entries).coverage.deviation = track.coverage.deviation := by
  induction entries generalizing track with
  | nil => exact ⟨kept, rfl⟩
  | cons u rest inductionHypothesis =>
    have ⟨nextKept, nextDeviation⟩ := kept_take kept u
    have ⟨restKept, restDeviation⟩ := inductionHypothesis nextKept
    exact ⟨restKept, restDeviation.trans nextDeviation⟩

theorem unit_takeAll
    (track : Track)
    (entries : List (UsageRecord × RateUnit)) :
    (track.takeAll entries).unit = track.unit := by
  induction entries generalizing track with
  | nil => rfl
  | cons u rest inductionHypothesis =>
    exact (inductionHypothesis (track.take u)).trans (unit_take track u)

/-! ## One second -/

/-- Whether a track covers a second with a weight that has a volume. -/
def Readable (track : Track) (second : Int) : Prop :=
  ∃ weight volume, Coverage.Weighs track.coverage.segments second weight ∧
    volumeOf track.unit ⟨second, second, weight⟩ = .ok volume

theorem exists_volumeOf_weight
    {usage : UsageRecord}
    {unit : RateUnit}
    {weight : Int}
    (weighed : weightOf usage unit = .ok weight)
    (unit' : RateUnit)
    (second : Int) :
    ∃ volume, volumeOf unit' ⟨second, second, weight⟩ = .ok volume := by
  cases unit' with
  | time => exact ⟨_, rfl⟩
  | quantity =>
    cases unit with
    | time =>
      cases weighed
      exact ⟨_, rfl⟩
    | quantity => exact exists_volumeOf weighed

theorem readable_take_of_within
    (kept : track.coverage.Kept)
    {s : Segment}
    (found : segment? u = some s)
    {second : Int}
    (within : Coverage.Within s second) :
    Readable (track.take u) second := by
  obtain ⟨reaches, weight, weighed, rfl⟩ := (segment?_eq_some_iff u s).mp found
  obtain ⟨volume, measured⟩ := exists_volumeOf_weight weighed track.unit second
  refine ⟨weight, volume, ?_, (unit_take track u).symm ▸ measured⟩
  rw [Track.take, found]
  exact kept.weighs_insertSegment_of_within (inhabited_segmentOf reaches weight) within

theorem Readable.take
    {second : Int}
    (readable : Readable track second)
    (kept : track.coverage.Kept)
    (u : UsageRecord × RateUnit) :
    Readable (track.take u) second := by
  cases found : segment? u with
  | none =>
    rw [Track.take, found]
    exact readable
  | some s =>
    by_cases within : Coverage.Within s second
    · exact readable_take_of_within kept found within
    · obtain ⟨weight, volume, weighs, measured⟩ := readable
      obtain ⟨reaches, _, _, rfl⟩ := (segment?_eq_some_iff u s).mp found
      refine ⟨weight, volume, ?_, (unit_take track u).symm ▸ measured⟩
      rw [Track.take, found]
      exact kept.weighs_insertSegment_of_not_within (inhabited_segmentOf reaches _) within weighs

theorem exists_firstSecond
    {usage : UsageRecord}
    (reaches : Reaches usage) :
    ∃ (w : Window) (stop : Instant), w.Whole ∧ w.width = 1 ∧ w.stop = .ok stop ∧
      w.start.timestamp = usage.start.timestamp := by
  obtain ⟨start, begun⟩ := Instant.exists_ofTimestamp? usage.start.timestamp (Int.le_refl _)
    (Int.le_of_lt reaches)
  obtain ⟨begins, beginsWhole⟩ := (Instant.ofTimestamp?_eq_some_iff _ _).mp begun
  obtain ⟨stop, ended⟩ := Instant.exists_ofTimestamp? (usage.start.timestamp + 1)
    (by omega : usage.start.timestamp ≤ usage.start.timestamp + 1) reaches
  have whole : (⟨start, 1⟩ : Window).Whole := ⟨beginsWhole, Int.one_pos⟩
  refine ⟨⟨start, 1⟩, stop, whole, rfl, ?_, begins⟩
  rw [whole.stop_eq_ok_iff, ← Instant.ofTimestamp?_eq_some_iff, begins]
  exact ended

/-- A second that a track covers is read back as one record, with the name that
the track has. -/
theorem exists_usageIn_only
    (kept : track.coverage.Kept)
    {w : Window}
    (whole : w.Whole)
    (oneSecond : w.width = 1)
    {stop : Instant}
    (stops : w.stop = .ok stop)
    (readable : Readable track w.start.timestamp) :
    ∃ usage, (only deviation key track).usageIn key.tenant w = .ok [usage] ∧
      UsageKey.ofRecord key.tenant usage = key ∧
      (key.resource ≠ "" → usage.resourceName = track.resourceName) := by
  obtain ⟨weight, volume, weighs, measured⟩ := readable
  obtain ⟨ends, _⟩ := whole.stop_eq_ok_iff.mp stops
  have lastSecond : stop.timestamp - 1 = w.start.timestamp := by omega
  have upper : w.start.timestamp + 1 ≤ stop.timestamp := by omega
  obtain ⟨usage, made⟩ : ∃ usage,
      usageOf key track ⟨w.start.timestamp, w.start.timestamp, weight⟩ = .ok usage :=
    exists_usageOf (Int.le_refl _) (Int.le_refl _) upper measured
  refine ⟨usage, ?_, (usageOf_of_usageOf_eq_ok made).sameKey,
    resourceName_of_usageOf_eq_ok made⟩
  rw [usageIn_eq_ok_iff stops, lastSecond, usageBetween_eq_ok_iff]
  refine ⟨[[usage]], ?_, by simp⟩
  simp [only, Coverage.inRange_point kept.ordered weighs, made, bind, Except.bind, pure,
    Except.pure]

end Reconciler

end UsageBilling

import UsageBilling.Proofs.Reconciler.Deliveries
import UsageBilling.Proofs.Reconciler.Packing
import UsageBilling.Proofs.Reconciler.Reading

/-!
Contract: deliveries read back window by window.

Owns:
- usage that lasts for a whole window, which reaches into another second;
- windows of whole seconds are always read back;
- what a window shows of a key: one record for each of the segments that the
  latest deliveries leave in the window, none of which overlap.

Does not own: the volumes of the records, which differ by unit.
-/

namespace UsageBilling

namespace UsageRecord

def Apart (u v : UsageRecord) : Prop :=
  u.stop ≤ v.start ∨ v.stop ≤ u.start

def Holds (u : UsageRecord) (second : Int) : Prop :=
  u.start.timestamp ≤ second ∧ second < u.stop.timestamp

instance (u : UsageRecord) (second : Int) : Decidable (u.Holds second) :=
  inferInstanceAs (Decidable (_ ∧ _))

/-- Whether usage lasts for a window from its start to its end. -/
def Fills (u : UsageRecord) (w : Window) : Prop :=
  u.start = w.start ∧ w.stop = .ok u.stop

theorem Fills.reaches
    {u : UsageRecord}
    {w : Window}
    (fills : u.Fills w)
    (whole : w.Whole) :
    Reconciler.Reaches u := by
  have ⟨starts, stops⟩ := fills
  have ⟨ends, _⟩ := whole.stop_eq_ok_iff.mp stops
  have positive := whole.width
  rw [Reconciler.Reaches, starts, ends]
  omega

end UsageRecord

namespace Reconciler

open Coverage (Ordered mem_points_iff)
open Delivery

variable {r : Reconciler} {unit : RateUnit} {deliveries : List Delivery} {w : Window}
  {stop : Instant} {key : UsageKey} {usages own : List UsageRecord} {segments : List Segment}

/-! ## Reading a window -/

theorem exists_volumeOf
    {usage : UsageRecord}
    {s : Segment}
    (weighed : weightOf usage unit = .ok s.weight) :
    ∃ volume, volumeOf unit s = .ok volume := by
  cases unit with
  | time => exact ⟨_, rfl⟩
  | quantity =>
    obtain ⟨volume, unpacked, _⟩ := PackedQuantity.unpack_of_pack weighed
    exact ⟨volume, unpacked⟩

theorem Shows.exists_usageIn
    (shows : r.Shows unit deliveries)
    (whole : w.Whole)
    (stops : w.stop = .ok stop)
    (tenant : String) :
    ∃ usages, r.usageIn tenant w = .ok usages := by
  obtain ⟨ends, _⟩ := whole.stop_eq_ok_iff.mp stops
  have positive := whole.width
  simp only [usageIn_eq_ok_iff stops]
  apply shows.sound.exists_usageBetween (by omega)
  intro key track found s clipped
  have inSegments : s ∈ r.segmentsOf key w.start.timestamp (stop.timestamp - 1) := by
    rw [segmentsOf, found]
    exact clipped
  obtain ⟨lower, filled, upper⟩ := shows.sound.bounds_of_mem_segmentsOf (by omega) inSegments
  have weighed := (shows.sound.weighs_segmentsOf_iff (by omega) key s.first s.weight).mp
    ⟨s, inSegments, Int.le_refl _, filled, rfl⟩
  obtain ⟨d, _, packed⟩ := (shows.weighs key s.first s.weight).mp weighed.2
  rw [shows.sameUnit key track found]
  exact exists_volumeOf packed

/-- The segments that the deliveries of a key leave in a window. -/
structure Shown (unit : RateUnit) (deliveries : List Delivery) (key : UsageKey) (w : Window)
    (segments : List Segment) : Prop where
  ordered : Ordered segments
  lower : ∀ s ∈ segments, w.start.timestamp ≤ s.first
  upper : ∀ s ∈ segments, s.last < w.start.timestamp + w.width
  weighs : ∀ second weight, Coverage.Weighs segments second weight ↔
    second ∈ w.seconds ∧
      ∃ d, latest? deliveries key second = some d ∧ weightOf d.usage unit = .ok weight

/-- A window shows one record for each segment that the deliveries leave. -/
theorem Shows.among_usageIn
    (shows : r.Shows unit deliveries)
    (whole : w.Whole)
    (read : r.usageIn key.tenant w = .ok usages) :
    ∃ segments own, Shown unit deliveries key w segments ∧
      List.Forall₂ (UsageOf key unit) segments own ∧ (key.among usages).Perm own := by
  obtain ⟨stop, stops⟩ := exists_stop_of_usageIn read
  obtain ⟨ends, _⟩ := whole.stop_eq_ok_iff.mp stops
  have positive := whole.width
  have inhabited : w.start.timestamp ≤ stop.timestamp - 1 := by omega
  obtain ⟨own, sameUsage, ofSegments⟩ :=
    shows.sound.among_usageBetween key ((usageIn_eq_ok_iff stops key.tenant).mp read)
  refine ⟨r.segmentsOf key w.start.timestamp (stop.timestamp - 1), own,
    ⟨shows.sound.ordered_segmentsOf key _ _, ?_, ?_, ?_⟩, ?_, sameUsage⟩
  · intro s member
    exact (shows.sound.bounds_of_mem_segmentsOf inhabited member).1
  · intro s member
    have := (shows.sound.bounds_of_mem_segmentsOf inhabited member).2.2
    omega
  · intro second weight
    rw [shows.sound.weighs_segmentsOf_iff inhabited, shows.weighs, Window.seconds,
      Finset.mem_Ico]
    apply and_congr_left'
    omega
  · refine ofSegments.imp fun s usage => ?_
    rintro ⟨track, found, usageOf⟩
    exact shows.sameUnit key track found ▸ usageOf

/-! ## The records of a key -/

theorem pairwise_apart
    (ordered : Ordered segments)
    (ofSegments : List.Forall₂ (UsageOf key unit) segments own) :
    own.Pairwise UsageRecord.Apart := by
  apply pairwise_of_forall₂ ofSegments _ ordered.ascending
  intro s next usage later ofS ofNext before
  left
  rw [Instant.le_iff_of_whole ofS.wholeStop, ofS.stop, ofNext.start]
  omega

theorem length_filter_holds_le_one
    (apart : usages.Pairwise UsageRecord.Apart)
    (second : Int) :
    (usages.filter fun u => u.Holds second).length ≤ 1 := by
  have separate : (usages.filter fun u => u.Holds second).Pairwise fun _ _ => False := by
    refine (apart.sublist List.filter_sublist).imp_of_mem fun {u v} inLeft inRight between => ?_
    have left : u.Holds second := by simpa using (List.mem_filter.mp inLeft).2
    have right : v.Holds second := by simpa using (List.mem_filter.mp inRight).2
    simp only [UsageRecord.Holds] at left right
    rcases between with before | before
    · have := Instant.timestamp_le_of_le before
      omega
    · have := Instant.timestamp_le_of_le before
      omega
  cases holding : usages.filter fun u => u.Holds second with
  | nil => exact Nat.zero_le 1
  | cons u rest =>
    cases rest with
    | nil => exact Nat.le_refl 1
    | cons v rest =>
      rw [holding] at separate
      exact ((List.pairwise_cons.mp separate).1 v (by simp)).elim

theorem UsageOf.holds_iff
    {unit : RateUnit}
    {s : Segment}
    {usage : UsageRecord}
    (ofSegment : UsageOf key unit s usage)
    (second : Int) :
    usage.Holds second ↔ s.first ≤ second ∧ second ≤ s.last := by
  simp only [UsageRecord.Holds, ofSegment.start, ofSegment.stop]
  omega

/-- A second of a window is held by a record of a key exactly if some delivery of
the key holds it. -/
theorem Shows.exists_holds_iff
    (shows : r.Shows unit deliveries)
    (whole : w.Whole)
    (read : r.usageIn key.tenant w = .ok usages)
    {second : Int}
    (inWindow : second ∈ w.seconds) :
    (∃ usage ∈ key.among usages, usage.Holds second) ↔ Used deliveries key second := by
  obtain ⟨segments, own, shown, ofSegments, sameUsage⟩ := shows.among_usageIn whole read
  rw [used_iff_exists_latest?]
  constructor
  · rintro ⟨usage, member, holds⟩
    obtain ⟨s, inSegments, ofSegment⟩ :=
      exists_of_mem_forall₂ ofSegments (sameUsage.mem_iff.mp member)
    obtain ⟨first, last⟩ := (ofSegment.holds_iff second).mp holds
    obtain ⟨_, d, isLatest, _⟩ :=
      (shown.weighs second s.weight).mp ⟨s, inSegments, first, last, rfl⟩
    exact ⟨d, isLatest⟩
  · rintro ⟨d, isLatest⟩
    obtain ⟨member, _, lower, upper⟩ := of_latest?_eq_some isLatest
    obtain ⟨weight, packed⟩ := shows.weighed d member (Int.lt_of_le_of_lt lower upper)
    obtain ⟨s, inSegments, first, last, _⟩ :=
      (shown.weighs second weight).mpr ⟨inWindow, d, isLatest, packed⟩
    obtain ⟨usage, inOwn, ofSegment⟩ := exists_of_mem_forall₂ ofSegments.flip inSegments
    exact ⟨usage, sameUsage.mem_iff.mpr inOwn, (ofSegment.holds_iff second).mpr ⟨first, last⟩⟩

theorem Shows.exists_delivery
    (shows : r.Shows unit deliveries)
    (whole : w.Whole)
    {tenant : String}
    (read : r.usageIn tenant w = .ok usages)
    {usage : UsageRecord}
    (member : usage ∈ usages) :
    ∃ d ∈ deliveries, UsageKey.ofRecord tenant usage = d.key := by
  obtain ⟨segments, own, shown, ofSegments, sameUsage⟩ := shows.among_usageIn whole
    (show r.usageIn (UsageKey.ofRecord tenant usage).tenant w = .ok usages from read)
  have inOwn : usage ∈ own :=
    sameUsage.mem_iff.mp (List.mem_filter.mpr ⟨member, decide_eq_true rfl⟩)
  obtain ⟨s, inSegments, ofSegment⟩ := exists_of_mem_forall₂ ofSegments inOwn
  obtain ⟨_, d, isLatest, _⟩ := (shown.weighs s.first s.weight).mp
    ⟨s, inSegments, Int.le_refl _, shown.ordered.inhabited s inSegments, rfl⟩
  obtain ⟨delivered, sameKey, _⟩ := of_latest?_eq_some isLatest
  exact ⟨d, delivered, sameKey⟩

end Reconciler

end UsageBilling

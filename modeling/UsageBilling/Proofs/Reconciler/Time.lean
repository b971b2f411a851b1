import Mathlib.Algebra.BigOperators.Group.List.Basic
import Mathlib.Algebra.Ring.Rat
import Mathlib.Tactic.Linarith
import UsageBilling.Proofs.Decimal.Order
import UsageBilling.Proofs.Reconciler.Windows

/-!
Contract: time is billed for each second once.

Owns:
- the total volume of usage;
- the total volume of a key in a window: the number of its seconds that some
  delivery holds;
- the same for a run of windows, in which no second is lost and none is counted
  twice.

Does not own: usage that is billed by quantity.
-/

namespace UsageBilling

namespace UsageRecord

def totalVolume (usages : List UsageRecord) : ℚ :=
  (usages.map fun usage => usage.volume.toRat).sum

theorem totalVolume_append
    (left right : List UsageRecord) :
    totalVolume (left ++ right) = totalVolume left + totalVolume right := by
  simp [totalVolume]

theorem totalVolume_eq_of_perm
    {left right : List UsageRecord}
    (permutation : left.Perm right) :
    totalVolume left = totalVolume right :=
  (permutation.map _).sum_eq

end UsageRecord

namespace Reconciler

open Delivery UsageRecord

variable {r : Reconciler} {deliveries : List Delivery} {w first : Window} {key : UsageKey}
  {usages own : List UsageRecord} {segments : List Segment} {windows : List Window}

/-- The seconds of a segment that is read back lie on the timeline. -/
theorem UsageOf.natAbs_length_lt
    {unit : RateUnit}
    {s : Segment}
    {usage : UsageRecord}
    (ofSegment : UsageOf key unit s usage) :
    s.length.natAbs < 2 ^ 63 := by
  have startBound := usage.start.natAbs_timestamp_lt
  have stopBound := usage.stop.natAbs_timestamp_lt
  rw [ofSegment.start] at startBound
  rw [ofSegment.stop] at stopBound
  simp only [Segment.length]
  omega

theorem UsageOf.toRat_volume_time
    {s : Segment}
    {usage : UsageRecord}
    (ofSegment : UsageOf key .time s usage) :
    usage.volume.toRat = s.length := by
  have volume : usage.volume = Decimal.ofInt s.length := (Except.ok.inj ofSegment.volume).symm
  have onTimeline := ofSegment.natAbs_length_lt
  have fits : s.length.natAbs < Decimal.mantissaLimit := by
    simp only [Decimal.mantissaLimit]
    omega
  rw [volume, Decimal.toRat_ofInt fits]

theorem totalVolume_eq_totalLength
    (ofSegments : List.Forall₂ (UsageOf key .time) segments own) :
    totalVolume own = Coverage.totalLength segments := by
  induction ofSegments with
  | nil => simp [totalVolume, Coverage.totalLength]
  | @cons s usage segments own ofHead _ inductionHypothesis =>
    simp only [totalVolume, Coverage.totalLength] at inductionHypothesis
    simp only [totalVolume, Coverage.totalLength, List.map_cons, List.sum_cons,
      List.foldr_cons, ofHead.toRat_volume_time, inductionHypothesis]
    push_cast
    rfl

/-- A window bills time for each second of a key that some delivery holds. -/
theorem Shows.totalVolume_window
    (shows : r.Shows .time deliveries)
    (whole : w.Whole)
    (read : r.usageIn key.tenant w = .ok usages) :
    totalVolume (key.among usages) = (w.seconds.filter (Used deliveries key)).card := by
  obtain ⟨segments, own, shown, ofSegments, sameUsage⟩ := shows.among_usageIn whole read
  have points : Coverage.points segments = w.seconds.filter (Used deliveries key) := by
    ext second
    rw [Coverage.mem_points_iff, Finset.mem_filter, used_iff_exists_latest?]
    simp [shown.weighs, weightOf]
  rw [totalVolume_eq_of_perm sameUsage, totalVolume_eq_totalLength ofSegments,
    shown.ordered.totalLength_eq_card, points]
  rfl

theorem Shows.totalVolume_windows
    (shows : r.Shows .time deliveries)
    {read : List (List UsageRecord)}
    (whole : ∀ w ∈ windows, w.Whole)
    (windowsRead : List.Forall₂ (fun w usages => r.usageIn key.tenant w = .ok usages)
      windows read) :
    totalVolume (key.among read.flatten) =
      (windows.map fun w => (w.seconds.filter (Used deliveries key)).card).sum := by
  induction windowsRead with
  | nil => simp [totalVolume, UsageKey.among]
  | @cons w usages windows read headRead _ inductionHypothesis =>
    simp only [List.mem_cons, forall_eq_or_imp] at whole
    rw [List.flatten_cons, UsageKey.among, List.filter_append, totalVolume_append]
    have head := shows.totalVolume_window whole.1 headRead
    have later := inductionHypothesis whole.2
    rw [UsageKey.among] at head later
    rw [head, later, List.map_cons, List.sum_cons, Nat.cast_add]

/-- The usage of a key in a window shares the window out: no two records
overlap, none leaves the window, and together they do not exceed its width. -/
structure SharesOut (key : UsageKey) (w : Window) (usages : List UsageRecord) : Prop where
  apart : (key.among usages).Pairwise Apart
  within : ∃ stop, w.stop = .ok stop ∧ ∀ usage ∈ key.among usages,
    w.start ≤ usage.start ∧ usage.start < usage.stop ∧ usage.stop ≤ stop
  bounded : totalVolume (key.among usages) ≤ w.width

theorem Shows.sharesOut
    (shows : r.Shows .time deliveries)
    (whole : w.Whole)
    {stop : Instant}
    (stops : w.stop = .ok stop)
    (read : r.usageIn key.tenant w = .ok usages) :
    SharesOut key w usages := by
  obtain ⟨segments, own, shown, ofSegments, sameUsage⟩ := shows.among_usageIn whole read
  refine ⟨?_, ⟨stop, stops, ?_⟩, ?_⟩
  · exact (sameUsage.pairwise_iff Or.symm).mpr (pairwise_apart shown.ordered ofSegments)
  · intro usage member
    exact shows.sound.bounds_of_mem_usageIn whole stops read (List.mem_filter.mp member).1
  · rw [shows.totalVolume_window whole read]
    have fewer := Finset.card_filter_le w.seconds (Used deliveries key)
    have positive := whole.width
    rw [Window.seconds, Int.card_Ico] at fewer
    have bounded : ((w.seconds.filter (Used deliveries key)).card : Int) ≤ w.width := by
      rw [Window.seconds]
      omega
    exact_mod_cast bounded

/-- Whatever time is delivered, and in whatever order, a run of windows bills
each second that some delivery of a key holds, and bills it once. -/
theorem totalVolume_time_eq_card_used
    {deviation : Nat}
    (small : deviation ≤ 1)
    (deliveries : List Delivery)
    (key : UsageKey)
    {t : Instant}
    {width : Int}
    (made : Window.ofWidth t width = .ok first)
    {count : Nat}
    (run : Window.successive count first = .ok windows) :
    ∃ r read, (empty deviation).recordEach .time deliveries = .ok r ∧
      windows.mapM (r.usageIn key.tenant) = .ok read ∧
      totalVolume (key.among read.flatten) =
        ((windows.toFinset.biUnion Window.seconds).filter (Used deliveries key)).card ∧
      List.Forall₂ (SharesOut key) windows read := by
  obtain ⟨r, recorded⟩ := exists_recordEach_time deliveries (empty deviation)
  have shows : r.Shows .time deliveries := by
    simpa using (shows_empty small .time).recordEach recorded
  have firstWhole := (Window.whole_of_ofWidth made).1
  have whole : ∀ w ∈ windows, w.Whole := fun w member =>
    (firstWhole.of_mem_successive run w member).1
  obtain ⟨read, windowsRead⟩ : ∃ read, windows.mapM (r.usageIn key.tenant) = .ok read := by
    apply exists_mapM_eq_ok
    intro w member
    obtain ⟨_, _, _, stop, stops⟩ := firstWhole.of_mem_successive run w member
    exact shows.exists_usageIn (whole w member) stops key.tenant
  have pairs := (mapM_eq_ok_iff _ _ _).mp windowsRead
  refine ⟨r, read, recorded, windowsRead, ?_, ?_⟩
  · rw [shows.totalVolume_windows whole pairs,
      Window.sum_card_filter_seconds (firstWhole.pairwise_successive run)]
  · have paired := (List.forall₂_and_left windows read).mpr ⟨fun _ member => member, pairs⟩
    refine paired.imp fun w usages => ?_
    rintro ⟨member, windowRead⟩
    obtain ⟨_, _, _, stop, stops⟩ := firstWhole.of_mem_successive run w member
    exact shows.sharesOut (whole w member) stops windowRead

def timeDelivery (start stop : Fin 86400) : Delivery :=
  ⟨"acme", ⟨"volume.hours", .ofSecond start, .ofSecond stop, .zero, some "vol-1", none⟩⟩

/-- Two deliveries that overlap, and the first of them again: of eight seconds in
two windows, five are billed. -/
theorem totalVolume_redelivered_time :
    ∃ r read,
      (empty 1).recordEach .time [timeDelivery 1 3, timeDelivery 2 6, timeDelivery 1 3] = .ok r ∧
        [⟨.ofSecond 0, 4⟩, ⟨.ofSecond 4, 4⟩].mapM (r.usageIn "acme") = .ok read ∧
        totalVolume ((timeDelivery 1 3).key.among read.flatten) = 5 := by
  have made : Window.ofWidth (.ofSecond 2) 4 = .ok ⟨.ofSecond 0, 4⟩ := rfl
  have run : Window.successive 2 ⟨.ofSecond 0, 4⟩ =
      .ok [⟨.ofSecond 0, 4⟩, ⟨.ofSecond 4, 4⟩] := rfl
  obtain ⟨r, read, recorded, windowsRead, total, _⟩ := totalVolume_time_eq_card_used
    (Nat.le_refl 1) [timeDelivery 1 3, timeDelivery 2 6, timeDelivery 1 3]
    (timeDelivery 1 3).key made run
  refine ⟨r, read, recorded, windowsRead, total.trans ?_⟩
  have five : ((([⟨.ofSecond 0, 4⟩, ⟨.ofSecond 4, 4⟩] : List Window).toFinset.biUnion
      Window.seconds).filter (Used [timeDelivery 1 3, timeDelivery 2 6, timeDelivery 1 3]
        (timeDelivery 1 3).key)).card = 5 := by
    decide +kernel
  rw [five]
  rfl

end Reconciler

end UsageBilling

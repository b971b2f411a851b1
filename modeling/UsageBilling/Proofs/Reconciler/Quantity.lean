import UsageBilling.Proofs.Reconciler.Windows

/-!
Contract: quantities are billed as they were last delivered.

Owns:
- the volume of a record: that of the latest delivery for each of its seconds.

Does not own: usage that is billed by time.
-/

namespace UsageBilling.Reconciler

open Delivery

variable {r : Reconciler} {deliveries : List Delivery} {w : Window} {key : UsageKey}
  {usages own : List UsageRecord} {segments : List Segment}

theorem UsageOf.toRat_volume
    {s : Segment}
    {usage : UsageRecord}
    (ofSegment : UsageOf key .quantity s usage)
    {d : Delivery}
    (packed : weightOf d.usage .quantity = .ok s.weight) :
    usage.volume.toRat = d.usage.volume.toRat := by
  obtain ⟨unpacked, fromWeight, sameValue⟩ := PackedQuantity.unpack_of_pack packed
  have sameVolume : unpacked = usage.volume :=
    Except.ok.inj (fromWeight.symm.trans ofSegment.volume)
  exact sameVolume ▸ sameValue

/-- What a window shows of a second of a key: at most one record holds it, one
does exactly if a delivery holds it, and the record has the volume of the latest
such delivery. -/
structure ShowsLatest (deliveries : List Delivery) (key : UsageKey) (usages : List UsageRecord)
    (second : Int) : Prop where
  single : ((key.among usages).filter fun usage => usage.Holds second).length ≤ 1
  held : (∃ usage ∈ key.among usages, usage.Holds second) ↔ Used deliveries key second
  volume : ∀ usage ∈ key.among usages, usage.Holds second →
    ∃ d, latest? deliveries key second = some d ∧
      usage.volume.toRat = d.usage.volume.toRat

theorem Shows.showsLatest
    (shows : r.Shows .quantity deliveries)
    (whole : w.Whole)
    (read : r.usageIn key.tenant w = .ok usages)
    {second : Int}
    (inWindow : second ∈ w.seconds) :
    ShowsLatest deliveries key usages second := by
  obtain ⟨segments, own, shown, ofSegments, sameUsage⟩ := shows.among_usageIn whole read
  refine ⟨?_, shows.exists_holds_iff whole read inWindow, ?_⟩
  · apply length_filter_holds_le_one
    exact (sameUsage.pairwise_iff Or.symm).mpr (pairwise_apart shown.ordered ofSegments)
  · intro usage member holds
    obtain ⟨s, inSegments, ofSegment⟩ :=
      exists_of_mem_forall₂ ofSegments (sameUsage.mem_iff.mp member)
    obtain ⟨first, last⟩ := (ofSegment.holds_iff second).mp holds
    obtain ⟨_, d, isLatest, packed⟩ :=
      (shown.weighs second s.weight).mp ⟨s, inSegments, first, last, rfl⟩
    exact ⟨d, isLatest, ofSegment.toRat_volume packed⟩

/-- Whatever quantities were recorded, and in whatever order, a window shows the
latest delivery for each of its seconds, from the beginning of one second to the
beginning of another, and is read back wherever it stops on the timeline. -/
theorem usageIn_quantity_showsLatest
    {deviation : Nat}
    (small : deviation ≤ 1)
    (recorded : (empty deviation).recordEach .quantity deliveries = .ok r)
    (key : UsageKey)
    {t : Instant}
    {width : Int}
    (made : Window.ofWidth t width = .ok w) :
    ((∃ stop, w.stop = .ok stop) → ∃ usages, r.usageIn key.tenant w = .ok usages) ∧
      ∀ usages, r.usageIn key.tenant w = .ok usages →
        (∀ usage ∈ key.among usages, usage.start.nanos = 0 ∧ usage.stop.nanos = 0) ∧
          ∀ second ∈ w.seconds, ShowsLatest deliveries key usages second := by
  have shows : r.Shows .quantity deliveries := by
    simpa using (shows_empty small .quantity).recordEach recorded
  have whole := (Window.whole_of_ofWidth made).1
  refine ⟨?_, fun usages read => ⟨?_, ?_⟩⟩
  · rintro ⟨stop, stops⟩
    exact shows.exists_usageIn whole stops key.tenant
  · intro usage member
    obtain ⟨segments, own, _, ofSegments, sameUsage⟩ := shows.among_usageIn whole read
    obtain ⟨s, _, ofSegment⟩ := exists_of_mem_forall₂ ofSegments (sameUsage.mem_iff.mp member)
    exact ⟨ofSegment.wholeStart, ofSegment.wholeStop⟩
  · intro second inWindow
    exact shows.showsLatest whole read inWindow

def quantityDelivery (quantity : Int) (start stop : Fin 86400) : Delivery :=
  ⟨"acme", ⟨"volume.size", .ofSecond start, .ofSecond stop, .ofInt quantity, some "vol-1", none⟩⟩

/-- A correction in the middle of a delivery is what its second is billed as. -/
theorem usageIn_corrected_quantity :
    ∃ r usages,
      (empty 1).recordEach .quantity [quantityDelivery 20 0 6, quantityDelivery 7 2 4] = .ok r ∧
        r.usageIn "acme" ⟨.ofSecond 0, 4⟩ = .ok usages ∧
        ∃ usage ∈ (quantityDelivery 7 2 4).key.among usages,
          usage.Holds 3 ∧ usage.volume.toRat = (Decimal.ofInt 7).toRat := by
  obtain ⟨r, recorded⟩ : ∃ r, (empty 1).recordEach .quantity
      [quantityDelivery 20 0 6, quantityDelivery 7 2 4] = .ok r := ⟨_, rfl⟩
  have made : Window.ofWidth (.ofSecond 1) 4 = .ok ⟨.ofSecond 0, 4⟩ := rfl
  obtain ⟨readable, shown⟩ := usageIn_quantity_showsLatest (Nat.le_refl 1) recorded
    (quantityDelivery 7 2 4).key made
  obtain ⟨usages, read⟩ := readable ⟨.ofSecond 4, rfl⟩
  have atThree : ShowsLatest [quantityDelivery 20 0 6, quantityDelivery 7 2 4]
      (quantityDelivery 7 2 4).key usages 3 := (shown usages read).2 3 (by decide)
  obtain ⟨usage, member, holds⟩ := atThree.held.mpr (by decide)
  obtain ⟨d, isLatest, volume⟩ := atThree.volume usage member holds
  cases isLatest
  exact ⟨r, usages, recorded, read, usage, member, holds, volume⟩

end UsageBilling.Reconciler

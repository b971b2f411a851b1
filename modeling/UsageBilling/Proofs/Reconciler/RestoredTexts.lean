import UsageBilling.Proofs.Coverage.Overflow
import UsageBilling.Proofs.Reconciler.OneKey
import UsageBilling.Proofs.Reconciler.Snapshots
import UsageBilling.Proofs.Reconciler.Weights

/-!
Contract: billing goes on over a restored text, whatever the text is.

Owns:
- after any recording, the weights that are left of a text are weights of the
  text, whichever seconds they have come to;
- when a window can be read back from what was restored and recorded.

A text is taken in or dropped by its syntax, and a weight is looked at when it is
read back. A text with a weight of no quantity thus stops every window in which
the weight is left.

Does not own: texts that a store lost.
-/

namespace UsageBilling

open PackedQuantity (Unpacks)

/-! ## Weights left of a text -/

/-- An insertion brings no weight but its own. -/
theorem Coverage.Kept.exists_weighs_of_insertSegment
    {c : Coverage}
    {range : Segment}
    (kept : c.Kept)
    (inhabited : range.first ≤ range.last)
    {point weight : Int}
    (weighs : Weighs (c.insertSegment range).segments point weight) :
    range.weight = weight ∨ ∃ origin, Weighs c.segments origin weight := by
  have ofPainted : ∀ origin, Colouring.paint range (Weighs c.segments) origin weight →
      range.weight = weight ∨ ∃ origin, Weighs c.segments origin weight := by
    intro origin painted
    by_cases within : Within range origin
    · exact Or.inl ((Colouring.paint_of_within within).mp painted)
    · exact Or.inr ⟨origin, (Colouring.paint_of_not_within within).mp painted⟩
  rw [kept.weighs_insertSegment inhabited] at weighs
  rcases weighs with painted | bridged
  · exact ofPainted point painted
  · have ⟨before, _, _, _, gap⟩ := bridged
    exact ofPainted before gap.weighsBefore

namespace Reconciler

open Coverage (AllFit)

variable {deviation : Nat} {key : UsageKey} {track : Track} {tenant : String}
  {unit : RateUnit} {deliveries : List Delivery} {after : Reconciler} {first last : Int}

theorem unpacks_of_weightOf
    {usage : UsageRecord}
    {weight : Int}
    (weighed : weightOf usage unit = .ok weight) :
    Unpacks weight := by
  have ⟨volume, measured⟩ := exists_volumeOf_weight weighed .quantity 0
  exact (PackedQuantity.exists_unpack_iff (fitsInt64_of_weightOf weighed)).mp ⟨volume, measured⟩

/-- The weights of a track once usage is recorded are those it had, and that of a
quantity or of time. -/
theorem exists_weighs_of_take
    {u : UsageRecord × RateUnit}
    (kept : track.coverage.Kept)
    {second weight : Int}
    (weighs : Coverage.Weighs (track.take u).coverage.segments second weight) :
    Unpacks weight ∨ ∃ origin, Coverage.Weighs track.coverage.segments origin weight := by
  unfold Track.take at weighs
  cases found : segment? u with
  | none =>
    rw [found] at weighs
    exact Or.inr ⟨second, weighs⟩
  | some s =>
    rw [found] at weighs
    have ⟨reaches, packed, weighed, ofUsage⟩ := (segment?_eq_some_iff u s).mp found
    subst ofUsage
    have origin := kept.exists_weighs_of_insertSegment (inhabited_segmentOf reaches packed) weighs
    apply origin.imp_left
    intro isPacked
    rw [← isPacked]
    exact unpacks_of_weightOf weighed

theorem exists_weighs_of_takeAll
    {entries : List (UsageRecord × RateUnit)}
    (kept : track.coverage.Kept)
    {second weight : Int}
    (weighs : Coverage.Weighs (track.takeAll entries).coverage.segments second weight) :
    Unpacks weight ∨ ∃ origin, Coverage.Weighs track.coverage.segments origin weight := by
  induction entries generalizing track with
  | nil => exact Or.inr ⟨second, weighs⟩
  | cons u rest inductionHypothesis =>
    rcases inductionHypothesis (kept_take kept u).1 weighs with unpacks | ⟨origin, weighs⟩
    · exact Or.inl unpacks
    · exact exists_weighs_of_take kept weighs

/-! ## Reading one track -/

theorem exists_mapM_eq_ok_iff
    {ε α β : Type}
    (step : α → Except ε β)
    (inputs : List α) :
    (∃ results, inputs.mapM step = .ok results) ↔
      ∀ input ∈ inputs, ∃ result, step input = .ok result := by
  constructor
  · intro ⟨results, made⟩ input member
    have ⟨result, _, ofInput⟩ :=
      exists_of_mem_forall₂ ((mapM_eq_ok_iff _ _ _).mp made).flip member
    exact ⟨result, ofInput⟩
  · exact exists_mapM_eq_ok

/-- The one track is read back if each of its segments is; other tenants have
none. -/
theorem exists_usageBetween_only_iff
    (deviation : Nat)
    (key : UsageKey)
    (track : Track)
    (tenant : String)
    (first last : Int) :
    (∃ usages, (only deviation key track).usageBetween tenant first last = .ok usages) ↔
      (tenant = key.tenant → ∀ s ∈ track.coverage.inRange first last,
        ∃ usage, usageOf key track s = .ok usage) := by
  simp only [usageBetween_eq_ok_iff, ← exists_mapM_eq_ok_iff]
  by_cases owned : key.tenant = tenant
  · have own : (only deviation key track).tracks.entries.filter
        (fun entry => entry.1.tenant == tenant) = [(key, track)] := by
      simp [only, owned]
    rw [own]
    simp [owned, List.forall₂_cons_left_iff]
  · have none : (only deviation key track).tracks.entries.filter
        (fun entry => entry.1.tenant == tenant) = [] := by
      simp [only, owned]
    rw [none]
    simp [Ne.symm owned]

theorem exists_volumeOf_iff
    {s : Segment}
    (fits : Text.fitsInt64 s.weight = true) :
    (∃ volume, volumeOf unit s = .ok volume) ↔ (unit = .quantity → Unpacks s.weight) := by
  cases unit with
  | time => simp [volumeOf]
  | quantity => simp [volumeOf, PackedQuantity.exists_unpack_iff fits]

/-- The usage of a clipped segment can be made if the segment has a volume. -/
theorem exists_usageOf_iff
    (kept : track.coverage.Kept)
    {low high : Instant}
    {s : Segment}
    (clipped : s ∈ track.coverage.inRange low.timestamp (high.timestamp - 1)) :
    (∃ usage, usageOf key track s = .ok usage) ↔ ∃ volume, volumeOf track.unit s = .ok volume := by
  constructor
  · intro ⟨usage, made⟩
    obtain ⟨volume, _, _, measured, _⟩ := (usageOf_eq_ok_iff _ _ _ _).mp made
    exact ⟨volume, measured⟩
  · intro ⟨volume, measured⟩
    have inhabited : low.timestamp ≤ high.timestamp - 1 := by
      apply Int.not_lt.mp
      intro inverted
      rw [Coverage.inRange, if_pos inverted] at clipped
      cases clipped
    obtain ⟨lower, filled, upper⟩ :=
      Coverage.bounds_of_mem_inRange kept.ordered inhabited s clipped
    exact exists_usageOf lower filled (by omega : s.last + 1 ≤ high.timestamp) measured

/-- The clipped segments have the weights of the seconds in the range. -/
theorem forall_mem_inRange_iff
    {c : Coverage}
    (kept : c.Kept)
    (test : Int → Prop) :
    (∀ s ∈ c.inRange first last, test s.weight) ↔
      ∀ second weight, first ≤ second → second ≤ last →
        Coverage.Weighs c.segments second weight → test weight := by
  by_cases inhabited : first ≤ last
  · have clipped := Coverage.weighs_inRange_iff kept.ordered inhabited
    constructor
    · intro passes second weight lower upper weighs
      have ⟨s, member, _, _, ofSegment⟩ := (clipped second weight).mpr ⟨⟨lower, upper⟩, weighs⟩
      rw [← ofSegment]
      exact passes s member
    · intro passes s member
      have ⟨_, filled, _⟩ := Coverage.bounds_of_mem_inRange kept.ordered inhabited s member
      have ⟨⟨lower, upper⟩, weighs⟩ := (clipped s.first s.weight).mp
        ⟨s, member, Int.le_refl _, filled, rfl⟩
      exact passes s.first s.weight lower upper weighs
  · rw [Coverage.inRange, if_pos (Int.not_le.mp inhabited)]
    constructor
    · intro _ second weight lower upper
      exact absurd (Int.le_trans lower upper) inhabited
    · intro _ s member
      cases member

theorem weighs_only_iff
    (second weight : Int) :
    (only deviation key track).Weighs key second weight ↔
      Coverage.Weighs track.coverage.segments second weight := by
  simp [Weighs, only, Table.get?, Table.lookup]

/-- A window of the one track is read back, unless the track holds quantities and
the window finds a weight of no quantity. -/
theorem exists_usageIn_only_iff
    (deviation : Nat)
    (key : UsageKey)
    (kept : track.coverage.Kept)
    (fits : AllFit track.coverage.segments)
    (tenant : String)
    {w : Window}
    {stop : Instant}
    (stops : w.stop = .ok stop) :
    (∃ usages, (only deviation key track).usageIn tenant w = .ok usages) ↔
      (tenant = key.tenant → track.unit = .quantity →
        ∀ second weight, w.start.timestamp ≤ second → second < stop.timestamp →
          (only deviation key track).Weighs key second weight → Unpacks weight) := by
  have weightFits : ∀ s ∈ track.coverage.inRange w.start.timestamp (stop.timestamp - 1),
      Text.fitsInt64 s.weight = true := by
    apply (forall_mem_inRange_iff kept fun weight => Text.fitsInt64 weight = true).mpr
    intro second weight _ _ ⟨s, member, _, _, ofSegment⟩
    rw [← ofSegment]
    exact (fits s member).weight
  have ofSegments : (∀ s ∈ track.coverage.inRange w.start.timestamp (stop.timestamp - 1),
        ∃ usage, usageOf key track s = .ok usage) ↔
      (track.unit = .quantity →
        ∀ s ∈ track.coverage.inRange w.start.timestamp (stop.timestamp - 1),
          Unpacks s.weight) := by
    constructor
    · intro made isQuantity s member
      have measured := (exists_usageOf_iff kept member).mp (made s member)
      exact (exists_volumeOf_iff (weightFits s member)).mp measured isQuantity
    · intro unpacks s member
      apply (exists_usageOf_iff kept member).mpr
      apply (exists_volumeOf_iff (weightFits s member)).mpr
      intro isQuantity
      exact unpacks isQuantity s member
  simp only [usageIn_eq_ok_iff stops]
  rw [exists_usageBetween_only_iff, ofSegments, forall_mem_inRange_iff kept]
  simp only [Int.le_sub_one_iff, weighs_only_iff]

/-! ## Recording over a restored text -/

/-- Deliveries of one tenant that are recorded are taken one after the other. -/
theorem eq_takeAll_of_recordEach
    {r : Reconciler}
    (ofTenant : ∀ d ∈ deliveries, d.tenant = tenant)
    (recorded : r.recordEach unit deliveries = .ok after) :
    after = r.takeAll tenant (deliveries.map fun d => (d.usage, unit)) := by
  induction deliveries generalizing r with
  | nil =>
    cases recorded
    rfl
  | cons d rest inductionHypothesis =>
    rw [recordEach, List.foldlM_cons, ofTenant d List.mem_cons_self,
      record_eq_take r tenant (d.usage, unit)] at recorded
    split at recorded
    · exact inductionHypothesis (fun e member => ofTenant e (List.mem_cons_of_mem d member))
        recorded
    · cases recorded

theorem restore_empty
    (deviation : Nat)
    (key : UsageKey)
    (text : String)
    (unit : RateUnit) :
    (empty deviation).restore key text unit =
      only deviation key ⟨Coverage.ofText text deviation, unit, none⟩ :=
  rfl

/-- Usage of a key that is recorded over its text leaves the one track of the key. -/
theorem exists_only_of_recordEach
    {text : String}
    (ofKey : ∀ d ∈ deliveries, d.key = key)
    (recorded : ((empty deviation).restore key text unit).recordEach unit deliveries = .ok after) :
    after.Restorable ∧ ∃ entries : List (UsageRecord × RateUnit),
      after = only deviation key
        ((Track.mk (Coverage.ofText text deviation) unit none).takeAll entries) := by
  have ofTenant : ∀ d ∈ deliveries, d.tenant = key.tenant := by
    intro d member
    rw [← ofKey d member]
    rfl
  have entriesOfKey : ∀ u ∈ deliveries.map fun d => (d.usage, unit),
      UsageKey.ofRecord key.tenant u.1 = key := by
    intro u member
    obtain ⟨d, inDeliveries, ofDelivery⟩ := List.mem_map.mp member
    rw [← ofDelivery, ← ofTenant d inDeliveries]
    exact ofKey d inDeliveries
  have taken := eq_takeAll_of_recordEach ofTenant recorded
  constructor
  · rw [taken]
    exact ((restorable_empty deviation).restore key text unit).takeAll key.tenant _
  · refine ⟨deliveries.map fun d => (d.usage, unit), ?_⟩
    rw [taken, restore_empty]
    exact takeAll_only deviation _ entriesOfKey

/-- Whatever text is restored for a key, and whatever usage of the key is then
recorded: a window is read back unless the key holds quantities and the window
finds a weight of no quantity; such a weight is a weight of the text; and a text
with a fault in its syntax has none, for it counts as empty. -/
theorem exists_usageIn_of_restore
    (text : String)
    (ofKey : ∀ d ∈ deliveries, d.key = key)
    (recorded : ((empty deviation).restore key text unit).recordEach unit deliveries = .ok after) :
    (∀ tenant w stop, w.stop = .ok stop →
      ((∃ usages, after.usageIn tenant w = .ok usages) ↔
        (tenant = key.tenant → unit = .quantity → ∀ second weight, w.start.timestamp ≤ second →
          second < stop.timestamp → after.Weighs key second weight → Unpacks weight))) ∧
      (∀ second weight, after.Weighs key second weight → ¬ Unpacks weight →
        ∃ s ∈ (Coverage.ofText text deviation).segments, s.weight = weight) ∧
      (Coverage.ofText? text deviation = none →
        (Coverage.ofText text deviation).segments = []) := by
  have ⟨restorable, entries, taken⟩ := exists_only_of_recordEach ofKey recorded
  let begun : Track := ⟨Coverage.ofText text deviation, unit, none⟩
  have begunKept : begun.coverage.Kept := (Coverage.kept_ofText text deviation).1
  have kept := (kept_takeAll begunKept entries).1
  have sameUnit : (begun.takeAll entries).unit = unit := unit_takeAll begun entries
  subst taken
  have fits : AllFit (begun.takeAll entries).coverage.segments := by
    apply restorable.fits key
    simp [coverage?, only, Table.get?, Table.lookup, begun]
  refine ⟨?_, ?_, ?_⟩
  · intro tenant w stop stops
    have read := exists_usageIn_only_iff deviation key kept fits tenant stops
    rw [sameUnit] at read
    exact read
  · intro second weight weighs corrupt
    have origin := exists_weighs_of_takeAll begunKept ((weighs_only_iff _ _).mp weighs)
    obtain ⟨_, s, member, _, _, ofSegment⟩ := origin.resolve_left corrupt
    exact ⟨s, member, ofSegment⟩
  · intro faulty
    rw [Coverage.ofText, faulty]
    rfl

/-- The usage of a volume from one second of the first day to another. -/
def volumeDelivery (size : Int) (start stop : Fin 86400) : Delivery :=
  ⟨"acme", (UsageRecord.ofService "volume.size" (.ofSecond start) (.ofSecond stop)
    (.ofInt size)).withResource "vol-1" none⟩

/-- Usage recorded over the first half of such a text leaves the second half of it,
and the window that finds it cannot be read back. -/
theorem usageIn_of_restore_no_scale :
    ∃ after, ((empty 1).restore ⟨"acme", "vol-1", "volume.size"⟩ "0:3599:31"
          .quantity).recordEach .quantity [volumeDelivery 20 0 1800] = .ok after ∧
      (∃ usages, after.usageIn "acme" ⟨.ofSecond 3600, 3600⟩ = .ok usages) ∧
      ¬ ∃ usages, after.usageIn "acme" ⟨.ofSecond 0, 3600⟩ = .ok usages := by
  let after : Reconciler := only 1 ⟨"acme", "vol-1", "volume.size"⟩
    ⟨⟨1, [⟨0, 1799, 640⟩, ⟨1800, 3599, 31⟩]⟩, .quantity, none⟩
  have recorded : ((empty 1).restore ⟨"acme", "vol-1", "volume.size"⟩ "0:3599:31"
      .quantity).recordEach .quantity [volumeDelivery 20 0 1800] = .ok after := by
    decide +kernel
  have ofKey : ∀ d ∈ [volumeDelivery 20 0 1800], d.key = ⟨"acme", "vol-1", "volume.size"⟩ := by
    decide
  have ⟨windows, _, _⟩ := exists_usageIn_of_restore "0:3599:31" ofKey recorded
  refine ⟨after, recorded, ?_, ?_⟩
  · apply (windows "acme" ⟨.ofSecond 3600, 3600⟩ (.ofSecond 7200) rfl).mpr
    intro _ _ second weight lower _ weighs
    have late : 3600 ≤ second := lower
    have held := (weighs_only_iff second weight).mp weighs
    simp only [Coverage.spans_cons, Coverage.spans_nil, or_false] at held
    omega
  · intro read
    have unpacks := (windows "acme" ⟨.ofSecond 0, 3600⟩ (.ofSecond 3600) rfl).mp read rfl rfl
      1800 31 (by decide) (by decide) ((weighs_only_iff _ _).mpr
        ⟨⟨1800, 3599, 31⟩, by simp, by decide, by decide, rfl⟩)
    exact absurd unpacks (by decide)

/-- A text whose weight is that of no quantity is not taken as empty, and stops
billing. -/
theorem not_forall_exists_usageIn_of_restore :
    ¬ ∀ deviation key text unit deliveries after,
      (∀ d ∈ deliveries, d.key = key) →
      ((empty deviation).restore key text unit).recordEach unit deliveries = .ok after →
      ∀ tenant w stop, w.stop = .ok stop →
        ∃ usages, after.usageIn tenant w = .ok usages := by
  intro always
  have ⟨usages, read⟩ := always 1 ⟨"acme", "vol-1", "volume.size"⟩ "0:3599:31" .quantity [] _
    (by simp) rfl "acme" ⟨.ofSecond 0, 3600⟩ (.ofSecond 3600) rfl
  have failed : (((empty 1).restore ⟨"acme", "vol-1", "volume.size"⟩ "0:3599:31"
      .quantity).usageIn "acme" ⟨.ofSecond 0, 3600⟩).toOption = none := by
    decide +kernel
  rw [read] at failed
  cases failed

end Reconciler

end UsageBilling

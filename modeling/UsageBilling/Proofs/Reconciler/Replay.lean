import UsageBilling.Proofs.Coverage.Replay
import UsageBilling.Proofs.Reconciler.OneKey
import UsageBilling.Proofs.Reconciler.Snapshots

/-!
Contract: the track of a key, from the usage that is kept for it.

Owns:
- after any recording, the track of a key is what its own kept usage makes of the
  track it had, or of a new track with the unit of the first kept usage;
- recording the same usage over what it left changes nothing, if the deviation is
  below two.

Does not own: where the track comes from when it is recorded over again.
-/

namespace UsageBilling

open Reconciler (segment? segmentOf)

variable {entries : List (UsageRecord × RateUnit)}

/-! ## A track and its usage -/

theorem Track.coverage_take
    (track : Track)
    (u : UsageRecord × RateUnit) :
    (track.take u).coverage =
      (segment? u).toList.foldl Coverage.insertSegment track.coverage := by
  unfold take
  cases segment? u with
  | none => rfl
  | some s => rfl

theorem Track.coverage_takeAll
    (track : Track)
    (entries : List (UsageRecord × RateUnit)) :
    (track.takeAll entries).coverage =
      (entries.filterMap segment?).foldl Coverage.insertSegment track.coverage := by
  induction entries generalizing track with
  | nil => rfl
  | cons u rest inductionHypothesis =>
    have restCovered := inductionHypothesis (track.take u)
    rw [Track.coverage_take, ← List.foldl_append] at restCovered
    apply restCovered.trans
    cases found : segment? u with
    | none => simp [found]
    | some s => simp [found]

/-- The name of a track comes from the one before, whatever else it had. -/
theorem Track.resourceName_takeAll_congr
    {track track' : Track}
    (sameName : track.resourceName = track'.resourceName)
    (entries : List (UsageRecord × RateUnit)) :
    (track.takeAll entries).resourceName = (track'.takeAll entries).resourceName := by
  induction entries generalizing track track' with
  | nil => exact sameName
  | cons u rest inductionHypothesis =>
    apply inductionHypothesis
    unfold take
    cases segment? u with
    | none => exact sameName
    | some s =>
      show (u.1.resourceName.orElse fun _ => _) = u.1.resourceName.orElse fun _ => _
      rw [sameName]

/-- Usage that is recorded again changes nothing but the name that was lost in
between, and brings back no unit. -/
theorem Track.takeAll_again
    {track : Track}
    (kept : track.coverage.Kept)
    (small : track.coverage.deviation ≤ 1)
    (entries : List (UsageRecord × RateUnit))
    (unit : RateUnit) :
    Track.takeAll entries ⟨(track.takeAll entries).coverage, unit, track.resourceName⟩ =
      { track.takeAll entries with unit := unit } := by
  have inhabited : ∀ s ∈ entries.filterMap segment?, s.first ≤ s.last := by
    intro s member
    have ⟨u, _, found⟩ := List.mem_filterMap.mp member
    have ⟨reaches, weight, _, ofUsage⟩ := (Reconciler.segment?_eq_some_iff u s).mp found
    rw [← ofUsage]
    exact Reconciler.inhabited_segmentOf reaches weight
  let once := track.takeAll entries
  let begun : Track := ⟨once.coverage, unit, track.resourceName⟩
  let twice := begun.takeAll entries
  have sameCoverage : twice.coverage = once.coverage := by
    rw [Track.coverage_takeAll, Track.coverage_takeAll]
    exact kept.foldl_insertSegment_again small inhabited
  have sameBegin : begun.resourceName = track.resourceName := rfl
  have sameName : twice.resourceName = once.resourceName :=
    Track.resourceName_takeAll_congr sameBegin entries
  have sameUnit : twice.unit = unit := Reconciler.unit_takeAll begun entries
  calc twice = ⟨twice.coverage, twice.unit, twice.resourceName⟩ := rfl
    _ = { once with unit := unit } := by rw [sameCoverage, sameUnit, sameName]

namespace Reconciler

variable {tenant : String} {key : UsageKey}

/-! ## The track of a key -/

/-- The usage of a key that is kept, in order. -/
def keptOf (tenant : String) (key : UsageKey) (entries : List (UsageRecord × RateUnit)) :
    List (UsageRecord × RateUnit) :=
  entries.filter fun u => key = UsageKey.ofRecord tenant u.1 ∧ (segment? u).isSome

theorem get?_take
    (r : Reconciler)
    (tenant : String)
    (u : UsageRecord × RateUnit)
    (key : UsageKey) :
    (r.take tenant u).tracks.get? key =
      if key = UsageKey.ofRecord tenant u.1 ∧ (segment? u).isSome then
        some ((r.trackOf key u.2).take u)
      else r.tracks.get? key := by
  unfold take Track.take
  cases found : segment? u with
  | none => simp
  | some s =>
    obtain ⟨_, weight, _, ofUsage⟩ := (segment?_eq_some_iff u s).mp found
    rw [← ofUsage, get?_keep]
    simp [segmentOf]

/-- What the track of a key becomes depends on its own kept usage only. The first
of it gives a new track its unit. -/
theorem get?_takeAll
    (r : Reconciler)
    (tenant : String)
    (entries : List (UsageRecord × RateUnit))
    (key : UsageKey) :
    (r.takeAll tenant entries).tracks.get? key =
      match keptOf tenant key entries with
      | [] => r.tracks.get? key
      | u :: rest => some ((r.trackOf key u.2).takeAll (u :: rest)) := by
  induction entries generalizing r with
  | nil => rfl
  | cons v rest inductionHypothesis =>
    have restTracked := inductionHypothesis (r.take tenant v)
    have head := get?_take r tenant v key
    rw [keptOf, List.filter_cons, ← keptOf]
    by_cases isKept : key = UsageKey.ofRecord tenant v.1 ∧ (segment? v).isSome
    · rw [if_pos isKept] at head
      rw [if_pos (decide_eq_true isKept)]
      apply restTracked.trans
      cases keptOf tenant key rest with
      | nil => exact head
      | cons u others =>
        show some (Track.takeAll (u :: others) ((r.take tenant v).trackOf key u.2)) =
          some (Track.takeAll (u :: others) ((r.trackOf key v.2).take v))
        rw [trackOf, head]
        rfl
    · rw [if_neg isKept] at head
      rw [if_neg (by simpa using isKept)]
      apply restTracked.trans
      simp only [trackOf, head, deviation_take]

theorem get?_takeAll_of_some
    {r : Reconciler}
    {track : Track}
    (found : r.tracks.get? key = some track)
    (tenant : String)
    (entries : List (UsageRecord × RateUnit)) :
    (r.takeAll tenant entries).tracks.get? key =
      some (track.takeAll (keptOf tenant key entries)) := by
  rw [get?_takeAll]
  cases keptOf tenant key entries with
  | nil => exact found
  | cons u rest =>
    dsimp only
    rw [trackOf, found]
    rfl

theorem get?_takeAll_of_none
    {r : Reconciler}
    (missing : r.tracks.get? key = none)
    (tenant : String)
    (entries : List (UsageRecord × RateUnit)) :
    (r.takeAll tenant entries).tracks.get? key =
      (keptOf tenant key entries).head?.map fun u =>
        Track.takeAll (keptOf tenant key entries) ⟨Coverage.empty r.deviation, u.2, none⟩ := by
  rw [get?_takeAll]
  cases keptOf tenant key entries with
  | nil => exact missing
  | cons u rest =>
    dsimp only
    rw [trackOf, missing]
    rfl

end Reconciler

end UsageBilling

import UsageBilling.Proofs.Coverage.Insertion
import UsageBilling.Proofs.Table
import UsageBilling.Reconciler.Basic

/-!
Contract: what recording and restoring do to the coverage of each key.

Owns:
- recording as one step: nothing for usage within a second, an error for a
  quantity without a weight, and otherwise an insertion for one key;
- the state that every reconciler is in: one track a key, all coverage kept and
  of one deviation;
- the weights of a key's seconds.

Does not own: sequences of records.
-/

namespace UsageBilling

/-- The track with a segment inserted. A name given replaces the one held. -/
def Track.add (track : Track) (segment : Segment) (name : Option String) : Track :=
  { track with
    coverage := track.coverage.insertSegment segment
    resourceName := name.orElse fun _ => track.resourceName }

namespace Reconciler

open Coverage

variable {r : Reconciler} {tenant : String} {usage : UsageRecord} {unit : RateUnit}

/-! ## Recording as one step -/

def segmentOf (usage : UsageRecord) (weight : Int) : Segment :=
  ⟨usage.start.timestamp, usage.stop.timestamp - 1, weight⟩

/-- Whether usage reaches from one second into another. -/
def Reaches (usage : UsageRecord) : Prop :=
  usage.start.timestamp < usage.stop.timestamp

instance (usage : UsageRecord) : Decidable (Reaches usage) :=
  inferInstanceAs (Decidable (_ < _))

/-- The reconciler with usage kept under a weight. -/
def keep (r : Reconciler) (tenant : String) (usage : UsageRecord) (unit : RateUnit)
    (weight : Int) : Reconciler :=
  let key := UsageKey.ofRecord tenant usage
  { r with
    tracks := r.tracks.insert key
      ((r.trackOf key unit).add (segmentOf usage weight) usage.resourceName) }

theorem get?_keep
    (tenant : String)
    (usage : UsageRecord)
    (unit : RateUnit)
    (weight : Int)
    (key : UsageKey) :
    (r.keep tenant usage unit weight).tracks.get? key =
      if key = UsageKey.ofRecord tenant usage then
        some ((r.trackOf key unit).add (segmentOf usage weight) usage.resourceName)
      else r.tracks.get? key := by
  rw [keep, Table.get?_insert]
  split
  · rename_i sameKey
    rw [sameKey]
  · rfl

theorem inhabited_segmentOf
    (reaches : Reaches usage)
    (weight : Int) :
    (segmentOf usage weight).first ≤ (segmentOf usage weight).last := by
  simp only [segmentOf]
  simp only [Reaches] at reaches
  omega

theorem record_eq
    (r : Reconciler)
    (tenant : String)
    (usage : UsageRecord)
    (unit : RateUnit) :
    r.record tenant usage unit =
      if Reaches usage then (weightOf usage unit).map (r.keep tenant usage unit) else .ok r := by
  unfold record
  by_cases reaches : Reaches usage
  · rw [if_pos reaches, if_neg (by simp only [Reaches] at reaches; omega)]
    cases weightOf usage unit with
    | error error => rfl
    | ok weight =>
      let track := r.trackOf (UsageKey.ofRecord tenant usage) unit
      let s := segmentOf usage weight
      have inserted : track.coverage.insert s.first s.last s.weight =
          .ok (track.coverage.insertSegment s) :=
        insert_eq_ok (inhabited_segmentOf reaches weight)
      show (do
        let coverage ← track.coverage.insert s.first s.last s.weight
        pure _) = _
      rw [inserted]
      rfl
  · rw [if_neg reaches, if_pos (by simp only [Reaches] at reaches; omega)]
    rfl

theorem record_of_not_reaches
    (short : ¬ Reaches usage) :
    r.record tenant usage unit = .ok r := by
  rw [record_eq, if_neg short]

/-- Recording succeeds if the usage has a weight, and then keeps it. -/
theorem record_eq_ok_iff
    (reaches : Reaches usage)
    (after : Reconciler) :
    r.record tenant usage unit = .ok after ↔
      ∃ weight, weightOf usage unit = .ok weight ∧ after = r.keep tenant usage unit weight := by
  rw [record_eq, if_pos reaches]
  cases weightOf usage unit with
  | error error => simp [Except.map]
  | ok weight => simp [Except.map, eq_comm]

/-! ## The state of every reconciler -/

/-- One track a key, and all coverage kept with one deviation. -/
structure Sound (r : Reconciler) : Prop where
  unique : r.tracks.Unique
  kept : ∀ key track, r.tracks.get? key = some track →
    track.coverage.Kept ∧ track.coverage.deviation = r.deviation

theorem sound_empty
    (deviation : Nat) :
    (empty deviation).Sound :=
  ⟨Table.unique_empty, by simp [empty]⟩

theorem Sound.kept_trackOf
    (sound : r.Sound)
    (key : UsageKey)
    (unit : RateUnit) :
    (r.trackOf key unit).coverage.Kept ∧
      (r.trackOf key unit).coverage.deviation = r.deviation := by
  rw [trackOf]
  cases found : r.tracks.get? key with
  | none => exact ⟨kept_empty r.deviation, rfl⟩
  | some track => exact sound.kept key track found

/-- The state is kept by any change of one track that keeps its coverage. -/
theorem Sound.insert_track
    (sound : r.Sound)
    (key : UsageKey)
    {track : Track}
    (kept : track.coverage.Kept)
    (sameDeviation : track.coverage.deviation = r.deviation) :
    Sound { r with tracks := r.tracks.insert key track } := by
  refine ⟨sound.unique.insert key track, ?_⟩
  intro other held found
  rw [Table.get?_insert] at found
  split at found
  · cases found
    exact ⟨kept, sameDeviation⟩
  · exact sound.kept other held found

theorem Sound.keep
    (sound : r.Sound)
    (tenant : String)
    (reaches : Reaches usage)
    (unit : RateUnit)
    (weight : Int) :
    (r.keep tenant usage unit weight).Sound := by
  obtain ⟨kept, sameDeviation⟩ := sound.kept_trackOf (UsageKey.ofRecord tenant usage) unit
  exact sound.insert_track _ (kept.insertSegment (inhabited_segmentOf reaches weight)) sameDeviation

theorem Sound.record
    (sound : r.Sound)
    {after : Reconciler}
    (recorded : r.record tenant usage unit = .ok after) :
    after.Sound ∧ after.deviation = r.deviation := by
  by_cases reaches : Reaches usage
  · obtain ⟨weight, _, rfl⟩ := (record_eq_ok_iff reaches after).mp recorded
    exact ⟨sound.keep tenant reaches unit weight, rfl⟩
  · rw [record_of_not_reaches reaches] at recorded
    cases recorded
    exact ⟨sound, rfl⟩

theorem Sound.restore
    (sound : r.Sound)
    (key : UsageKey)
    (text : String)
    (unit : RateUnit) :
    (r.restore key text unit).Sound ∧ (r.restore key text unit).deviation = r.deviation := by
  obtain ⟨kept, sameDeviation⟩ := kept_ofText text r.deviation
  exact ⟨sound.insert_track key kept sameDeviation, rfl⟩

/-! ## The weights of a key's seconds -/

def Weighs (r : Reconciler) (key : UsageKey) (second weight : Int) : Prop :=
  ∃ track, r.tracks.get? key = some track ∧ Coverage.Weighs track.coverage.segments second weight

/-- With a deviation below two, kept usage gives its weight to the seconds it
holds, and leaves other seconds and keys as they were. -/
theorem Sound.weighs_keep_iff
    (sound : r.Sound)
    (small : r.deviation ≤ 1)
    (reaches : Reaches usage)
    (weight : Int)
    (key : UsageKey)
    (second other : Int) :
    (r.keep tenant usage unit weight).Weighs key second other ↔
      if key = UsageKey.ofRecord tenant usage ∧ usage.start.timestamp ≤ second ∧
          second < usage.stop.timestamp then weight = other
      else r.Weighs key second other := by
  simp only [Weighs, get?_keep]
  by_cases sameKey : key = UsageKey.ofRecord tenant usage
  · subst sameKey
    obtain ⟨kept, sameDeviation⟩ := sound.kept_trackOf (UsageKey.ofRecord tenant usage) unit
    have painted := kept.weighs_insertSegment_of_le_one (sameDeviation ▸ small)
      (inhabited_segmentOf reaches weight) second other
    have before : Coverage.Weighs
          (r.trackOf (UsageKey.ofRecord tenant usage) unit).coverage.segments second other ↔
        ∃ track, r.tracks.get? (UsageKey.ofRecord tenant usage) = some track ∧
          Coverage.Weighs track.coverage.segments second other := by
      rw [trackOf]
      cases r.tracks.get? (UsageKey.ofRecord tenant usage) with
      | none => simp [Coverage.empty]
      | some track => simp
    have within : Within (segmentOf usage weight) second ↔
        usage.start.timestamp ≤ second ∧ second < usage.stop.timestamp := by
      simp only [Within, segmentOf]
      omega
    simp only [within, before] at painted
    simp only [if_true, Option.some.injEq, exists_eq_left', true_and]
    exact painted
  · simp [sameKey]

end Reconciler

end UsageBilling

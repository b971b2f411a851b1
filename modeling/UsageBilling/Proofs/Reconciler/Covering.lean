import UsageBilling.Proofs.Reconciler.Snapshots
import UsageBilling.Proofs.Reconciler.Windows

/-!
Contract: seconds that are covered, whatever their weights.

Owns:
- insertion uncovers no second, and covers those of its range;
- seconds that a text covers for every reader, whatever the reader's deviation;
- recording uncovers no second of any key, and covers those of the usage;
- restoring a text covers its seconds, and a snapshot covers those of its key.

Does not own: what covered seconds are billed as.
-/

namespace UsageBilling

namespace Coverage

variable {c : Coverage} {range : Segment} {second : Int}

def Covers (c : Coverage) (second : Int) : Prop :=
  ∃ weight, Weighs c.segments second weight

/-- Whether a text covers a second for every reader. -/
def TextCovers (text : String) (second : Int) : Prop :=
  ∀ deviation, (ofText text deviation).Covers second

theorem Kept.covers_insertSegment_of_within
    (kept : c.Kept)
    (inhabited : range.first ≤ range.last)
    (within : Within range second) :
    (c.insertSegment range).Covers second :=
  ⟨range.weight, kept.weighs_insertSegment_of_within inhabited within⟩

theorem Kept.covers_insertSegment
    (kept : c.Kept)
    (inhabited : range.first ≤ range.last)
    (covers : c.Covers second) :
    (c.insertSegment range).Covers second := by
  have ⟨weight, weighs⟩ := covers
  by_cases within : Within range second
  · exact kept.covers_insertSegment_of_within inhabited within
  · exact ⟨weight, kept.weighs_insertSegment_of_not_within inhabited within weighs⟩

theorem Kept.covers_foldl_insertSegment
    {segments : List Segment}
    (kept : c.Kept)
    (inhabited : ∀ s ∈ segments, s.first ≤ s.last)
    (covered : c.Covers second ∨ ∃ s ∈ segments, Within s second) :
    (segments.foldl Coverage.insertSegment c).Covers second := by
  induction segments generalizing c with
  | nil =>
    rcases covered with covers | ⟨s, inNone, _⟩
    · exact covers
    · cases inNone
  | cons s rest inductionHypothesis =>
    have sInhabited := inhabited s List.mem_cons_self
    apply inductionHypothesis (kept.insertSegment sInhabited)
      fun t member => inhabited t (List.mem_cons_of_mem s member)
    rcases covered with covers | ⟨t, member, within⟩
    · exact Or.inl (kept.covers_insertSegment sInhabited covers)
    · rcases List.mem_cons.mp member with isHead | inRest
      · exact Or.inl (kept.covers_insertSegment_of_within sInhabited (isHead ▸ within))
      · exact Or.inr ⟨t, inRest, within⟩

/-- What is written covers what is covered, also for readers with another
deviation. -/
theorem Kept.textCovers_toText
    (kept : c.Kept)
    (fits : AllFit c.segments)
    (covers : c.Covers second) :
    TextCovers c.toText second := by
  intro deviation
  have ⟨_, s, member, lower, upper, _⟩ := covers
  rw [kept.ofText_toText_eq_foldl fits]
  exact (kept_empty deviation).covers_foldl_insertSegment kept.ordered.inhabited
    (Or.inr ⟨s, member, lower, upper⟩)

end Coverage

namespace Reconciler

open Coverage (TextCovers)

variable {r : Reconciler} {tenant : String} {u : UsageRecord × RateUnit} {key : UsageKey}
  {second : Int}

/-- Whether a reconciler covers a second of a key. -/
def Covers (r : Reconciler) (key : UsageKey) (second : Int) : Prop :=
  ∃ c, r.coverage? key = some c ∧ c.Covers second

theorem Sound.kept_of_coverage?
    (sound : r.Sound)
    {c : Coverage}
    (found : r.coverage? key = some c) :
    c.Kept := by
  have ⟨track, inTracks, ofTrack⟩ := Option.map_eq_some_iff.mp found
  exact ofTrack ▸ (sound.kept key track inTracks).1

/-! ## Restoring and saving -/

theorem covers_restore
    {text : String}
    (covers : TextCovers text second)
    (r : Reconciler)
    (key : UsageKey)
    (unit : RateUnit) :
    (r.restore key text unit).Covers key second := by
  refine ⟨Coverage.ofText text r.deviation, ?_, covers r.deviation⟩
  rw [coverage?_restore, if_pos rfl]

theorem covers_restore_iff_of_ne
    {other : UsageKey}
    (differ : other ≠ key)
    (r : Reconciler)
    (text : String)
    (unit : RateUnit) :
    (r.restore key text unit).Covers other second ↔ r.Covers other second := by
  rw [Covers, coverage?_restore, if_neg differ, ← Covers]

theorem Restorable.exists_snapshot_of_covers
    (restorable : r.Restorable)
    (covers : r.Covers key second) :
    ∃ text, r.snapshot key = some text ∧ TextCovers text second := by
  have ⟨c, found, covered⟩ := covers
  refine ⟨c.toText, ?_, ?_⟩
  · rw [snapshot_eq_map_toText, found]
    rfl
  · exact (restorable.sound.kept_of_coverage? found).textCovers_toText
      (restorable.fits key c found) covered

/-! ## Recording -/

theorem Covers.take
    (covers : r.Covers key second)
    (sound : r.Sound)
    (tenant : String)
    (u : UsageRecord × RateUnit) :
    (r.take tenant u).Covers key second := by
  have ⟨c, found, covered⟩ := covers
  rw [Covers, coverage?_take]
  by_cases ofKey : key = UsageKey.ofRecord tenant u.1
  · rw [if_pos ofKey, found]
    cases segment : segment? u with
    | none => exact ⟨c, rfl, covered⟩
    | some s =>
      have ⟨reaches, weight, _, ofUsage⟩ := (segment?_eq_some_iff u s).mp segment
      refine ⟨c.insertSegment s, rfl, ?_⟩
      exact (sound.kept_of_coverage? found).covers_insertSegment
        (ofUsage ▸ inhabited_segmentOf reaches weight) covered
  · rw [if_neg ofKey]
    exact ⟨c, found, covered⟩

theorem Covers.takeAll
    (covers : r.Covers key second)
    (sound : r.Sound)
    (tenant : String)
    (entries : List (UsageRecord × RateUnit)) :
    (r.takeAll tenant entries).Covers key second := by
  induction entries generalizing r with
  | nil => exact covers
  | cons u rest inductionHypothesis =>
    exact inductionHypothesis (covers.take sound tenant u) (sound.take tenant u).1

theorem covers_take_of_holds
    (sound : r.Sound)
    (recordable : Recordable u)
    (holds : u.1.Holds second)
    (tenant : String) :
    (r.take tenant u).Covers (UsageKey.ofRecord tenant u.1) second := by
  have reaches : Reaches u.1 := Int.lt_of_le_of_lt holds.1 holds.2
  have ⟨s, segment⟩ := Option.isSome_iff_exists.mp (recordable reaches)
  have ⟨_, weight, _, ofUsage⟩ := (segment?_eq_some_iff u s).mp segment
  subst ofUsage
  have within : Coverage.Within (segmentOf u.1 weight) second :=
    ⟨holds.1, Int.le_sub_one_of_lt holds.2⟩
  rw [Covers, coverage?_take, if_pos rfl, segment]
  refine ⟨_, rfl, ?_⟩
  apply Coverage.Kept.covers_insertSegment_of_within _ (inhabited_segmentOf reaches weight) within
  cases found : r.coverage? (UsageKey.ofRecord tenant u.1) with
  | none => exact Coverage.kept_empty r.deviation
  | some c => exact sound.kept_of_coverage? found

theorem covers_takeAll_of_holds
    {entries : List (UsageRecord × RateUnit)}
    (sound : r.Sound)
    (member : u ∈ entries)
    (recordable : Recordable u)
    (holds : u.1.Holds second)
    (tenant : String) :
    (r.takeAll tenant entries).Covers (UsageKey.ofRecord tenant u.1) second := by
  induction entries generalizing r with
  | nil => cases member
  | cons v rest inductionHypothesis =>
    have nextSound := (sound.take tenant v).1
    rcases List.mem_cons.mp member with isHead | inRest
    · have covers := covers_take_of_holds sound recordable holds tenant
      rw [isHead] at covers ⊢
      exact covers.takeAll nextSound tenant rest
    · exact inductionHypothesis nextSound inRest

end Reconciler

end UsageBilling

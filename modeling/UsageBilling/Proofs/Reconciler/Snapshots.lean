import UsageBilling.Proofs.Coverage.Overflow
import UsageBilling.Proofs.Reconciler.Commutation
import UsageBilling.Proofs.Reconciler.Packing
import UsageBilling.Proofs.Window.Timeline

/-!
Contract: the coverage of a key, apart from its unit and name.

Owns:
- the coverage a reconciler has for a key, of which a snapshot is the text;
- recording changes it by the usage of its own key only, and never drops it;
- all recorded coverage is within 64 bits, so that a snapshot restores what it
  was taken of.

Does not own: where snapshots are kept.
-/

namespace UsageBilling.Reconciler

open Coverage (AllFit Fits)

variable {r r' : Reconciler} {tenant : String} {u : UsageRecord × RateUnit} {key : UsageKey}

def coverage? (r : Reconciler) (key : UsageKey) : Option Coverage :=
  (r.tracks.get? key).map Track.coverage

theorem snapshot_eq_map_toText
    (r : Reconciler)
    (key : UsageKey) :
    r.snapshot key = (r.coverage? key).map Coverage.toText := by
  rw [snapshot, coverage?, Option.map_map]
  rfl

theorem coverage?_restore
    (r : Reconciler)
    (key other : UsageKey)
    (text : String)
    (unit : RateUnit) :
    (r.restore key text unit).coverage? other =
      if other = key then some (Coverage.ofText text r.deviation) else r.coverage? other := by
  rw [coverage?, restore, Table.get?_insert]
  split
  · rfl
  · rfl

/-! ## Recording -/

/-- Coverage with a segment inserted, if there is one to insert. -/
def covered (deviation : Nat) (held : Option Coverage) : Option Segment → Option Coverage
  | none => held
  | some s => some ((held.getD (Coverage.empty deviation)).insertSegment s)

theorem coverage_trackOf
    (r : Reconciler)
    (key : UsageKey)
    (unit : RateUnit) :
    (r.trackOf key unit).coverage = (r.coverage? key).getD (Coverage.empty r.deviation) := by
  rw [trackOf, coverage?]
  cases r.tracks.get? key with
  | none => rfl
  | some track => rfl

theorem coverage?_take
    (r : Reconciler)
    (tenant : String)
    (u : UsageRecord × RateUnit)
    (key : UsageKey) :
    (r.take tenant u).coverage? key =
      if key = UsageKey.ofRecord tenant u.1 then
        covered r.deviation (r.coverage? key) (segment? u)
      else r.coverage? key := by
  rw [take]
  cases found : segment? u with
  | none => rw [covered, ite_self]
  | some s =>
    obtain ⟨_, weight, _, rfl⟩ := (segment?_eq_some_iff u s).mp found
    rw [coverage?, get?_keep]
    by_cases ofKey : key = UsageKey.ofRecord tenant u.1
    · rw [if_pos ofKey, if_pos ofKey, Option.map_some, Track.add, coverage_trackOf]
      rfl
    · rw [if_neg ofKey, if_neg ofKey]
      rfl

theorem deviation_take
    (r : Reconciler)
    (tenant : String)
    (u : UsageRecord × RateUnit) :
    (r.take tenant u).deviation = r.deviation := by
  rw [take]
  cases segment? u with
  | none => rfl
  | some s => rfl

theorem deviation_takeAll
    (r : Reconciler)
    (tenant : String)
    (entries : List (UsageRecord × RateUnit)) :
    (r.takeAll tenant entries).deviation = r.deviation := by
  induction entries generalizing r with
  | nil => rfl
  | cons u rest inductionHypothesis =>
    exact (inductionHypothesis (r.take tenant u)).trans (deviation_take r tenant u)

/-- What a key's coverage becomes depends on what it was, and on no other key. -/
theorem coverage?_takeAll_congr
    (sameDeviation : r.deviation = r'.deviation)
    (same : r.coverage? key = r'.coverage? key)
    (tenant : String)
    (entries : List (UsageRecord × RateUnit)) :
    (r.takeAll tenant entries).coverage? key = (r'.takeAll tenant entries).coverage? key := by
  induction entries generalizing r r' with
  | nil => exact same
  | cons u rest inductionHypothesis =>
    apply inductionHypothesis
    · rw [deviation_take, deviation_take, sameDeviation]
    · rw [coverage?_take, coverage?_take, sameDeviation, same]

theorem coverage?_takeAll_of_ne
    (r : Reconciler)
    {entries : List (UsageRecord × RateUnit)}
    (others : ∀ u ∈ entries, key ≠ UsageKey.ofRecord tenant u.1) :
    (r.takeAll tenant entries).coverage? key = r.coverage? key := by
  induction entries generalizing r with
  | nil => rfl
  | cons u rest inductionHypothesis =>
    have restKept := inductionHypothesis (r.take tenant u)
      fun v member => others v (List.mem_cons_of_mem u member)
    rw [coverage?_take, if_neg (others u List.mem_cons_self)] at restKept
    exact restKept

theorem covered_eq_none
    {deviation : Nat}
    {held : Option Coverage}
    {segment : Option Segment}
    (missing : covered deviation held segment = none) :
    held = none := by
  cases segment with
  | none => exact missing
  | some s => cases missing

/-- Recording drops no key. -/
theorem coverage?_eq_none_of_takeAll
    {entries : List (UsageRecord × RateUnit)}
    (missing : (r.takeAll tenant entries).coverage? key = none) :
    r.coverage? key = none := by
  induction entries generalizing r with
  | nil => exact missing
  | cons u rest inductionHypothesis =>
    have missingAfter := inductionHypothesis missing
    rw [coverage?_take] at missingAfter
    split at missingAfter
    · exact covered_eq_none missingAfter
    · exact missingAfter

/-! ## Coverage that can be restored -/

theorem fitsInt64_of_weightOf
    {usage : UsageRecord}
    {unit : RateUnit}
    {weight : Int}
    (weighed : weightOf usage unit = .ok weight) :
    Text.fitsInt64 weight = true := by
  cases unit with
  | time =>
    cases weighed
    rfl
  | quantity => exact ((PackedQuantity.pack_eq_ok_iff _ _).mp weighed).2.2.2

/-- The timeline and the packed quantities are far within 64 bits. -/
theorem fits_of_segment?
    {s : Segment}
    (found : segment? u = some s) :
    Fits s := by
  have ⟨_, weight, weighed, ofUsage⟩ := (segment?_eq_some_iff u s).mp found
  subst ofUsage
  have startBound := u.1.start.natAbs_timestamp_lt
  have stopBound := u.1.stop.natAbs_timestamp_lt
  refine ⟨?_, ?_, fitsInt64_of_weightOf weighed⟩
  · apply (Text.fitsInt64_iff _).mpr
    simp only [segmentOf, Text.int64Min, Text.int64Max]
    omega
  · apply (Text.fitsInt64_iff _).mpr
    simp only [segmentOf, Text.int64Min, Text.int64Max]
    omega

/-- A sound reconciler whose coverage is all within 64 bits. -/
structure Restorable (r : Reconciler) : Prop where
  sound : r.Sound
  fits : ∀ key c, r.coverage? key = some c → AllFit c.segments

theorem restorable_empty
    (deviation : Nat) :
    (empty deviation).Restorable := by
  refine ⟨sound_empty deviation, ?_⟩
  intro key c found
  cases found

theorem Restorable.restore
    (restorable : r.Restorable)
    (key : UsageKey)
    (text : String)
    (unit : RateUnit) :
    (r.restore key text unit).Restorable := by
  refine ⟨(restorable.sound.restore key text unit).1, ?_⟩
  intro other c found
  rw [coverage?_restore] at found
  split at found
  · cases found
    exact Coverage.allFit_ofText text r.deviation
  · exact restorable.fits other c found

theorem Restorable.take
    (restorable : r.Restorable)
    (tenant : String)
    (u : UsageRecord × RateUnit) :
    (r.take tenant u).Restorable := by
  refine ⟨(restorable.sound.take tenant u).1, ?_⟩
  intro key c found
  rw [coverage?_take] at found
  split at found
  · cases segment : segment? u with
    | none =>
      rw [segment] at found
      exact restorable.fits key c found
    | some s =>
      rw [segment] at found
      cases found
      apply Coverage.allFit_insertSegment (fits_of_segment? segment)
      cases held : r.coverage? key with
      | none => exact Coverage.allFit_empty r.deviation
      | some before => exact restorable.fits key before held
  · exact restorable.fits key c found

theorem Restorable.takeAll
    (restorable : r.Restorable)
    (tenant : String)
    (entries : List (UsageRecord × RateUnit)) :
    (r.takeAll tenant entries).Restorable := by
  induction entries generalizing r with
  | nil => exact restorable
  | cons u rest inductionHypothesis => exact inductionHypothesis (restorable.take tenant u)

/-- A snapshot restores the coverage it was taken of. -/
theorem Restorable.ofText_snapshot
    (restorable : r.Restorable)
    {text : String}
    (taken : r.snapshot key = some text) :
    r.coverage? key = some (Coverage.ofText text r.deviation) := by
  rw [snapshot_eq_map_toText] at taken
  have ⟨c, found, written⟩ := Option.map_eq_some_iff.mp taken
  have fits := restorable.fits key c found
  have ⟨track, inTracks, ofTrack⟩ := Option.map_eq_some_iff.mp found
  have ⟨kept, sameDeviation⟩ := restorable.sound.kept key track inTracks
  rw [ofTrack] at kept sameDeviation
  rw [found, ← written, ← sameDeviation, kept.ofText_toText fits]

end UsageBilling.Reconciler

import UsageBilling.Proofs.Period.MeteredTime
import UsageBilling.Proofs.Period.UptimeIntervals

/-!
Contract: what an instance is metered for by its uptime, told from its samples.

Owns:
- the points of a window: the latest sample before it, moved to where it opens, and the
  samples inside it;
- increasing streams, which are split where a window opens and closes;
- the usage of a window: one record for each maximal run of a service that its points
  show, with the whole seconds it lasts, and none if no sample lies in the window.

Does not own: streams that are not in order, which are made so before they are metered.
-/

namespace UsageBilling

namespace Instant

variable {earlier later : Instant}

/-- Nanoseconds since the epoch, without those of leap seconds. -/
def nanosFromEpoch (t : Instant) : Int :=
  t.timestamp * nanosPerSecond + t.nanos

theorem natAbs_secondsSince_lt
    (later earlier : Instant) :
    (later.secondsSince earlier).natAbs < Decimal.mantissaLimit := by
  have towardZero : (later.secondsSince earlier).natAbs ≤ (later.nanosSince earlier).natAbs :=
    Int.natAbs_tdiv_le_natAbs _ _
  have ⟨earlierSmall, laterSmall⟩ := And.intro earlier.natAbs_timestamp_lt later.natAbs_timestamp_lt
  have ⟨earlierBound, laterBound⟩ := And.intro earlier.nanos_lt later.nanos_lt
  have leap : (later.leapBetween earlier).natAbs ≤ 1 := by
    rw [leapBetween]
    split
    · decide
    · split
      · decide
      · decide
  simp only [nanosSince, nanosPerSecond, Nat.cast_ofNat] at towardZero
  simp only [Decimal.mantissaLimit]
  omega

/-- Between instants in no leap second, whole seconds are those of the nanoseconds that
have passed. -/
theorem secondsSince_eq_ediv
    (earlierPlain : earlier.isLeap = false)
    (laterPlain : later.isLeap = false)
    (lasts : 0 < later.secondsSince earlier) :
    later.secondsSince earlier =
      (later.nanosFromEpoch - earlier.nanosFromEpoch) / nanosPerSecond := by
  have passed : later.nanosSince earlier = later.nanosFromEpoch - earlier.nanosFromEpoch := by
    rw [nanosSince, leapBetween_of_plain earlierPlain laterPlain, nanosFromEpoch, nanosFromEpoch]
    ring
  have second : (nanosPerSecond : Int) ≤ later.nanosSince earlier := le_of_tdiv_pos lasts
  rw [secondsSince, ← passed]
  exact Int.tdiv_eq_ediv_of_nonneg (Int.le_trans (by decide) second)

end Instant

/-! ## Increasing streams -/

namespace SampleStream

variable {samples : List Sample}

theorem latest?_of_ascending
    (ascending : samples.Pairwise fun s later => s.timestamp ≤ later.timestamp) :
    latest? samples = samples.getLast? := by
  cases samples with
  | nil => rfl
  | cons first rest =>
    rw [latest?]
    induction rest generalizing first with
    | nil => rfl
    | cons next rest inductionHypothesis =>
      obtain ⟨least, restAscending⟩ := List.pairwise_cons.mp ascending
      have later : ¬ next.timestamp < first.timestamp :=
        Instant.not_lt.mpr (least next List.mem_cons_self)
      rw [List.foldl_cons, if_neg later, List.getLast?_cons_cons]
      exact inductionHypothesis next restAscending

end SampleStream

namespace Uptime

open BillingService (halfPast)

variable {opening closing : Instant} {samples : List Sample} {meterService : String}
  {catalog : Catalog} {w : Window}

/-! ## The points of a window -/

/-- The samples inside a window. -/
def samplesIn (opening closing : Instant) (samples : List Sample) : List Sample :=
  samples.filter fun s => opening ≤ s.timestamp && s.timestamp < closing

/-- The latest sample before a window, of samples in the order of time. -/
def leadIn? (opening : Instant) (samples : List Sample) : Option Sample :=
  (samples.filter fun s => decide (s.timestamp < opening)).getLast?

/-- What is known of a window: the latest sample before it, moved to where it opens,
and then the samples inside it. -/
def pointsIn (opening closing : Instant) (samples : List Sample) : List (Instant × Sample) :=
  match leadIn? opening samples with
  | some s => (opening, s) :: (samplesIn opening closing samples).map fun s => (s.timestamp, s)
  | none => (samplesIn opening closing samples).map fun s => (s.timestamp, s)

theorem split_of_ascending
    (ascending : samples.Pairwise fun s later => s.timestamp ≤ later.timestamp)
    (bounds : w.bounds = .ok (opening, closing)) :
    SampleStream.split samples w =
      .ok ⟨leadIn? opening samples, samplesIn opening closing samples⟩ := by
  rw [SampleStream.split, bounds]
  show Except.ok (WindowPart.mk (SampleStream.latest? _) (SampleStream.ordered _)) = _
  rw [SampleStream.latest?_of_ascending (ascending.filter _),
    SampleStream.ordered_of_ascending (ascending.filter _)]
  rfl

theorem points_eq_pointsIn
    (opening closing : Instant)
    (samples : List Sample) :
    points opening ⟨leadIn? opening samples, samplesIn opening closing samples⟩ =
      pointsIn opening closing samples := by
  rw [points, pointsIn]
  cases leadIn? opening samples with
  | none => rfl
  | some s => rfl

theorem bounds_of_mem_samplesIn
    {s : Sample}
    (member : s ∈ samplesIn opening closing samples) :
    opening ≤ s.timestamp ∧ s.timestamp < closing := by
  have inside := (List.mem_filter.mp member).2
  rwa [Bool.and_eq_true, decide_eq_true_eq, decide_eq_true_eq] at inside

theorem ascending_pointsIn
    (ascending : samples.Pairwise fun s later => s.timestamp < later.timestamp)
    (opening closing : Instant) :
    (pointsIn opening closing samples).Pairwise fun point later => point.1 ≤ later.1 := by
  have inside : ((samplesIn opening closing samples).map fun s => (s.timestamp, s)).Pairwise
      fun point later => point.1 ≤ later.1 :=
    List.pairwise_map.mpr ((ascending.filter _).imp Int.le_of_lt)
  rw [pointsIn]
  split
  · refine List.pairwise_cons.mpr ⟨?_, inside⟩
    intro point member
    have ⟨s, inSamples, isPoint⟩ := List.mem_map.mp member
    exact isPoint ▸ (bounds_of_mem_samplesIn inSamples).1
  · exact inside

/-- Each phase of the samples of a window begins with one of them. -/
theorem exists_sample_of_mem_phases
    {seen : Option String}
    {phase : Phase}
    (member : phase ∈ (phases meterService seen
      ((samplesIn opening closing samples).map fun s => (s.timestamp, s)) catalog).1) :
    ∃ s ∈ samplesIn opening closing samples, s.timestamp = phase.start := by
  have starts := List.mem_map_of_mem (f := Phase.start) member
  rw [map_start_phases, List.map_map] at starts
  exact List.mem_map.mp starts

/-- The phases of the samples of a window begin in it, one after another. -/
theorem proceeds_phases
    (ascending : samples.Pairwise fun s later => s.timestamp < later.timestamp)
    (meterService : String)
    (seen service : Option String)
    (catalog : Catalog) :
    Proceeds opening (service.map fun service => ⟨service, opening⟩)
      (phases meterService seen
        ((samplesIn opening closing samples).map fun s => (s.timestamp, s)) catalog).1 closing := by
  refine ⟨?_, ?_, ?_, ?_⟩
  · have ascendingStarts : ((phases meterService seen
        ((samplesIn opening closing samples).map fun s => (s.timestamp, s)) catalog).1.map
          Phase.start).Pairwise fun t later => t < later := by
      rw [map_start_phases, List.map_map]
      exact List.pairwise_map.mpr (ascending.filter _)
    exact List.pairwise_map.mp ascendingStarts
  · intro phase member
    have ⟨s, inSamples, isStart⟩ := exists_sample_of_mem_phases member
    exact isStart ▸ (bounds_of_mem_samplesIn inSamples).1
  · intro phase member
    have ⟨s, inSamples, isStart⟩ := exists_sample_of_mem_phases member
    exact isStart ▸ (bounds_of_mem_samplesIn inSamples).2
  · intro begun isNew
    have ⟨_, _, made⟩ := Option.map_eq_some_iff.mp isNew
    rw [← made]

/-- The sample before a window leaves a run open where the window opens, or none, even
if the first sample inside lies there as well. -/
theorem exists_proceeds
    (ascending : samples.Pairwise fun s later => s.timestamp < later.timestamp)
    (opening closing : Instant)
    (meterService : String)
    (catalog : Catalog) :
    ∃ run timeline, Proceeds opening run timeline closing ∧
      (∀ phase ∈ timeline, ∃ s ∈ samplesIn opening closing samples, s.timestamp = phase.start) ∧
      accrue closing none
          (phases meterService none (pointsIn opening closing samples) catalog).1 =
        accrue closing run timeline ∧
      ∀ t, opening ≤ t →
        accruing? catalog meterService (pointsIn opening closing samples) t =
          accruesBy run timeline t := by
  have agrees := accruing?_eq_inForce (ascending_pointsIn ascending opening closing) catalog
    meterService
  cases lead : leadIn? opening samples with
  | none =>
    simp only [pointsIn, lead] at agrees ⊢
    exact ⟨none, _, proceeds_phases ascending meterService none none catalog,
      fun _ member => exists_sample_of_mem_phases member, rfl, fun t _ => agrees t⟩
  | some s =>
    simp only [pointsIn, lead, phases_cons] at agrees ⊢
    refine ⟨_, _, proceeds_phases ascending meterService ((s.text? profileKeys).or none)
      (accruesFor catalog meterService ((s.text? profileKeys).or none) s) catalog,
      fun _ member => exists_sample_of_mem_phases member, ?_, ?_⟩
    · rw [accrue_cons]
      cases accruesFor catalog meterService ((s.text? profileKeys).or none) s with
      | none => rfl
      | some service => rfl
    · intro t reached
      rw [agrees, inForce, if_pos reached, accruesBy, Option.map_map]
      exact congrArg (inForce t · _) Option.map_id'.symm

/-! ## The usage of a window -/

/-- Usage of a window that is metered as its samples show. -/
structure ShowsRuns (catalog : Catalog) (meterService : String) (opening closing : Instant)
    (samples : List Sample) (records : List UsageRecord) : Prop where
  unseen : samplesIn opening closing samples = [] → records = []
  runs : samplesIn opening closing samples ≠ [] → ∀ record, record ∈ records ↔
    MetersRun (accruing? catalog meterService (pointsIn opening closing samples)) opening closing
      record
  ascending : records.Pairwise fun record later => record.stop ≤ later.start
  apart : records.Pairwise fun record later =>
    record.stop = later.start → record.service ≠ later.service
  volume : ∀ record ∈ records, record.volume.toRat = record.duration
  wholeSeconds : ∀ record ∈ records, record.start.isLeap = false → record.stop.isLeap = false →
    record.duration =
      (record.stop.nanosFromEpoch - record.start.nanosFromEpoch) / nanosPerSecond

/-- The usage of a window, if a sample lies in it. -/
theorem usage_of_seen
    (seen : samplesIn opening closing samples ≠ [])
    (meterService : String)
    (catalog : Catalog) :
    (usage meterService ⟨leadIn? opening samples, samplesIn opening closing samples⟩ opening
      closing catalog).1 =
        accrue closing none
          (phases meterService none (pointsIn opening closing samples) catalog).1 := by
  rw [usage, if_neg (mt List.isEmpty_iff.mp seen), points_eq_pointsIn]

theorem usage_of_unseen
    (unseen : samplesIn opening closing samples = [])
    (meterService : String)
    (catalog : Catalog) :
    (usage meterService ⟨leadIn? opening samples, samplesIn opening closing samples⟩ opening
      closing catalog).1 = [] := by
  rw [usage, if_pos (List.isEmpty_iff.mpr unseen)]

theorem showsRuns_usage
    (ascending : samples.Pairwise fun s later => s.timestamp < later.timestamp)
    (opening closing : Instant)
    (meterService : String)
    (catalog : Catalog) :
    ShowsRuns catalog meterService opening closing samples
      (usage meterService ⟨leadIn? opening samples, samplesIn opening closing samples⟩ opening
        closing catalog).1 := by
  by_cases unseen : samplesIn opening closing samples = []
  · rw [usage_of_unseen unseen]
    exact ⟨fun _ => rfl, fun seen => absurd unseen seen, List.Pairwise.nil, List.Pairwise.nil,
      by simp, by simp⟩
  · obtain ⟨run, timeline, proceeds, _, sameUsage, sameService⟩ :=
      exists_proceeds ascending opening closing meterService catalog
    have meters := mem_accrue_iff proceeds
    have follow := ascending_accrue proceeds
    rw [usage_of_seen unseen, sameUsage]
    refine ⟨fun empty => absurd empty unseen, ?runs, follow.imp And.left, follow.imp And.right,
      ?volume, ?wholeSeconds⟩
    case runs =>
      intro _ record
      rw [meters, metersRun_congr sameService]
    case volume =>
      intro record member
      rw [((meters record).mp member).metered]
      exact Decimal.toRat_ofInt (Instant.natAbs_secondsSince_lt _ _)
    case wholeSeconds =>
      intro record member startPlain stopPlain
      exact Instant.secondsSince_eq_ediv startPlain stopPlain ((meters record).mp member).lasts

theorem meter_of_ascending
    (ascending : samples.Pairwise fun s later => s.timestamp < later.timestamp)
    (bounds : w.bounds = .ok (opening, closing))
    (meterService : String)
    (catalog : Catalog) :
    (Strategy.uptime.meter meterService samples w catalog).1 =
      .ok (usage meterService ⟨leadIn? opening samples, samplesIn opening closing samples⟩ opening
        closing catalog).1 := by
  rw [Strategy.meter, split_of_ascending (ascending.imp Int.le_of_lt) bounds, bounds]
  rfl

/-- A window is metered for the maximal runs that the samples of an increasing stream
show, if it ends on the timeline at all. -/
theorem showsRuns_of_ascending
    (ascending : samples.Pairwise fun s later => s.timestamp < later.timestamp)
    (w : Window)
    (meterService : String)
    (catalog : Catalog) :
    match w.bounds with
    | .ok (opening, closing) =>
      ∃ records, (Strategy.uptime.meter meterService samples w catalog).1 = .ok records ∧
        ShowsRuns catalog meterService opening closing samples records
    | .error failure =>
      (Strategy.uptime.meter meterService samples w catalog).1 = .error failure := by
  cases bounds : w.bounds with
  | error failure =>
    rw [Strategy.meter, SampleStream.split, bounds]
    rfl
  | ok range =>
    exact ⟨_, meter_of_ascending ascending bounds meterService catalog,
      showsRuns_usage ascending range.1 range.2 meterService catalog⟩

/-- An instance that is seen active before a window and where it opens, changes its
profile, stops, is active for half a second only, and is at last active again. -/
def restlessSamples (before opening grown stopped back last : Fin 86400) : List Sample := [
  ⟨.ofSecond before, none, .object [("status", .text "active"), ("flavor", .text "m1.small")]⟩,
  ⟨.ofSecond opening, none, .object [("status", .text "running")]⟩,
  ⟨.ofSecond grown, none, .object [("state", .text "active"), ("instance_type", .text "m1.large")]⟩,
  ⟨.ofSecond stopped, none, .object [("status", .text "shutoff")]⟩,
  ⟨.ofSecond back, none, .object [("status", .text "active")]⟩,
  ⟨halfPast back, none, .object [("status", .text "migrating")]⟩,
  ⟨.ofSecond last, some Decimal.one, .object []⟩]

def restlessRecords (opening grown stopped last closing : Fin 86400) : List UsageRecord := [
  .ofService "vm.small" (.ofSecond opening) (.ofSecond grown) (.ofInt (grown.val - opening.val)),
  .ofService "m1.large" (.ofSecond grown) (.ofSecond stopped) (.ofInt (stopped.val - grown.val)),
  .ofService "m1.large" (.ofSecond last) (.ofSecond closing) (.ofInt (closing.val - last.val))]

def smallCatalog : Catalog :=
  Catalog.empty.withProfile "m1.small" "vm.small"

private theorem bounds_secondHour :
    (⟨.ofSecond 3600, 3600⟩ : Window).bounds = .ok (.ofSecond 3600, .ofSecond 7200) := by
  decide

private theorem ascending_restlessSamples :
    (restlessSamples 3000 3600 4000 4100 4200 5000).Pairwise fun s later =>
      s.timestamp < later.timestamp := by
  decide

private theorem samplesIn_restlessSamples :
    samplesIn (.ofSecond 3600) (.ofSecond 7200) (restlessSamples 3000 3600 4000 4100 4200 5000) =
      (restlessSamples 3000 3600 4000 4100 4200 5000).tail := by
  cbv

set_option maxRecDepth 20000 in
private theorem phases_restlessSamples :
    (phases "instance" none (pointsIn (.ofSecond 3600) (.ofSecond 7200)
      (restlessSamples 3000 3600 4000 4100 4200 5000)) smallCatalog).1 = [
        ⟨.ofSecond 3600, some "vm.small"⟩, ⟨.ofSecond 3600, some "vm.small"⟩,
        ⟨.ofSecond 4000, some "m1.large"⟩, ⟨.ofSecond 4100, none⟩,
        ⟨.ofSecond 4200, some "m1.large"⟩, ⟨halfPast 4200, none⟩,
        ⟨.ofSecond 5000, some "m1.large"⟩] := by
  have lead : leadIn? (.ofSecond 3600) (restlessSamples 3000 3600 4000 4100 4200 5000) =
      (restlessSamples 3000 3600 4000 4100 4200 5000).head? := by
    cbv
  rw [pointsIn, lead, samplesIn_restlessSamples]
  simp only [restlessSamples, List.head?_cons, List.tail_cons, List.map_cons, List.map_nil,
    phases_cons]
  cbv

private theorem meter_restlessSamples :
    (Strategy.uptime.meter "instance" (restlessSamples 3000 3600 4000 4100 4200 5000)
      ⟨.ofSecond 3600, 3600⟩ smallCatalog).1 = .ok (restlessRecords 3600 4000 4100 5000 7200) := by
  have seen : samplesIn (.ofSecond 3600) (.ofSecond 7200)
      (restlessSamples 3000 3600 4000 4100 4200 5000) ≠ [] := by
    rw [samplesIn_restlessSamples]
    exact List.cons_ne_nil _ _
  rw [meter_of_ascending ascending_restlessSamples bounds_secondHour, usage_of_seen seen,
    phases_restlessSamples]
  decide

/-- The hour has three runs that are metered, and one of half a second that is not. -/
theorem showsRuns_restlessSamples :
    ((restlessSamples 3000 3600 4000 4100 4200 5000).Pairwise fun s later =>
        s.timestamp < later.timestamp) ∧
      (Strategy.uptime.meter "instance" (restlessSamples 3000 3600 4000 4100 4200 5000)
        ⟨.ofSecond 3600, 3600⟩ smallCatalog).1 = .ok (restlessRecords 3600 4000 4100 5000 7200) ∧
      ShowsRuns smallCatalog "instance" (.ofSecond 3600) (.ofSecond 7200)
        (restlessSamples 3000 3600 4000 4100 4200 5000)
        (restlessRecords 3600 4000 4100 5000 7200) := by
  refine ⟨ascending_restlessSamples, meter_restlessSamples, ?_⟩
  have metered := showsRuns_of_ascending ascending_restlessSamples ⟨.ofSecond 3600, 3600⟩
    "instance" smallCatalog
  rw [bounds_secondHour] at metered
  obtain ⟨records, made, shows⟩ := metered
  rwa [Except.ok.inj (made.symm.trans meter_restlessSamples)] at shows

end Uptime

end UsageBilling

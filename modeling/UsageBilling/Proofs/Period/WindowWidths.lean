import UsageBilling.Proofs.Period.MeteredRuns

/-!
Contract: usage by uptime does not depend on the width of windows.

Owns:
- the seconds that records reach into, each with the service of the record;
- what an instance accrues at an instant, told from its latest sample so far: a window
  that is restarted from its lead-in tells the same, if every sample names a profile;
- the seconds of runs that begin and end with a second;
- a window and the windows that it is divided into are metered for the same seconds.

Does not own: windows without a sample, which are metered for nothing even if the
window they are a part of is not.
-/

namespace UsageBilling

namespace Instant

variable {earlier later : Instant}

/-- Between instants that begin a second lie the seconds from one to the other. -/
theorem secondsSince_of_whole
    (earlierWhole : earlier.nanos = 0)
    (laterWhole : later.nanos = 0) :
    later.secondsSince earlier = later.timestamp - earlier.timestamp := by
  have plain : ∀ {t : Instant}, t.nanos = 0 → t.isLeap = false := by
    intro t whole
    simp [isLeap, whole, nanosPerSecond]
  rw [secondsSince, nanosSince, leapBetween_of_plain (plain earlierWhole) (plain laterWhole),
    earlierWhole, laterWhole, sub_self, add_zero, add_zero]
  exact Int.mul_tdiv_cancel _ (by decide)

end Instant

/-! ## The seconds of services -/

namespace UsageRecord

variable {records others : List UsageRecord} {second : Int} {name : String}

/-- The seconds that records reach into, each with the service that is used in it. -/
def served (records : List UsageRecord) : Set (Int × String) :=
  {(second, name) | ∃ record ∈ records, record.service = name ∧ record.Holds second}

theorem mem_served_iff :
    (second, name) ∈ served records ↔
      ∃ record ∈ records, record.service = name ∧ record.Holds second :=
  Iff.rfl

theorem served_append
    (records others : List UsageRecord) :
    served (records ++ others) = served records ∪ served others := by
  ext ⟨second, name⟩
  simp only [Set.mem_union, mem_served_iff, List.mem_append, or_and_right, exists_or]

/-- A second that a record reaches into lies on the timeline. -/
theorem exists_instant_of_mem_served
    (member : (second, name) ∈ served records) :
    ∃ t : Instant, t.timestamp = second := by
  have ⟨record, _, _, lower, upper⟩ := mem_served_iff.mp member
  have ⟨t, made⟩ := Instant.exists_ofTimestamp? second lower (Int.le_of_lt upper)
  exact ⟨t, ((Instant.ofTimestamp?_eq_some_iff _ _).mp made).1⟩

theorem served_eq_of_instants
    (same : ∀ (t : Instant) name,
      (t.timestamp, name) ∈ served records ↔ (t.timestamp, name) ∈ served others) :
    served records = served others := by
  ext ⟨second, name⟩
  constructor
  · intro member
    obtain ⟨t, rfl⟩ := exists_instant_of_mem_served member
    exact (same t name).mp member
  · intro member
    obtain ⟨t, rfl⟩ := exists_instant_of_mem_served member
    exact (same t name).mpr member

end UsageRecord

namespace Uptime

open UsageRecord (served mem_served_iff served_append served_eq_of_instants)

variable {opening closing stop t : Instant} {samples : List Sample} {meterService name : String}
  {catalog catalog' : Catalog} {w : Window} {windows : List Window} {run : Option Run}
  {timeline : List Phase} {points : List (Instant × Sample)}

/-! ## The service at an instant -/

/-- What the latest sample so far accrues, told from that sample alone. -/
def shownAt (catalog : Catalog) (meterService : String) (samples : List Sample) (t : Instant) :
    Option String :=
  (samples.filter fun s => decide (s.timestamp ≤ t)).getLast?.bind fun s =>
    accruesFor catalog meterService (s.text? profileKeys) s

theorem shownAt_congr
    (same : catalog.serviceFor = catalog'.serviceFor) :
    shownAt catalog meterService samples t = shownAt catalog' meterService samples t := by
  have sameService : serviceNamed catalog = serviceNamed catalog' := by
    funext meterService profile
    cases profile with
    | none => rfl
    | some profile => exact congrFun same profile
  simp only [shownAt, accruesFor, sameService]

/-- The samples up to an instant of a window are those before the window and the first
of those inside. -/
theorem filter_le_eq_append
    (ascending : samples.Pairwise fun s later => s.timestamp < later.timestamp)
    (opens : opening ≤ t)
    (closes : t < closing) :
    samples.filter (fun s => decide (s.timestamp ≤ t)) =
      samples.filter (fun s => decide (s.timestamp < opening)) ++
        (samplesIn opening closing samples).filter fun s => decide (s.timestamp ≤ t) := by
  induction samples with
  | nil => rfl
  | cons s rest inductionHypothesis =>
    have ⟨later, restAscending⟩ := List.pairwise_cons.mp ascending
    by_cases early : s.timestamp < opening
    · have reached : s.timestamp ≤ t := Int.le_of_lt (Int.lt_of_lt_of_le early opens)
      have outside : ¬ opening ≤ s.timestamp := Int.not_le.mpr early
      have inside : samplesIn opening closing (s :: rest) = samplesIn opening closing rest :=
        List.filter_cons_of_neg (by simp [outside])
      have seenFirst : (s :: rest).filter (fun s => decide (s.timestamp ≤ t)) =
          s :: rest.filter fun s => decide (s.timestamp ≤ t) :=
        List.filter_cons_of_pos (decide_eq_true reached)
      have beforeFirst : (s :: rest).filter (fun s => decide (s.timestamp < opening)) =
          s :: rest.filter fun s => decide (s.timestamp < opening) :=
        List.filter_cons_of_pos (decide_eq_true early)
      rw [inside, seenFirst, beforeFirst, inductionHypothesis restAscending, List.cons_append]
    · -- no sample is before the window from here on
      have reached : ∀ u ∈ s :: rest, opening ≤ u.timestamp := by
        intro u member
        rcases List.mem_cons.mp member with rfl | inRest
        · exact Instant.not_lt.mp early
        · exact Instant.le_trans (Instant.not_lt.mp early) (Int.le_of_lt (later u inRest))
      have noneBefore : (s :: rest).filter (fun s => decide (s.timestamp < opening)) = [] := by
        rw [List.filter_eq_nil_iff]
        intro u member
        rw [decide_eq_true_eq]
        exact Instant.not_lt.mpr (reached u member)
      rw [noneBefore, List.nil_append, samplesIn, List.filter_filter]
      apply List.filter_congr
      intro u member
      by_cases seen : u.timestamp ≤ t
      · have inside : u.timestamp < closing := Int.lt_of_le_of_lt seen closes
        simp [seen, inside, reached u member]
      · simp [seen]

/-- The last point of a window so far is the latest sample so far. -/
theorem map_getLast?_filter_pointsIn
    (ascending : samples.Pairwise fun s later => s.timestamp < later.timestamp)
    (opens : opening ≤ t)
    (closes : t < closing) :
    ((pointsIn opening closing samples).filter fun point => decide (point.1 ≤ t)).getLast?.map
        Prod.snd =
      (samples.filter fun s => decide (s.timestamp ≤ t)).getLast? := by
  have inside : (((samplesIn opening closing samples).map fun s => (s.timestamp, s)).filter
      fun point => decide (point.1 ≤ t)).map Prod.snd =
        (samplesIn opening closing samples).filter fun s => decide (s.timestamp ≤ t) := by
    rw [List.filter_map, List.map_map]
    exact List.map_id _
  rw [filter_le_eq_append ascending opens closes, List.getLast?_append, ← inside,
    ← List.getLast?_map, pointsIn]
  show _ = Option.or _ (leadIn? opening samples)
  cases leadIn? opening samples with
  | none => exact (Option.or_none).symm
  | some s =>
    have seenFirst (rest : List (Instant × Sample)) :
        ((opening, s) :: rest).filter (fun point => decide (point.1 ≤ t)) =
          (opening, s) :: rest.filter fun point => decide (point.1 ≤ t) :=
      List.filter_cons_of_pos (decide_eq_true opens)
    dsimp only
    rw [seenFirst, List.map_cons, List.getLast?_cons]
    cases (List.map Prod.snd _).getLast? with
    | none => rfl
    | some last => rfl

/-- A point that names a profile hides those named before. -/
theorem accruing?_of_profiled
    (profiled : ∀ point ∈ points, (point.2.text? profileKeys).isSome)
    (catalog : Catalog)
    (meterService : String)
    (t : Instant) :
    accruing? catalog meterService points t =
      ((points.filter fun point => decide (point.1 ≤ t)).getLast?.map Prod.snd).bind fun s =>
        accruesFor catalog meterService (s.text? profileKeys) s := by
  rw [accruing?]
  cases lastOf : (points.filter fun point => decide (point.1 ≤ t)).getLast? with
  | none => rfl
  | some point =>
    have inPoints : point ∈ points := (List.mem_filter.mp (List.mem_of_getLast? lastOf)).1
    obtain ⟨profile, named⟩ := Option.isSome_iff_exists.mp (profiled point inPoints)
    obtain ⟨before, split⟩ := List.getLast?_eq_some_iff.mp lastOf
    have last : lastProfile? (before ++ [point]) = some profile := by
      have ofPoint : [point].filterMap (fun point => point.2.text? profileKeys) = [profile] :=
        List.filterMap_cons_some named
      rw [lastProfile?, List.filterMap_append, ofPoint, List.getLast?_concat]
    show accruesFor catalog meterService (lastProfile? _) point.2 = _
    rw [split, last]
    exact congrArg (accruesFor catalog meterService · point.2) named.symm

/-- What is known of a window tells what the whole history tells. -/
theorem accruing?_pointsIn
    (ascending : samples.Pairwise fun s later => s.timestamp < later.timestamp)
    (profiled : ∀ s ∈ samples, (s.text? profileKeys).isSome)
    (catalog : Catalog)
    (meterService : String)
    (opens : opening ≤ t)
    (closes : t < closing) :
    accruing? catalog meterService (pointsIn opening closing samples) t =
      shownAt catalog meterService samples t := by
  have pointsProfiled : ∀ point ∈ pointsIn opening closing samples,
      (point.2.text? profileKeys).isSome := by
    have inside : ∀ point ∈ (samplesIn opening closing samples).map fun s => (s.timestamp, s),
        (point.2.text? profileKeys).isSome := by
      intro point member
      have ⟨s, inSamples, isPoint⟩ := List.mem_map.mp member
      exact isPoint ▸ profiled s (List.mem_filter.mp inSamples).1
    rw [pointsIn]
    cases lead : leadIn? opening samples with
    | none => exact inside
    | some s =>
      have inSamples := (List.mem_filter.mp (List.mem_of_getLast? lead)).1
      exact List.forall_mem_cons.mpr ⟨profiled s inSamples, inside⟩
  rw [accruing?_of_profiled pointsProfiled, map_getLast?_filter_pointsIn ascending opens closes,
    shownAt]

/-! ## The seconds of runs -/

/-- A run that begins and ends with a second is recorded, however short it is. -/
theorem mem_served_closeOpen_iff
    (begun : ∀ begun ∈ run, begun.start = opening)
    (openingWhole : opening.nanos = 0)
    (stopWhole : stop.nanos = 0) :
    (t.timestamp, name) ∈ served (closeOpen run stop) ↔
      run.map Run.service = some name ∧ opening ≤ t ∧ t < stop := by
  rw [Instant.le_iff_of_whole openingWhole, Instant.lt_iff_of_whole stopWhole, mem_served_iff]
  constructor
  · intro ⟨record, closed, sameName, lower, upper⟩
    have ⟨⟨begins, stops⟩, _, _⟩ := (mem_closeOpen_iff run stop).mp closed
    have starts : record.start = opening := begun _ begins
    rw [starts] at lower
    rw [stops] at upper
    rw [begins, ← sameName]
    exact ⟨rfl, lower, upper⟩
  · intro ⟨serves, lower, upper⟩
    have ⟨open_, begins, sameName⟩ := Option.map_eq_some_iff.mp serves
    have starts : open_.start = opening := begun _ begins
    have lasts : 0 < stop.secondsSince open_.start := by
      rw [starts, Instant.secondsSince_of_whole openingWhole stopWhole]
      omega
    refine ⟨.ofService open_.service open_.start stop (.ofInt (stop.secondsSince open_.start)),
      ?_, sameName, ?_, upper⟩
    · rw [begins, closeOpen, Run.close, if_pos lasts]
      exact List.mem_singleton_self _
    · show open_.start.timestamp ≤ t.timestamp
      rwa [starts]

/-- The seconds of the usage of phases that begin with a second are those in which a
service accrues. -/
theorem mem_served_accrue_iff
    (proceeds : Proceeds opening run timeline closing)
    (openingWhole : opening.nanos = 0)
    (closingWhole : closing.nanos = 0)
    (phasesWhole : ∀ phase ∈ timeline, phase.start.nanos = 0) :
    (t.timestamp, name) ∈ served (accrue closing run timeline) ↔
      accruesBy run timeline t = some name ∧ opening ≤ t ∧ t < closing := by
  induction timeline generalizing opening run with
  | nil => exact mem_served_closeOpen_iff proceeds.begun openingWhole closingWhole
  | cons phase rest inductionHypothesis =>
    have ⟨phaseWhole, restWhole⟩ := List.forall_mem_cons.mp phasesWhole
    have opens := proceeds.opens phase List.mem_cons_self
    have closes := proceeds.closes phase List.mem_cons_self
    rw [accrue_cons]
    by_cases same : run.map Run.service = phase.service
    · rw [if_pos same, accruesBy_cons_of_same same]
      exact inductionHypothesis proceeds.goesOn openingWhole restWhole
    · rw [if_neg same, served_append, Set.mem_union,
        mem_served_closeOpen_iff proceeds.begun openingWhole phaseWhole,
        inductionHypothesis proceeds.begins phaseWhole restWhole]
      by_cases reached : phase.start ≤ t
      · have late : ¬ t < phase.start := Instant.not_lt.mpr reached
        have from_ : opening ≤ t := Instant.le_trans opens reached
        rw [accruesBy_cons_of_le reached]
        simp only [reached, late, from_, true_and, and_false, false_or]
      · have early : t < phase.start := Int.not_le.mp reached
        have until_ : t < closing := Int.lt_trans early closes
        rw [proceeds.accruesBy_cons_of_lt early]
        simp only [reached, early, until_, and_true, and_false, or_false]

/-! ## The usage of windows -/

/-- Samples of whole seconds in the order of time, each of which names a profile. -/
structure Profiled (samples : List Sample) : Prop where
  ascending : samples.Pairwise fun s later => s.timestamp < later.timestamp
  whole : ∀ s ∈ samples, s.timestamp.nanos = 0
  profiled : ∀ s ∈ samples, (s.text? profileKeys).isSome

/-- Whether a sample lies in a window. -/
def Seen (samples : List Sample) (w : Window) : Prop :=
  ∃ s ∈ samples, w.contains s.timestamp = .ok true

theorem Seen.samplesIn_ne_nil
    (seen : Seen samples w)
    (stops : w.stop = .ok closing) :
    samplesIn w.start closing samples ≠ [] := by
  have ⟨s, member, contained⟩ := seen
  have ⟨opens, closes⟩ := (Window.contains_eq_ok_true_iff stops).mp contained
  exact List.ne_nil_of_mem (List.mem_filter.mpr ⟨member, by simp [opens, closes]⟩)

theorem seen_iff_seconds
    (whole : w.Whole)
    (stops : w.stop = .ok closing) :
    Seen samples w ↔ ∃ s ∈ samples, s.timestamp.timestamp ∈ w.seconds := by
  simp only [Seen, Window.contains_eq_ok_true_iff stops, whole.mem_seconds_iff stops]

/-- A window in which a sample lies is metered for the seconds in which a service
accrues as the whole history shows it. -/
theorem exists_meter_of_profiled
    (stream : Profiled samples)
    (whole : w.Whole)
    (stops : w.stop = .ok closing)
    (seen : Seen samples w)
    (meterService : String)
    (catalog : Catalog) :
    ∃ records, (Strategy.uptime.meter meterService samples w catalog).1 = .ok records ∧
      ∀ (t : Instant) name, (t.timestamp, name) ∈ served records ↔
        shownAt catalog meterService samples t = some name ∧ t.timestamp ∈ w.seconds := by
  have bounds : w.bounds = .ok (w.start, closing) := Window.bounds_eq_ok_iff.mpr ⟨rfl, stops⟩
  have ⟨_, closingWhole⟩ := whole.stop_eq_ok_iff.mp stops
  have ⟨run, timeline, proceeds, starts, sameUsage, sameService⟩ :=
    exists_proceeds stream.ascending w.start closing meterService catalog
  have phasesWhole : ∀ phase ∈ timeline, phase.start.nanos = 0 := by
    intro phase member
    have ⟨s, inSamples, isStart⟩ := starts phase member
    exact isStart ▸ stream.whole s (List.mem_filter.mp inSamples).1
  refine ⟨_, meter_of_ascending stream.ascending bounds meterService catalog, ?_⟩
  intro t name
  rw [usage_of_seen (seen.samplesIn_ne_nil stops), sameUsage,
    mem_served_accrue_iff proceeds whole.start closingWhole phasesWhole,
    whole.mem_seconds_iff stops]
  apply and_congr_left
  intro ⟨opens, closes⟩
  rw [← sameService t opens,
    accruing?_pointsIn stream.ascending stream.profiled catalog meterService opens closes]

/-- The same for windows one after another: what metering leaves in the catalog does not
change what later windows are metered for. -/
theorem exists_meterWindows_of_profiled
    (stream : Profiled samples)
    (whole : ∀ w ∈ windows, w.Whole)
    (stops : ∀ w ∈ windows, ∃ stop, w.stop = .ok stop)
    (seen : ∀ w ∈ windows, Seen samples w)
    (meterService : String)
    (unit : RateUnit)
    (catalog : Catalog) :
    ∃ records,
      (Metering.meterWindows ⟨.uptime, meterService, unit⟩ samples windows catalog).1 =
        .ok records ∧
      ∀ (t : Instant) name, (t.timestamp, name) ∈ served records ↔
        shownAt catalog meterService samples t = some name ∧
          ∃ w ∈ windows, t.timestamp ∈ w.seconds := by
  induction windows generalizing catalog with
  | nil => exact ⟨[], rfl, by simp [mem_served_iff]⟩
  | cons w rest inductionHypothesis =>
    have ⟨wWhole, restWhole⟩ := List.forall_mem_cons.mp whole
    have ⟨⟨closing, wStops⟩, restStops⟩ := List.forall_mem_cons.mp stops
    have ⟨wSeen, restSeen⟩ := List.forall_mem_cons.mp seen
    have ⟨own, metered, ofOwn⟩ :=
      exists_meter_of_profiled stream wWhole wStops wSeen meterService catalog
    cases window : Strategy.uptime.meter meterService samples w catalog with
    | mk outcome resolved =>
      have ⟨others, later, ofOthers⟩ := inductionHypothesis restWhole restStops restSeen resolved
      have leaves : resolved.serviceFor = catalog.serviceFor := by
        have sees := Strategy.uptime.seesServices_meter meterService samples w
        have left := sees.leaves catalog
        rwa [window] at left
      rw [window] at metered
      dsimp only at metered
      refine ⟨own ++ others, ?_, ?_⟩
      · rw [Metering.meterWindows]
        dsimp only
        rw [window, metered]
        dsimp only
        rw [later]
        rfl
      · intro t name
        rw [served_append, Set.mem_union, ofOwn, ofOthers, shownAt_congr leaves, ← and_or_left]
        simp only [List.mem_cons, exists_eq_or_imp]

/-- A window and the windows that it is divided into, with a sample in each, are metered
for the same services in the same seconds. -/
theorem served_eq_of_divided
    (stream : Profiled samples)
    (start : Instant)
    (startWhole : start.nanos = 0)
    (count : Nat)
    (divides : 0 < count)
    (width : Int)
    (positive : 0 < width)
    (meterService : String)
    (unit : RateUnit)
    (catalog : Catalog) :
    let wide : Window := ⟨start, count * width⟩
    match wide.bounds with
    | .ok _ =>
      ∃ narrow, Window.successive count ⟨start, width⟩ = .ok narrow ∧
        ((∀ w ∈ narrow, Seen samples w) →
          ∃ wideRecords narrowRecords,
            (Strategy.uptime.meter meterService samples wide catalog).1 = .ok wideRecords ∧
            (Metering.meterWindows ⟨.uptime, meterService, unit⟩ samples narrow catalog).1 =
              .ok narrowRecords ∧
            served wideRecords = served narrowRecords)
    | .error failure =>
      (Strategy.uptime.meter meterService samples wide catalog).1 = .error failure ∧
        ∀ narrow, Window.successive count ⟨start, width⟩ ≠ .ok narrow := by
  intro wide
  have wideWhole : wide.Whole := ⟨startWhole, Int.mul_pos (by omega) positive⟩
  have first : (⟨start, width⟩ : Window).Whole := ⟨startWhole, positive⟩
  cases bounds : wide.bounds with
  | error failure =>
    constructor
    · rw [Strategy.meter, SampleStream.split, bounds]
      rfl
    · intro narrow run
      obtain ⟨stop, ends⟩ := (first.exists_successive_iff count).mp ⟨narrow, run⟩
      have inBounds : wide.bounds = .ok (start, stop) :=
        Window.bounds_eq_ok_iff.mpr ⟨rfl, wideWhole.stop_eq_ok_iff.mpr ends⟩
      rw [bounds] at inBounds
      cases inBounds
  | ok range =>
    obtain ⟨_, stops⟩ := Window.bounds_eq_ok_iff.mp bounds
    obtain ⟨narrow, run⟩ :=
      (first.exists_successive_iff count).mpr ⟨range.2, wideWhole.stop_eq_ok_iff.mp stops⟩
    refine ⟨narrow, run, ?_⟩
    intro seen
    have each := first.of_mem_successive run
    have seconds := first.mem_seconds_successive_iff run
    obtain ⟨narrowRecords, narrowMetered, ofNarrow⟩ := exists_meterWindows_of_profiled stream
      (fun w member => (each w member).1) (fun w member => (each w member).2.2.2) seen
      meterService unit catalog
    have wideSeen : Seen samples wide := by
      have inNarrow := Window.first_mem_successive run divides
      obtain ⟨_, firstStops⟩ := (each _ inNarrow).2.2.2
      obtain ⟨s, member, inFirst⟩ := (seen_iff_seconds first firstStops).mp (seen _ inNarrow)
      exact (seen_iff_seconds wideWhole stops).mpr
        ⟨s, member, (seconds _).mp ⟨_, inNarrow, inFirst⟩⟩
    obtain ⟨wideRecords, wideMetered, ofWide⟩ :=
      exists_meter_of_profiled stream wideWhole stops wideSeen meterService catalog
    refine ⟨wideRecords, narrowRecords, wideMetered, narrowMetered, ?_⟩
    apply served_eq_of_instants
    intro t name
    rw [ofWide, ofNarrow, seconds]

/-- An instance of one profile that is active until it is stopped. -/
def smallSamples (first second stopped : Fin 86400) : List Sample := [
  ⟨.ofSecond first, none, .object [("status", .text "active"), ("flavor", .text "m1.small")]⟩,
  ⟨.ofSecond second, none, .object [("status", .text "active"), ("flavor", .text "m1.small")]⟩,
  ⟨.ofSecond stopped, none, .object [("status", .text "stopped"), ("flavor", .text "m1.small")]⟩]

private theorem profiled_smallSamples :
    Profiled (smallSamples 1 4 6) :=
  ⟨by decide, by decide, by decide⟩

private theorem seen_smallSamples :
    ∀ w ∈ ([⟨.ofSecond 0, 4⟩, ⟨.ofSecond 4, 4⟩] : List Window), Seen (smallSamples 1 4 6) w := by
  unfold Seen
  decide

private theorem samplesIn_smallSamples :
    samplesIn (.ofSecond 0) (.ofSecond 8) (smallSamples 1 4 6) = smallSamples 1 4 6 := by
  cbv

private theorem phases_smallSamples :
    (phases "instance" none (pointsIn (.ofSecond 0) (.ofSecond 8) (smallSamples 1 4 6))
      smallCatalog).1 = [⟨.ofSecond 1, some "vm.small"⟩, ⟨.ofSecond 4, some "vm.small"⟩,
        ⟨.ofSecond 6, none⟩] := by
  have lead : leadIn? (.ofSecond 0) (smallSamples 1 4 6) = none := by
    cbv
  rw [pointsIn, lead, samplesIn_smallSamples]
  simp only [smallSamples, List.map_cons, List.map_nil, phases_cons]
  cbv

private theorem meter_smallSamples :
    (Strategy.uptime.meter "instance" (smallSamples 1 4 6) ⟨.ofSecond 0, 8⟩ smallCatalog).1 =
      .ok [.ofService "vm.small" (.ofSecond 1) (.ofSecond 6) (.ofInt 5)] := by
  have bounds : (⟨.ofSecond 0, 8⟩ : Window).bounds = .ok (.ofSecond 0, .ofSecond 8) := by
    decide
  have seen : samplesIn (.ofSecond 0) (.ofSecond 8) (smallSamples 1 4 6) ≠ [] := by
    rw [samplesIn_smallSamples]
    exact List.cons_ne_nil _ _
  rw [meter_of_ascending profiled_smallSamples.ascending bounds, usage_of_seen seen,
    phases_smallSamples]
  decide

/-- A run of five seconds is cut where a sample lies, and is metered for the same
seconds. -/
theorem served_smallSamples :
    Profiled (smallSamples 1 4 6) ∧
      (∀ w ∈ ([⟨.ofSecond 0, 4⟩, ⟨.ofSecond 4, 4⟩] : List Window), Seen (smallSamples 1 4 6) w) ∧
      ∃ narrowRecords,
        (Metering.meterWindows ⟨.uptime, "instance", .time⟩ (smallSamples 1 4 6)
          [⟨.ofSecond 0, 4⟩, ⟨.ofSecond 4, 4⟩] smallCatalog).1 = .ok narrowRecords ∧
        served [.ofService "vm.small" (.ofSecond 1) (.ofSecond 6) (.ofInt 5)] =
          served narrowRecords := by
  have ⟨narrow, run, metered⟩ := served_eq_of_divided profiled_smallSamples (.ofSecond 0) rfl 2
    (by decide) 4 (by decide) "instance" .time smallCatalog
  have ⟨wideRecords, narrowRecords, wideMetered, narrowMetered, same⟩ :=
    metered (by cases run; exact seen_smallSamples)
  cases run
  rw [Except.ok.inj (wideMetered.symm.trans meter_smallSamples)] at same
  exact ⟨profiled_smallSamples, seen_smallSamples, narrowRecords, narrowMetered, same⟩

end Uptime

end UsageBilling

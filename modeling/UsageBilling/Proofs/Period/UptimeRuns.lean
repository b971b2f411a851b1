import UsageBilling.Proofs.Period.LeapSeconds
import UsageBilling.Proofs.Reconciler.Time

/-!
Contract: usage by uptime as runs that follow one another.

Owns:
- the seconds a record is metered for against the seconds it reaches into: one more
  if it stops earlier within its second than it starts within its own;
- the usage of a window: runs in the order of time, within the window, none before
  the end of the one before it, each metered for the whole seconds it lasts;
- the same for the usage of consecutive windows.

Does not own: what is billed for the usage.
-/

namespace UsageBilling

namespace Instant

variable {earlier later : Instant}

/-- Between instants in no leap second lie the whole seconds that have passed, and one
more bound between seconds if the later instant is earlier within its second. -/
theorem timestamp_sub_eq
    (earlierPlain : earlier.isLeap = false)
    (laterPlain : later.isLeap = false)
    (lasts : 0 < later.secondsSince earlier) :
    later.timestamp - earlier.timestamp =
      later.secondsSince earlier + if later.nanos < earlier.nanos then 1 else 0 := by
  have noLeap := leapBetween_of_plain earlierPlain laterPlain
  have earlierNanos : earlier.nanos < nanosPerSecond := by
    simpa [isLeap] using earlierPlain
  have laterNanos : later.nanos < nanosPerSecond := by
    simpa [isLeap] using laterPlain
  have second := le_of_tdiv_pos lasts
  rw [secondsSince, Int.tdiv_eq_ediv_of_nonneg]
  · rw [nanosSince, noLeap] at second ⊢
    simp only [nanosPerSecond, Nat.cast_ofNat] at *
    split <;> omega
  · simp only [nanosPerSecond, Nat.cast_ofNat] at second ⊢
    omega

end Instant

/-! ## Records -/

namespace UsageRecord

/-- Whether a record stops earlier within its second than it starts within its own. -/
def Straddles (record : UsageRecord) : Prop :=
  record.stop.nanos < record.start.nanos

instance (record : UsageRecord) : Decidable record.Straddles :=
  inferInstanceAs (Decidable (_ < _))

/-- Whether a record is metered for the whole seconds that it lasts, of which there is
one, from and to an instant in no leap second. -/
structure Clocked (record : UsageRecord) : Prop where
  startPlain : record.start.isLeap = false
  stopPlain : record.stop.isLeap = false
  lasts : 0 < record.duration
  volume : record.volume = Decimal.ofInt record.duration

variable {record : UsageRecord}

theorem Clocked.reaches
    (clocked : record.Clocked) :
    Reconciler.Reaches record :=
  Instant.timestamp_lt_of_secondsSince clocked.startPlain clocked.stopPlain clocked.lasts

theorem Clocked.timestamp_sub_eq
    (clocked : record.Clocked) :
    record.stop.timestamp - record.start.timestamp =
      record.duration + if record.Straddles then 1 else 0 :=
  Instant.timestamp_sub_eq clocked.startPlain clocked.stopPlain clocked.lasts

theorem Clocked.toRat_volume
    (clocked : record.Clocked) :
    record.volume.toRat = record.duration := by
  have startBound := record.start.natAbs_timestamp_lt
  have stopBound := record.stop.natAbs_timestamp_lt
  have between := clocked.timestamp_sub_eq
  have lasts := clocked.lasts
  have small : record.duration.natAbs < Decimal.mantissaLimit := by
    simp only [Decimal.mantissaLimit]
    split at between <;> omega
  rw [clocked.volume, Decimal.toRat_ofInt small]

end UsageRecord

namespace Uptime

open UsageRecord (Clocked)

variable {opening middle closing : Instant} {records left right : List UsageRecord}

/-- Records between two instants that follow one another. -/
structure Runs (opening closing : Instant) (records : List UsageRecord) : Prop where
  bounds : ∀ record ∈ records, opening ≤ record.start ∧ record.stop ≤ closing
  ascending : records.Pairwise fun record later => record.stop ≤ later.start
  clocked : ∀ record ∈ records, record.Clocked

theorem runs_nil : Runs opening closing [] :=
  ⟨by simp, List.Pairwise.nil, by simp⟩

theorem Runs.append
    (leftRuns : Runs opening middle left)
    (rightRuns : Runs middle closing right)
    (opens : opening ≤ middle)
    (closes : middle ≤ closing) :
    Runs opening closing (left ++ right) := by
  refine ⟨?_, List.pairwise_append.mpr ⟨leftRuns.ascending, rightRuns.ascending, ?_⟩, ?_⟩
  · intro record member
    rcases List.mem_append.mp member with inLeft | inRight
    · have ⟨lower, upper⟩ := leftRuns.bounds record inLeft
      exact ⟨lower, Instant.le_trans upper closes⟩
    · have ⟨lower, upper⟩ := rightRuns.bounds record inRight
      exact ⟨Instant.le_trans opens lower, upper⟩
  · intro record inLeft later inRight
    exact Instant.le_trans (leftRuns.bounds record inLeft).2 (rightRuns.bounds later inRight).1
  · intro record member
    exact (List.mem_append.mp member).elim (leftRuns.clocked record) (rightRuns.clocked record)

/-! ## The usage of a window -/

theorem runs_close
    {run : Run}
    {stop : Instant}
    (startPlain : run.start.isLeap = false)
    (stopPlain : stop.isLeap = false)
    (opens : opening ≤ run.start) :
    Runs opening stop (run.close stop) := by
  rw [Run.close]
  split
  · rename_i lasts
    refine ⟨?_, List.pairwise_singleton _ _, ?_⟩
    · intro record member
      rw [List.mem_singleton.mp member]
      exact ⟨opens, Instant.le_refl stop⟩
    · intro record member
      rw [List.mem_singleton.mp member]
      exact ⟨startPlain, stopPlain, lasts, rfl⟩
  · exact runs_nil

/-- A run that is open from an instant on, and phases that begin in the order of
time. -/
structure Unfolds (opening : Instant) (run : Option Run) (timeline : List Phase)
    (closing : Instant) : Prop where
  sorted : timeline.Pairwise fun phase later => phase.start ≤ later.start
  opens : ∀ phase ∈ timeline, opening ≤ phase.start
  closes : ∀ phase ∈ timeline, phase.start ≤ closing
  plain : ∀ phase ∈ timeline, phase.start.isLeap = false
  opened : ∀ begun ∈ run, opening ≤ begun.start ∧ begun.start.isLeap = false

theorem runs_closeOpen
    {run : Option Run}
    {stop : Instant}
    (opened : ∀ begun ∈ run, opening ≤ begun.start ∧ begun.start.isLeap = false)
    (stopPlain : stop.isLeap = false) :
    Runs opening stop (closeOpen run stop) := by
  cases run with
  | none => exact runs_nil
  | some begun =>
    have ⟨opens, startPlain⟩ := opened begun rfl
    exact runs_close startPlain stopPlain opens

theorem runs_accrue
    {run : Option Run}
    {timeline : List Phase}
    (unfolds : Unfolds opening run timeline closing)
    (closingPlain : closing.isLeap = false)
    (inhabited : opening ≤ closing) :
    Runs opening closing (accrue closing run timeline) := by
  induction timeline generalizing opening run with
  | nil => exact runs_closeOpen unfolds.opened closingPlain
  | cons phase rest inductionHypothesis =>
    have ⟨later, restSorted⟩ := List.pairwise_cons.mp unfolds.sorted
    have opens := unfolds.opens phase List.mem_cons_self
    have closes := unfolds.closes phase List.mem_cons_self
    have phasePlain := unfolds.plain phase List.mem_cons_self
    have restCloses := fun other member => unfolds.closes other (List.mem_cons_of_mem phase member)
    have restPlain := fun other member => unfolds.plain other (List.mem_cons_of_mem phase member)
    have closed := runs_closeOpen unfolds.opened phasePlain
    unfold accrue
    split
    · exact closed.append (inductionHypothesis
        ⟨restSorted, later, restCloses, restPlain, by simp⟩ closes) opens closes
    · rename_i service _
      split
      · have restOpens := fun other member =>
          unfolds.opens other (List.mem_cons_of_mem phase member)
        exact inductionHypothesis
          ⟨restSorted, restOpens, restCloses, restPlain, unfolds.opened⟩ inhabited
      · have opened : ∀ begun ∈ some (⟨service, phase.start⟩ : Run),
            phase.start ≤ begun.start ∧ begun.start.isLeap = false := by
          intro begun isNew
          rw [← Option.some.inj isNew]
          exact ⟨Instant.le_refl phase.start, phasePlain⟩
        exact closed.append (inductionHypothesis
          ⟨restSorted, later, restCloses, restPlain, opened⟩ closes) opens closes

/-- Each point begins a phase. -/
theorem map_start_phases
    (meterService : String)
    (seen : Option String)
    (points : List (Instant × Sample))
    (catalog : Catalog) :
    (phases meterService seen points catalog).1.map Phase.start = points.map Prod.fst := by
  induction points generalizing seen catalog with
  | nil => rfl
  | cons point rest inductionHypothesis =>
    unfold phases
    split
    · exact congrArg (point.1 :: ·) (inductionHypothesis _ _)
    · exact congrArg (point.1 :: ·) (inductionHypothesis _ _)

/-- Whether the samples of a window are in the order of time, in the window, and in no
leap second. -/
structure InOrder (opening closing : Instant) (samples : List Sample) : Prop where
  sorted : samples.Pairwise fun s later => s.timestamp ≤ later.timestamp
  opens : ∀ s ∈ samples, opening ≤ s.timestamp
  closes : ∀ s ∈ samples, s.timestamp ≤ closing
  plain : ∀ s ∈ samples, s.timestamp.isLeap = false

theorem unfolds_phases
    {part : WindowPart}
    (inOrder : InOrder opening closing part.inWindow)
    (openingPlain : opening.isLeap = false)
    (inhabited : opening ≤ closing)
    (meterService : String)
    (catalog : Catalog) :
    Unfolds opening none (phases meterService none (points opening part) catalog).1 closing := by
  have starts := map_start_phases meterService none (points opening part) catalog
  generalize (phases meterService none (points opening part) catalog).1 = timeline at starts
  have ofInstants : timeline.map Phase.start =
      (part.leadIn.map fun _ => opening).toList ++ part.inWindow.map Sample.timestamp := by
    rw [starts, points, List.map_append, List.map_map]
    cases part.leadIn with
    | none => rfl
    | some s => rfl
  have each : ∀ holds : Instant → Prop, holds opening →
      (∀ s ∈ part.inWindow, holds s.timestamp) → ∀ phase ∈ timeline, holds phase.start := by
    intro holds ofOpening ofSamples phase member
    have inInstants := List.mem_map_of_mem (f := Phase.start) member
    rw [ofInstants] at inInstants
    rcases List.mem_append.mp inInstants with inLeadIn | inWindow
    · have ⟨_, _, isOpening⟩ := Option.map_eq_some_iff.mp (Option.mem_toList.mp inLeadIn)
      exact isOpening ▸ ofOpening
    · have ⟨s, inSamples, ofSample⟩ := List.mem_map.mp inWindow
      exact ofSample ▸ ofSamples s inSamples
  refine ⟨?_, each (opening ≤ ·) (Instant.le_refl opening) inOrder.opens,
    each (· ≤ closing) inhabited inOrder.closes,
    each (·.isLeap = false) openingPlain inOrder.plain, by simp⟩
  have sorted : (timeline.map Phase.start).Pairwise fun t later => t ≤ later := by
    rw [ofInstants, List.pairwise_append]
    refine ⟨?_, List.pairwise_map.mpr inOrder.sorted, ?_⟩
    · cases part.leadIn with
      | none => exact List.Pairwise.nil
      | some s => exact List.pairwise_singleton _ _
    · intro t inLeadIn later inWindow
      have ⟨_, _, isOpening⟩ := Option.map_eq_some_iff.mp (Option.mem_toList.mp inLeadIn)
      have ⟨s, inSamples, ofSample⟩ := List.mem_map.mp inWindow
      rw [← isOpening, ← ofSample]
      exact inOrder.opens s inSamples
  exact List.pairwise_map.mp sorted

theorem runs_usage
    {part : WindowPart}
    (inOrder : InOrder opening closing part.inWindow)
    (openingPlain : opening.isLeap = false)
    (closingPlain : closing.isLeap = false)
    (inhabited : opening ≤ closing)
    (meterService : String)
    (catalog : Catalog) :
    Runs opening closing (usage meterService part opening closing catalog).1 := by
  unfold usage
  split
  · exact runs_nil
  · exact runs_accrue (unfolds_phases inOrder openingPlain inhabited meterService catalog)
      closingPlain inhabited

theorem inOrder_of_split
    {samples : List Sample}
    {w : Window}
    (bounds : w.bounds = .ok (opening, closing))
    (plain : ∀ s ∈ samples, s.timestamp.isLeap = false) :
    ∃ part, SampleStream.split samples w = .ok part ∧ InOrder opening closing part.inWindow := by
  refine ⟨_, by rw [SampleStream.split, bounds]; rfl, ?_⟩
  have inside : ∀ s ∈ SampleStream.ordered (samples.filter fun s =>
      opening ≤ s.timestamp && s.timestamp < closing),
      s ∈ samples ∧ opening ≤ s.timestamp ∧ s.timestamp < closing := by
    intro s member
    have filtered := SampleStream.mem_ordered.mp member
    simpa using filtered
  refine ⟨?_, ?_, ?_, ?_⟩
  · exact SampleStream.ascending_ordered _
  · exact fun s member => (inside s member).2.1
  · exact fun s member => Int.le_of_lt (inside s member).2.2
  · exact fun s member => plain s (inside s member).1

/-! ## The usage of windows -/

/-- Records in windows that follow one another. -/
structure RunsIn (windows : List Window) (records : List UsageRecord) : Prop where
  inside : ∀ record ∈ records, ∃ w ∈ windows, w.start.timestamp ≤ record.start.timestamp ∧
    record.stop.timestamp ≤ w.start.timestamp + w.width
  ascending : records.Pairwise fun record later => record.stop ≤ later.start
  clocked : ∀ record ∈ records, record.Clocked

theorem runsIn_cons
    {w : Window}
    {rest : List Window}
    (whole : w.Whole)
    (stops : w.stop = .ok closing)
    (below : ∀ later ∈ rest, w.start.timestamp + w.width ≤ later.start.timestamp)
    (own : Runs w.start closing left)
    (others : RunsIn rest right) :
    RunsIn (w :: rest) (left ++ right) := by
  have ⟨ends, wholeStop⟩ := whole.stop_eq_ok_iff.mp stops
  refine ⟨?_, List.pairwise_append.mpr ⟨own.ascending, others.ascending, ?_⟩, ?_⟩
  · intro record member
    rcases List.mem_append.mp member with inLeft | inRight
    · have ⟨lower, upper⟩ := own.bounds record inLeft
      refine ⟨w, List.mem_cons_self, Instant.timestamp_le_of_le lower, ?_⟩
      rw [← ends]
      exact Instant.timestamp_le_of_le upper
    · have ⟨later, inRest, bounds⟩ := others.inside record inRight
      exact ⟨later, List.mem_cons_of_mem w inRest, bounds⟩
  · intro record inLeft later inRight
    have ⟨next, inRest, lower, _⟩ := others.inside later inRight
    have beyond := below next inRest
    apply Instant.le_trans (own.bounds record inLeft).2
    rw [Instant.le_iff_of_whole wholeStop, ends]
    omega
  · intro record member
    exact (List.mem_append.mp member).elim (own.clocked record) (others.clocked record)

/-- The usage of instances in consecutive windows is metered as runs in them. -/
theorem exists_meterWindows_uptime
    {windows : List Window}
    {samples : List Sample}
    (whole : ∀ w ∈ windows, w.Whole)
    (stops : ∀ w ∈ windows, ∃ t, w.stop = .ok t)
    (apart : windows.Pairwise fun w later => w.start.timestamp + w.width ≤ later.start.timestamp)
    (plain : ∀ s ∈ samples, s.timestamp.isLeap = false)
    (meterService : String)
    (unit : RateUnit)
    (catalog : Catalog) :
    ∃ records, (Metering.meterWindows ⟨.uptime, meterService, unit⟩ samples windows catalog).1 =
      .ok records ∧ RunsIn windows records := by
  induction windows generalizing catalog with
  | nil => exact ⟨[], rfl, by simp, List.Pairwise.nil, by simp⟩
  | cons w rest inductionHypothesis =>
    simp only [List.mem_cons, forall_eq_or_imp] at whole stops
    have ⟨below, restApart⟩ := List.pairwise_cons.mp apart
    have ⟨wWhole, restWhole⟩ := whole
    have ⟨⟨closing, stopsAt⟩, restStops⟩ := stops
    have bounds : w.bounds = .ok (w.start, closing) :=
      Window.bounds_eq_ok_iff.mpr ⟨rfl, stopsAt⟩
    have ⟨openingPlain, closingPlain, filled⟩ := wWhole.bounds_plain bounds
    have ⟨part, split, inOrder⟩ := inOrder_of_split bounds plain
    have inhabited : w.start ≤ closing := by
      rw [Instant.le_iff_of_whole wWhole.start]
      omega
    have metered : Strategy.uptime.meter meterService samples w catalog =
        (.ok (usage meterService part w.start closing catalog).1,
          (usage meterService part w.start closing catalog).2) := by
      rw [Strategy.meter, split, bounds]
      rfl
    have own := runs_usage inOrder openingPlain closingPlain inhabited meterService catalog
    have ⟨others, later, ofRest⟩ := inductionHypothesis restWhole restStops restApart
      (usage meterService part w.start closing catalog).2
    refine ⟨(usage meterService part w.start closing catalog).1 ++ others, ?_,
      runsIn_cons wWhole stopsAt below own ofRest⟩
    rw [Metering.meterWindows]
    dsimp only
    rw [metered]
    dsimp only
    rw [later]
    rfl

end Uptime

end UsageBilling

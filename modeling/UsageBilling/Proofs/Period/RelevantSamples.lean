import UsageBilling.Proofs.Period.MeteredRuns

/-!
Contract: the samples that the usage of a window depends on.

Owns:
- streams without two samples of one instant, which have one order and one latest sample
  whatever order they come in;
- a strategy sees a stream only through the samples inside the window, in order, and uptime
  also through the latest sample before it;
- so the order of a stream, the samples at or after the end of the window, and those before
  the latest one that precedes the window make no difference to usage, failure and catalog.

A window of a width that is not positive may end before it begins. No sample is inside it, and
without one even uptime does not look at what precedes it.

Does not own: what the usage of a window is.
-/

namespace UsageBilling

open Uptime (samplesIn bounds_of_mem_samplesIn)

/-! ## Streams of distinct instants -/

namespace SampleStream

variable {samples other : List Sample}

/-- No two samples are of one instant. -/
def Distinct (samples : List Sample) : Prop :=
  (samples.map Sample.timestamp).Nodup

theorem Distinct.eq_of_timestamp
    (distinct : Distinct samples)
    {s u : Sample}
    (member : s ∈ samples)
    (alsoMember : u ∈ samples)
    (same : s.timestamp = u.timestamp) :
    s = u :=
  List.inj_on_of_nodup_map distinct member alsoMember same

theorem Distinct.filter
    (distinct : Distinct samples)
    (test : Sample → Bool) :
    Distinct (samples.filter test) :=
  distinct.sublist (List.filter_sublist.map Sample.timestamp)

/-- Samples of distinct instants have one order. -/
theorem Distinct.ordered_eq_of_perm
    (distinct : Distinct samples)
    (permuted : other.Perm samples) :
    ordered other = ordered samples := by
  have sameSamples : (ordered other).Perm (ordered samples) :=
    (List.mergeSort_perm other _).trans (permuted.trans (List.mergeSort_perm samples _).symm)
  apply sameSamples.eq_of_pairwise _ (ascending_ordered other) (ascending_ordered samples)
  intro s u inOther inSamples before after
  exact distinct.eq_of_timestamp (mem_ordered.mp (sameSamples.mem_iff.mp inOther))
    (mem_ordered.mp inSamples) (Instant.le_antisymm before after)

theorem foldl_later_mem_and_le
    (held : Sample)
    (rest : List Sample) :
    rest.foldl (fun held s => if s.timestamp < held.timestamp then held else s) held ∈
        held :: rest ∧
      ∀ s ∈ held :: rest, s.timestamp ≤
        (rest.foldl (fun held s => if s.timestamp < held.timestamp then held else s)
          held).timestamp := by
  induction rest generalizing held with
  | nil => exact ⟨List.mem_cons_self, by simp [Instant.le_refl]⟩
  | cons next rest inductionHypothesis =>
    rw [List.foldl_cons]
    by_cases before : next.timestamp < held.timestamp
    · rw [if_pos before]
      have ⟨member, greatest⟩ := inductionHypothesis held
      have heldLe := greatest held List.mem_cons_self
      refine ⟨List.cons_subset_cons held (List.subset_cons_self next rest) member, ?_⟩
      intro s inList
      simp only [List.mem_cons] at inList
      rcases inList with rfl | rfl | inRest
      · exact heldLe
      · exact Instant.le_trans (Int.le_of_lt before) heldLe
      · exact greatest s (List.mem_cons_of_mem held inRest)
    · rw [if_neg before]
      have ⟨member, greatest⟩ := inductionHypothesis next
      refine ⟨List.mem_cons_of_mem held member, ?_⟩
      intro s inList
      rcases List.mem_cons.mp inList with rfl | inRest
      · exact Instant.le_trans (Instant.not_lt.mp before) (greatest next List.mem_cons_self)
      · exact greatest s inRest

/-- The latest sample is any that all others are earlier than. -/
theorem latest?_of_greatest
    {latest : Sample}
    (member : latest ∈ samples)
    (greatest : ∀ s ∈ samples, s = latest ∨ s.timestamp < latest.timestamp) :
    latest? samples = some latest := by
  cases samples with
  | nil => cases member
  | cons first rest =>
    have ⟨foundMember, foundGreatest⟩ := foldl_later_mem_and_le first rest
    rw [latest?]
    rcases greatest _ foundMember with same | before
    · rw [same]
    · exact absurd before (Instant.not_lt.mpr (foundGreatest latest member))

theorem Distinct.exists_greatest
    (distinct : Distinct samples)
    (inhabited : samples ≠ []) :
    ∃ latest ∈ samples, ∀ s ∈ samples, s = latest ∨ s.timestamp < latest.timestamp := by
  cases samples with
  | nil => exact absurd rfl inhabited
  | cons first rest =>
    have ⟨member, greatest⟩ := foldl_later_mem_and_le first rest
    refine ⟨_, member, ?_⟩
    intro s inList
    have notLater := greatest s inList
    rcases Int.lt_or_eq_of_le notLater with before | samePosition
    · exact Or.inr before
    · exact Or.inl (distinct.eq_of_timestamp inList member
        (Instant.le_antisymm notLater (Int.le_of_eq samePosition.symm)))

/-- Samples that are earlier than one of a stream do not change which is its latest. -/
theorem Distinct.latest?_eq
    (distinct : Distinct samples)
    (kept : samples ⊆ other)
    (earlier : ∀ s ∈ other, s ∈ samples ∨ ∃ u ∈ samples, s.timestamp < u.timestamp) :
    latest? other = latest? samples := by
  by_cases empty : samples = []
  · have alsoEmpty : other = [] := by
      apply List.eq_nil_iff_forall_not_mem.mpr
      intro s member
      rcases earlier s member with inSamples | ⟨u, inSamples, _⟩
      · rw [empty] at inSamples
        cases inSamples
      · rw [empty] at inSamples
        cases inSamples
    rw [empty, alsoEmpty]
  · have ⟨latest, member, greatest⟩ := distinct.exists_greatest empty
    rw [latest?_of_greatest member greatest]
    apply latest?_of_greatest (kept member)
    intro s inOther
    rcases earlier s inOther with inSamples | ⟨u, inSamples, before⟩
    · exact greatest s inSamples
    · rcases greatest u inSamples with isLatest | further
      · exact Or.inr (isLatest ▸ before)
      · exact Or.inr (Int.lt_trans before further)

/-! ## Samples before and inside a window -/

variable {opening closing : Instant} {added : List Sample} {w : Window}

/-- The samples before a window. -/
def samplesBefore (opening : Instant) (samples : List Sample) : List Sample :=
  samples.filter fun s => decide (s.timestamp < opening)

theorem mem_samplesBefore
    {s : Sample} :
    s ∈ samplesBefore opening samples ↔ s ∈ samples ∧ s.timestamp < opening := by
  rw [samplesBefore, List.mem_filter, decide_eq_true_eq]

theorem split_of_bounds
    (bounds : w.bounds = .ok (opening, closing))
    (samples : List Sample) :
    split samples w = .ok ⟨latest? (samplesBefore opening samples),
      ordered (samplesIn opening closing samples)⟩ := by
  rw [split, bounds]
  rfl

/-- Samples outside the window do not change what is inside. -/
theorem Distinct.ordered_samplesIn_eq
    (distinct : Distinct samples)
    (permuted : other.Perm (samples ++ added))
    (outside : ∀ s ∈ added, opening ≤ s.timestamp → ¬ s.timestamp < closing) :
    ordered (samplesIn opening closing other) = ordered (samplesIn opening closing samples) := by
  have noneAdded : samplesIn opening closing added = [] := by
    apply List.eq_nil_iff_forall_not_mem.mpr
    intro s member
    have ⟨lower, upper⟩ := bounds_of_mem_samplesIn member
    exact outside s (List.mem_of_mem_filter member) lower upper
  apply Distinct.ordered_eq_of_perm (distinct.filter _)
  have inside := permuted.filter fun s => opening ≤ s.timestamp && s.timestamp < closing
  rw [List.filter_append] at inside
  change (samplesIn opening closing other).Perm
    (samplesIn opening closing samples ++ samplesIn opening closing added) at inside
  rwa [noneAdded, List.append_nil] at inside

/-- Samples that precede another one before the window do not change what is known at its
start. -/
theorem Distinct.latest?_samplesBefore_eq
    (distinct : Distinct samples)
    (permuted : other.Perm (samples ++ added))
    (preceding : ∀ s ∈ added, s.timestamp < opening →
      ∃ u ∈ samples, s.timestamp < u.timestamp ∧ u.timestamp < opening) :
    latest? (samplesBefore opening other) = latest? (samplesBefore opening samples) := by
  apply (distinct.filter _).latest?_eq
  · intro s member
    have ⟨inSamples, before⟩ := mem_samplesBefore.mp member
    exact mem_samplesBefore.mpr
      ⟨permuted.mem_iff.mpr (List.mem_append_left _ inSamples), before⟩
  · intro s member
    have ⟨inOther, before⟩ := mem_samplesBefore.mp member
    rcases List.mem_append.mp (permuted.mem_iff.mp inOther) with inSamples | inAdded
    · exact Or.inl (mem_samplesBefore.mpr ⟨inSamples, before⟩)
    · have ⟨u, inSamples, earlier, uBefore⟩ := preceding s inAdded before
      exact Or.inr ⟨u, mem_samplesBefore.mpr ⟨inSamples, uBefore⟩, earlier⟩

end SampleStream

/-! ## Strategies -/

namespace Strategy

open SampleStream

variable {strategy : Strategy} {service : String} {w : Window} {catalog : Catalog}
  {samples other added : List Sample} {opening closing : Instant}

/-- A window that does not end on the timeline fails for every stream. -/
theorem meter_of_bounds_error
    {failure : Failure}
    (bounds : w.bounds = .error failure)
    (samples : List Sample) :
    strategy.meter service samples w catalog = (.error failure, catalog) := by
  rw [meter, SampleStream.split, bounds]
  rfl

/-- A strategy sees a stream only through what is inside the window, and uptime also through
the latest sample before it, unless nothing is inside. -/
theorem meter_eq_of_same_parts
    (bounds : w.bounds = .ok (opening, closing))
    (sameInside : ordered (samplesIn opening closing other) =
      ordered (samplesIn opening closing samples))
    (sameLeadIn : strategy = .uptime → samplesIn opening closing samples ≠ [] →
      latest? (samplesBefore opening other) = latest? (samplesBefore opening samples)) :
    strategy.meter service other w catalog = strategy.meter service samples w catalog := by
  unfold meter
  rw [split_of_bounds bounds, split_of_bounds bounds, bounds, sameInside]
  cases strategy with
  | gaugeMax => rfl
  | gaugeSum => rfl
  | networkService aggregation ceiling => rfl
  | fromImage keys => rfl
  | uptime =>
    by_cases unseen : samplesIn opening closing samples = []
    · have nothing : ordered (samplesIn opening closing samples) = [] := by
        rw [unseen]
        exact ordered_of_ascending List.Pairwise.nil
      simp only [Uptime.usage, nothing, List.isEmpty_nil, if_true]
    · rw [sameLeadIn rfl unseen]

/-- What a strategy makes of a window does not depend on the order of the samples, on samples
at or after its end, or on samples that another one before it is later than. Only uptime looks
at the latest sample before the window. Samples are added from left to right, and removed from
right to left. -/
structure SeesOnlyWindow (strategy : Strategy) (service : String) (w : Window)
    (catalog : Catalog) (samples : List Sample) : Prop where
  permuted : ∀ other : List Sample, other.Perm samples →
    strategy.meter service samples w catalog = strategy.meter service other w catalog
  later : ∀ other added : List Sample, other.Perm (samples ++ added) →
    (∀ s ∈ added, ∀ stop, w.stop = .ok stop → stop ≤ s.timestamp) →
    strategy.meter service samples w catalog = strategy.meter service other w catalog
  earlier : ∀ other added : List Sample, other.Perm (samples ++ added) →
    (∀ s ∈ added, ∃ latest ∈ samples,
      s.timestamp < latest.timestamp ∧ latest.timestamp < w.start) →
    strategy.meter service samples w catalog = strategy.meter service other w catalog
  leadIn : strategy ≠ .uptime →
    ∀ other added : List Sample, other.Perm (samples ++ added) →
    (∀ s ∈ added, s.timestamp < w.start) →
    strategy.meter service samples w catalog = strategy.meter service other w catalog

/-- Samples may be added that lie outside the window and, for uptime, do not change what is
known at its start. -/
theorem meter_eq_of_added
    (distinct : Distinct samples)
    (permuted : other.Perm (samples ++ added))
    (outside : ∀ stop, w.stop = .ok stop → ∀ s ∈ added,
      w.start ≤ s.timestamp → ¬ s.timestamp < stop)
    (preceding : strategy = .uptime → ∀ stop, w.stop = .ok stop → w.start < stop →
      ∀ s ∈ added, s.timestamp < w.start →
        ∃ u ∈ samples, s.timestamp < u.timestamp ∧ u.timestamp < w.start) :
    strategy.meter service samples w catalog = strategy.meter service other w catalog := by
  cases bounds : w.bounds with
  | error failure => rw [meter_of_bounds_error bounds, meter_of_bounds_error bounds]
  | ok range =>
    obtain ⟨opening, closing⟩ := range
    obtain ⟨rfl, stops⟩ := Window.bounds_eq_ok_iff.mp bounds
    refine (meter_eq_of_same_parts bounds
      (distinct.ordered_samplesIn_eq permuted (outside closing stops)) ?_).symm
    intro isUptime seen
    have ⟨s, member⟩ := List.exists_mem_of_ne_nil _ seen
    have ⟨begins, ends⟩ := bounds_of_mem_samplesIn member
    exact distinct.latest?_samplesBefore_eq permuted
      (preceding isUptime closing stops (Int.lt_of_le_of_lt begins ends))

/-- Whatever the strategy, the window and the catalog, only the samples of the window count,
in the order of time, and for uptime the latest one before it. -/
theorem seesOnlyWindow_of_distinct
    (distinct : Distinct samples)
    (strategy : Strategy)
    (service : String)
    (w : Window)
    (catalog : Catalog) :
    SeesOnlyWindow strategy service w catalog samples := by
  constructor
  case permuted =>
    intro other permuted
    rw [← List.append_nil samples] at permuted
    exact meter_eq_of_added distinct permuted (by simp) (by simp)
  case later =>
    intro other added permuted late
    apply meter_eq_of_added distinct permuted
    · intro stop stops s member _
      exact Instant.not_lt.mpr (late s member stop stops)
    · intro _ stop stops inhabited s member before
      exact absurd (Int.lt_of_lt_of_le inhabited (late s member stop stops)) (Int.lt_asymm before)
  case earlier =>
    intro other added permuted early
    apply meter_eq_of_added distinct permuted
    · intro stop _ s member begins
      have ⟨latest, _, earlier, before⟩ := early s member
      exact absurd (Int.lt_trans earlier before) (Instant.not_lt.mpr begins)
    · intro _ stop _ _ s member _
      exact early s member
  case leadIn =>
    intro notUptime other added permuted early
    apply meter_eq_of_added distinct permuted
    · intro stop _ s member begins
      exact absurd (early s member) (Instant.not_lt.mpr begins)
    · intro isUptime
      exact absurd isUptime notUptime

open Uptime (restlessSamples smallCatalog)

/-- The samples of a restless instance, delivered the other way round and after one of the
next hour. -/
theorem seesOnlyWindow_restlessSamples :
    Distinct (restlessSamples 3000 3600 4000 4100 4200 5000) ∧
      Strategy.uptime.meter "instance" (restlessSamples 3000 3600 4000 4100 4200 5000)
          ⟨.ofSecond 3600, 3600⟩ smallCatalog =
        Strategy.uptime.meter "instance"
          (restlessSamples 3000 3600 4000 4100 4200 5000 ++
            [(⟨.ofSecond 7200, none, .text "active"⟩ : Sample)]).reverse
          ⟨.ofSecond 3600, 3600⟩ smallCatalog := by
  have distinct : Distinct (restlessSamples 3000 3600 4000 4100 4200 5000) := by
    unfold Distinct
    decide
  have sees := seesOnlyWindow_of_distinct distinct .uptime "instance" ⟨.ofSecond 3600, 3600⟩
    smallCatalog
  refine ⟨distinct, sees.later _ _ (List.reverse_perm _) ?_⟩
  intro s member stop stops
  have ends : (⟨.ofSecond 3600, 3600⟩ : Window).stop = .ok (.ofSecond 7200) := by
    decide
  rw [List.mem_singleton.mp member, ← Except.ok.inj (ends.symm.trans stops)]
  exact Instant.le_refl _

end Strategy

end UsageBilling

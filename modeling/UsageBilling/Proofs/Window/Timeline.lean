import Mathlib
import UsageBilling.Window

/-!
Contract: whole seconds of the timeline, and windows as sets of them.

Owns:
- the order of instants read off their seconds;
- which seconds begin an instant, and shifts between such instants;
- windows that begin with a second, as all windows made for a width do;
- runs of windows that follow one another: how far the timeline must reach for them,
  their seconds, and counts over these.

Does not own: which windows a period has.
-/

namespace UsageBilling

/-! ## Instants and their seconds -/

namespace Instant

variable {t u : Instant}

private theorem no_nanos_lt : 0 < 2000000000 := by
  decide

def ofSecond (second : Fin 86400) : Instant :=
  ⟨0, second, 0, by decide, by decide, second.isLt, no_nanos_lt⟩

/-- The timeline is far shorter than 64 bits could count. -/
theorem natAbs_timestamp_lt
    (t : Instant) :
    t.timestamp.natAbs < 10000000000000 := by
  have dayLower := t.day_ge
  have dayUpper := t.day_le
  have secondBound := t.second_lt
  rw [show Calendar.firstDay = -96465292 by decide] at dayLower
  rw [show Calendar.lastDay = 95026236 by decide] at dayUpper
  simp only [timestamp, secondsPerDay]
  omega

theorem eq_of_timestamp
    (sameSecond : t.timestamp = u.timestamp)
    (sameNanos : t.nanos = u.nanos) :
    t = u := by
  obtain ⟨day, second, nanos, _, _, secondBound, _⟩ := t
  obtain ⟨day', second', nanos', _, _, secondBound', _⟩ := u
  simp only [timestamp, secondsPerDay] at sameSecond
  simp only [mk.injEq]
  exact ⟨by omega, by omega, sameNanos⟩

/-- An instant that begins a second is not after another exactly if its second
is not. -/
theorem le_iff_of_whole
    (whole : t.nanos = 0) :
    t ≤ u ↔ t.timestamp ≤ u.timestamp := by
  have bound := u.nanos_lt
  show t.position ≤ u.position ↔ _
  simp only [position, whole]
  omega

theorem lt_iff_of_whole
    (whole : u.nanos = 0) :
    t < u ↔ t.timestamp < u.timestamp := by
  have bound := t.nanos_lt
  show t.position < u.position ↔ _
  simp only [position, whole]
  omega

theorem not_lt : ¬ t < u ↔ u ≤ t :=
  Int.not_lt

theorem le_refl
    (t : Instant) :
    t ≤ t :=
  Int.le_refl t.position

theorem le_trans
    {v : Instant}
    (first : t ≤ u)
    (second : u ≤ v) :
    t ≤ v :=
  Int.le_trans first second

theorem le_antisymm
    (before : t ≤ u)
    (after : u ≤ t) :
    t = u := by
  have nanosBound := t.nanos_lt
  have nanosBound' := u.nanos_lt
  have samePosition : t.position = u.position := Int.le_antisymm before after
  simp only [position] at samePosition
  exact eq_of_timestamp (by omega) (by omega)

theorem timestamp_le_of_le
    (before : t ≤ u) :
    t.timestamp ≤ u.timestamp := by
  have bound := u.nanos_lt
  change t.position ≤ u.position at before
  simp only [position] at before
  omega

theorem ofTimestamp?_eq_some_iff
    (seconds : Int)
    (nanos : Nat) :
    ofTimestamp? seconds nanos = some t ↔ t.timestamp = seconds ∧ t.nanos = nanos := by
  constructor
  · intro made
    unfold ofTimestamp? ofParts? at made
    split at made
    · rw [← Option.some.inj made]
      simp only [timestamp, secondsPerDay, and_true]
      omega
    · simp at made
  · rintro ⟨rfl, rfl⟩
    have dayLower := t.day_ge
    have dayUpper := t.day_le
    have secondBound := t.second_lt
    have sameDay : t.timestamp / secondsPerDay = t.day := by
      simp only [timestamp, secondsPerDay]
      omega
    have sameSecond : (t.timestamp % secondsPerDay).toNat = t.second := by
      simp only [timestamp, secondsPerDay]
      omega
    rw [ofTimestamp?, ofParts?, sameDay, sameSecond,
      dif_pos ⟨dayLower, dayUpper, secondBound, t.nanos_lt⟩]

theorem exists_ofTimestamp?
    (seconds : Int)
    (lower : t.timestamp ≤ seconds)
    (upper : seconds ≤ u.timestamp) :
    ∃ begun, ofTimestamp? seconds 0 = some begun := by
  have dayLower := t.day_ge
  have dayUpper := u.day_le
  have secondBound := u.second_lt
  simp only [timestamp, secondsPerDay] at lower upper
  rw [ofTimestamp?, ofParts?, dif_pos]
  · exact ⟨_, rfl⟩
  · simp only [secondsPerDay]
    exact ⟨by omega, by omega, by omega, by decide⟩

theorem shift?_of_whole
    (whole : t.nanos = 0)
    (seconds : Int) :
    t.shift? seconds = ofTimestamp? (t.timestamp + seconds) 0 := by
  have notLeap : t.isLeap = false := by simp [isLeap, whole, nanosPerSecond]
  rw [shift?, notLeap, whole]
  rfl

/-- A later instant is that many seconds later, also where a leap second is left. -/
theorem timestamp_of_shift?
    {seconds : Int}
    (positive : 0 < seconds)
    (shifted : t.shift? seconds = some u) :
    u.timestamp = t.timestamp + seconds := by
  unfold shift? at shifted
  split at shifted
  · simp only [if_neg positive.ne'] at shifted
    exact ((ofTimestamp?_eq_some_iff _ _).mp shifted).1
  · exact ((ofTimestamp?_eq_some_iff _ _).mp shifted).1

end Instant

namespace Window

variable {w first : Window} {t : Instant} {width : Int} {count : Nat} {windows : List Window}

/-! ## Windows of whole seconds -/

/-- The window begins with a second and holds at least one. -/
structure Whole (w : Window) : Prop where
  start : w.start.nanos = 0
  width : 0 < w.width

noncomputable def seconds (w : Window) : Finset Int :=
  Finset.Ico w.start.timestamp (w.start.timestamp + w.width)

/-- A window made for a width begins at a multiple of the width. -/
theorem whole_of_ofWidth
    (made : ofWidth t width = .ok w) :
    w.Whole ∧ w.width = width ∧ w.start.timestamp = t.timestamp - t.timestamp % width := by
  unfold ofWidth at made
  split at made
  · simp [Outcome.report] at made
  · rename_i positive
    unfold around at made
    rw [Instant.shift?_of_whole (t := t.wholeSecond) rfl] at made
    cases begun : Instant.ofTimestamp?
        (t.wholeSecond.timestamp + -(t.timestamp % width)) 0 with
    | none =>
      rw [begun] at made
      cases made
    | some start =>
      rw [begun] at made
      cases made
      obtain ⟨sameSecond, whole⟩ := (Instant.ofTimestamp?_eq_some_iff _ _).mp begun
      refine ⟨⟨whole, Int.not_le.mp positive⟩, rfl, ?_⟩
      change start.timestamp = t.timestamp + -(t.timestamp % width) at sameSecond
      dsimp only
      omega

/-- A window of any start lasts for its width. -/
theorem timestamp_of_stop
    (positive : 0 < w.width)
    (stops : w.stop = .ok t) :
    t.timestamp = w.start.timestamp + w.width := by
  apply Instant.timestamp_of_shift? positive
  rw [stop, shifted] at stops
  cases later : w.start.shift? w.width with
  | none =>
    rw [later] at stops
    cases stops
  | some u =>
    rw [later] at stops
    cases stops
    rfl

/-- A window stops where its last second is over. -/
theorem Whole.stop_eq_ok_iff
    (whole : w.Whole) :
    w.stop = .ok t ↔ t.timestamp = w.start.timestamp + w.width ∧ t.nanos = 0 := by
  rw [stop, shifted, Instant.shift?_of_whole whole.start, ← Instant.ofTimestamp?_eq_some_iff]
  cases Instant.ofTimestamp? (w.start.timestamp + w.width) 0 with
  | none => simp [Outcome.orAbort]
  | some u => simp [Outcome.orAbort]

theorem bounds_eq_ok_iff
    {start stop : Instant} :
    w.bounds = .ok (start, stop) ↔ start = w.start ∧ w.stop = .ok stop := by
  rw [bounds]
  cases w.stop with
  | error failure => simp [bind, Except.bind]
  | ok last => simp [bind, Except.bind, pure, Except.pure, eq_comm]

theorem Whole.mem_seconds_iff
    (whole : w.Whole)
    {stop : Instant}
    (stops : w.stop = .ok stop) :
    t.timestamp ∈ w.seconds ↔ w.start ≤ t ∧ t < stop := by
  have ⟨ends, stopWhole⟩ := whole.stop_eq_ok_iff.mp stops
  rw [seconds, Finset.mem_Ico, Instant.le_iff_of_whole whole.start,
    Instant.lt_iff_of_whole stopWhole, ends]

theorem contains_eq_ok_true_iff
    {stop : Instant}
    (stops : w.stop = .ok stop) :
    w.contains t = .ok true ↔ w.start ≤ t ∧ t < stop := by
  rw [contains, stops]
  by_cases early : t < w.start
  · have outside : ¬ w.start ≤ t := Int.not_le.mpr early
    simp [early, outside, pure, Except.pure]
  · have reached : w.start ≤ t := Instant.not_lt.mp early
    simp [early, reached, bind, Except.bind, pure, Except.pure]

theorem next_eq_ok_iff
    (following : Window) :
    w.next = .ok following ↔ w.stop = .ok following.start ∧ following.width = w.width := by
  unfold next
  cases w.stop with
  | error failure => simp [bind, Except.bind]
  | ok t =>
    obtain ⟨start, width⟩ := following
    simp [bind, Except.bind, pure, Except.pure, eq_comm]

theorem Whole.next
    (whole : w.Whole)
    {following : Window}
    (follows : w.next = .ok following) :
    following.Whole ∧ following.width = w.width ∧
      following.start.timestamp = w.start.timestamp + w.width := by
  obtain ⟨stops, sameWidth⟩ := (next_eq_ok_iff following).mp follows
  obtain ⟨begins, beginsWhole⟩ := whole.stop_eq_ok_iff.mp stops
  exact ⟨⟨beginsWhole, sameWidth ▸ whole.width⟩, sameWidth, begins⟩

/-! ## Runs of windows -/

/-- The given number of windows, beginning with this one, each followed by the
next. -/
def successive : Nat → Window → Outcome (List Window)
  | 0, _ => pure []
  | count + 1, w => do
    let following ← w.next
    pure (w :: (← successive count following))

theorem successive_succ_eq_ok_iff :
    successive (count + 1) w = .ok windows ↔
      ∃ following rest, w.next = .ok following ∧ successive count following = .ok rest ∧
        windows = w :: rest := by
  rw [successive]
  cases w.next with
  | error failure => simp [bind, Except.bind]
  | ok following =>
    cases rest : successive count following with
    | error failure => simp [bind, Except.bind, rest]
    | ok rest => simp [bind, Except.bind, pure, Except.pure, rest, eq_comm]

theorem first_mem_successive
    (run : successive count first = .ok windows)
    (positive : 0 < count) :
    first ∈ windows := by
  cases count with
  | zero => exact absurd positive (Nat.lt_irrefl 0)
  | succ count =>
    have ⟨_, _, _, _, made⟩ := successive_succ_eq_ok_iff.mp run
    exact made ▸ List.mem_cons_self

/-- A run consists of windows of whole seconds that lie from its first window
on, and each of them stops on the timeline. -/
theorem Whole.of_mem_successive
    (whole : first.Whole)
    (run : successive count first = .ok windows)
    (w : Window)
    (member : w ∈ windows) :
    w.Whole ∧ w.width = first.width ∧ first.start.timestamp ≤ w.start.timestamp ∧
      ∃ stop, w.stop = .ok stop := by
  induction count generalizing first windows with
  | zero =>
    cases run
    simp at member
  | succ count inductionHypothesis =>
    obtain ⟨following, rest, follows, runsOn, rfl⟩ := successive_succ_eq_ok_iff.mp run
    obtain ⟨followingWhole, sameWidth, begins⟩ := whole.next follows
    rcases List.mem_cons.mp member with rfl | inRest
    · exact ⟨whole, rfl, Int.le_refl _, _, ((next_eq_ok_iff following).mp follows).1⟩
    · obtain ⟨laterWhole, laterWidth, later, stops⟩ :=
        inductionHypothesis followingWhole runsOn inRest
      have positive := whole.width
      exact ⟨laterWhole, laterWidth.trans sameWidth, by omega, stops⟩

/-- The windows of a run begin a number of widths after the first. -/
theorem Whole.dvd_of_mem_successive
    (whole : first.Whole)
    (run : successive count first = .ok windows)
    (w : Window)
    (member : w ∈ windows) :
    first.width ∣ w.start.timestamp - first.start.timestamp := by
  induction count generalizing first windows with
  | zero =>
    cases run
    simp at member
  | succ count inductionHypothesis =>
    obtain ⟨following, rest, follows, runsOn, rfl⟩ := successive_succ_eq_ok_iff.mp run
    obtain ⟨followingWhole, sameWidth, begins⟩ := whole.next follows
    rcases List.mem_cons.mp member with rfl | inRest
    · simp
    · have further := inductionHypothesis followingWhole runsOn inRest
      rw [sameWidth, begins] at further
      have sum := Int.dvd_add further (Int.dvd_refl first.width)
      rwa [show w.start.timestamp - (first.start.timestamp + first.width) + first.width =
        w.start.timestamp - first.start.timestamp by omega] at sum

theorem Whole.pairwise_successive
    (whole : first.Whole)
    (run : successive count first = .ok windows) :
    windows.Pairwise fun w later => w.start.timestamp + w.width ≤ later.start.timestamp := by
  induction count generalizing first windows with
  | zero =>
    cases run
    exact List.Pairwise.nil
  | succ count inductionHypothesis =>
    obtain ⟨following, rest, follows, runsOn, rfl⟩ := successive_succ_eq_ok_iff.mp run
    obtain ⟨followingWhole, sameWidth, begins⟩ := whole.next follows
    refine List.pairwise_cons.mpr ⟨?_, inductionHypothesis followingWhole runsOn⟩
    intro later member
    have := (followingWhole.of_mem_successive runsOn later member).2.2.1
    omega

/-- The windows of a run hold the seconds of one window that is as wide as all of them. -/
theorem Whole.mem_seconds_successive_iff
    (whole : first.Whole)
    (run : successive count first = .ok windows)
    (second : Int) :
    (∃ w ∈ windows, second ∈ w.seconds) ↔
      second ∈ (⟨first.start, count * first.width⟩ : Window).seconds := by
  simp only [seconds, Finset.mem_Ico]
  induction count generalizing first windows with
  | zero =>
    cases run
    simp
  | succ count inductionHypothesis =>
    have ⟨following, rest, follows, runsOn, made⟩ := successive_succ_eq_ok_iff.mp run
    have ⟨followingWhole, sameWidth, begins⟩ := whole.next follows
    have positive := whole.width
    have others : 0 ≤ count * first.width :=
      Int.mul_nonneg (Int.natCast_nonneg count) (Int.le_of_lt positive)
    simp only [made, List.mem_cons, exists_eq_or_imp]
    rw [inductionHypothesis followingWhole runsOn, begins, sameWidth, Nat.cast_succ, Int.add_mul]
    omega

/-- There is a run of windows exactly if the timeline reaches to where it ends. -/
theorem Whole.exists_successive_iff
    (whole : first.Whole)
    (count : Nat) :
    (∃ windows, successive count first = .ok windows) ↔
      ∃ stop : Instant, stop.timestamp = first.start.timestamp + count * first.width ∧
        stop.nanos = 0 := by
  induction count generalizing first with
  | zero => exact ⟨fun _ => ⟨first.start, by simp, whole.start⟩, fun _ => ⟨[], rfl⟩⟩
  | succ count inductionHypothesis =>
    have positive := whole.width
    have others : 0 ≤ count * first.width :=
      Int.mul_nonneg (Int.natCast_nonneg count) (Int.le_of_lt positive)
    rw [Nat.cast_succ, Int.add_mul, Int.one_mul]
    constructor
    · intro ⟨windows, run⟩
      have ⟨following, rest, follows, runsOn, _⟩ := successive_succ_eq_ok_iff.mp run
      have ⟨followingWhole, sameWidth, begins⟩ := whole.next follows
      have ⟨stop, ends, stopWhole⟩ := (inductionHypothesis followingWhole).mp ⟨rest, runsOn⟩
      rw [begins, sameWidth] at ends
      exact ⟨stop, by omega, stopWhole⟩
    · intro ⟨stop, ends, stopWhole⟩
      have ⟨next, made⟩ := Instant.exists_ofTimestamp? (t := first.start) (u := stop)
        (first.start.timestamp + first.width) (by omega) (by omega)
      have firstEnds := (Instant.ofTimestamp?_eq_some_iff _ _).mp made
      have follows : first.next = .ok ⟨next, first.width⟩ :=
        (next_eq_ok_iff _).mpr ⟨whole.stop_eq_ok_iff.mpr firstEnds, rfl⟩
      have ⟨followingWhole, _, begins⟩ := whole.next follows
      have ⟨rest, runsOn⟩ := (inductionHypothesis followingWhole).mpr
        ⟨stop, by rw [begins]; dsimp only; omega, stopWhole⟩
      exact ⟨first :: rest, successive_succ_eq_ok_iff.mpr ⟨_, rest, follows, runsOn, rfl⟩⟩

/-- What is counted window by window is counted over all seconds of windows
that do not overlap. -/
theorem sum_card_filter_seconds
    (apart : windows.Pairwise fun w later =>
      w.start.timestamp + w.width ≤ later.start.timestamp)
    (counted : Int → Prop)
    [DecidablePred counted] :
    (windows.map fun w => (w.seconds.filter counted).card).sum =
      ((windows.toFinset.biUnion seconds).filter counted).card := by
  induction windows with
  | nil => simp
  | cons w rest inductionHypothesis =>
    obtain ⟨below, apartRest⟩ := List.pairwise_cons.mp apart
    have disjoint : Disjoint w.seconds (rest.toFinset.biUnion seconds) := by
      rw [Finset.disjoint_left]
      intro second inHead inRest
      obtain ⟨later, member, inLater⟩ := Finset.mem_biUnion.mp inRest
      have := below later (List.mem_toFinset.mp member)
      rw [seconds, Finset.mem_Ico] at inHead inLater
      omega
    rw [List.map_cons, List.sum_cons, inductionHypothesis apartRest, List.toFinset_cons,
      Finset.biUnion_insert, Finset.filter_union,
      Finset.card_union_of_disjoint (Finset.disjoint_filter_filter disjoint)]

end Window

end UsageBilling

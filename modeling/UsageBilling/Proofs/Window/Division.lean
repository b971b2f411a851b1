import UsageBilling.Proofs.Window.Timeline

/-!
Contract: windows of one width that lie whole widths apart.

Owns:
- the seconds that the timeline has, and shifts that stay on it;
- the number of widths between two windows of one division of time;
- the instants that a window holds, which no other window of its division holds;
- the window of a width around an instant, which begins a whole number of widths from the
  epoch;
- the windows on both sides of one, which touch it.

An instant of a leap second is no start of such windows: a shift forward leaves it for the
second after it, and the shift back does not return to it.

Does not own: lists of windows.
-/

namespace UsageBilling

/-! ## The timeline -/

namespace Instant

variable {t u : Instant} {second : Int} {nanos : Nat}

/-- Whether a second from the epoch lies between the first and the last day. -/
def OnTimeline (second : Int) : Prop :=
  Calendar.firstDay * secondsPerDay ≤ second ∧ second < (Calendar.lastDay + 1) * secondsPerDay

instance (second : Int) : Decidable (OnTimeline second) :=
  inferInstanceAs (Decidable (_ ∧ _))

theorem onTimeline_timestamp
    (t : Instant) :
    OnTimeline t.timestamp := by
  have dayLower := t.day_ge
  have dayUpper := t.day_le
  have secondBound := t.second_lt
  simp only [OnTimeline, timestamp, secondsPerDay]
  omega

theorem OnTimeline.between
    {low high : Int}
    (lowOn : OnTimeline low)
    (highOn : OnTimeline high)
    (second : Int)
    (lower : low ≤ second)
    (upper : second ≤ high) :
    OnTimeline second :=
  ⟨Int.le_trans lowOn.1 lower, Int.lt_of_le_of_lt upper highOn.2⟩

theorem exists_ofTimestamp?_iff
    (second : Int)
    (nanosBound : nanos < 2000000000) :
    (∃ t, ofTimestamp? second nanos = some t) ↔ OnTimeline second := by
  constructor
  · rintro ⟨t, made⟩
    rw [← ((ofTimestamp?_eq_some_iff _ _).mp made).1]
    exact t.onTimeline_timestamp
  · intro ⟨lower, upper⟩
    simp only [secondsPerDay] at lower upper
    rw [ofTimestamp?, ofParts?, dif_pos]
    · exact ⟨_, rfl⟩
    · simp only [secondsPerDay]
      exact ⟨by omega, by omega, by omega, nanosBound⟩

theorem shift?_of_not_leap
    (notLeap : t.isLeap = false)
    (seconds : Int) :
    t.shift? seconds = ofTimestamp? (t.timestamp + seconds) t.nanos := by
  rw [shift?, notLeap]
  rfl

theorem not_isLeap_of_whole
    (whole : t.nanos = 0) :
    t.isLeap = false := by
  simp [isLeap, whole, nanosPerSecond]

end Instant

open Instant

namespace Window

variable {w v x : Window} {t : Instant} {width count other : Int}

theorem shifted_eq_ok_iff
    (notLeap : w.start.isLeap = false)
    (seconds : Int) :
    w.shifted seconds = .ok t ↔
      t.timestamp = w.start.timestamp + seconds ∧ t.nanos = w.start.nanos := by
  rw [shifted, shift?_of_not_leap notLeap, ← ofTimestamp?_eq_some_iff]
  cases ofTimestamp? (w.start.timestamp + seconds) w.start.nanos with
  | none => simp [Outcome.orAbort]
  | some u => simp [Outcome.orAbort]

theorem exists_shifted_iff
    (notLeap : w.start.isLeap = false)
    (seconds : Int) :
    (∃ t, w.shifted seconds = .ok t) ↔ OnTimeline (w.start.timestamp + seconds) := by
  rw [← exists_ofTimestamp?_iff _ w.start.nanos_lt]
  simp only [shifted_eq_ok_iff notLeap, ofTimestamp?_eq_some_iff]

/-! ## Windows whole widths apart -/

/-- The window that begins a number of widths after another, which is as wide. -/
structure Steps (count : Int) (w v : Window) : Prop where
  width : v.width = w.width
  nanos : v.start.nanos = w.start.nanos
  second : v.start.timestamp = w.start.timestamp + count * w.width

/-- Windows of one division of time: equally wide, and whole widths apart. -/
structure Aligned (w v : Window) : Prop where
  width : v.width = w.width
  nanos : v.start.nanos = w.start.nanos
  apart : w.width ∣ v.start.timestamp - w.start.timestamp

theorem aligned_iff_exists_steps : Aligned w v ↔ ∃ count, Steps count w v := by
  constructor
  · rintro ⟨width, nanos, count, apart⟩
    refine ⟨count, width, nanos, ?_⟩
    rw [Int.mul_comm]
    omega
  · rintro ⟨count, width, nanos, second⟩
    refine ⟨width, nanos, count, ?_⟩
    rw [second, Int.mul_comm]
    omega

namespace Steps

theorem refl
    (w : Window) :
    Steps 0 w w :=
  ⟨rfl, rfl, by omega⟩

theorem symm
    (steps : Steps count w v) :
    Steps (-count) v w := by
  refine ⟨steps.width.symm, steps.nanos.symm, ?_⟩
  rw [steps.second, steps.width, Int.neg_mul]
  omega

theorem trans
    (steps : Steps count w v)
    (further : Steps other v x) :
    Steps (count + other) w x := by
  refine ⟨further.width.trans steps.width, further.nanos.trans steps.nanos, ?_⟩
  rw [further.second, steps.second, steps.width, Int.add_mul]
  omega

theorem unique
    (steps : Steps count w v)
    (also : Steps count w x) :
    v = x := by
  obtain ⟨start, width⟩ := v
  obtain ⟨start', width'⟩ := x
  have sameStart : start = start' :=
    eq_of_timestamp (steps.second.trans also.second.symm) (steps.nanos.trans also.nanos.symm)
  have sameWidth : width = width' := steps.width.trans also.width.symm
  rw [sameStart, sameWidth]

theorem not_isLeap
    (steps : Steps count w v)
    (notLeap : w.start.isLeap = false) :
    v.start.isLeap = false := by
  rw [isLeap, steps.nanos]
  exact notLeap

theorem position
    (steps : Steps count w v) :
    v.start.position = w.start.position + count * (w.width * 2000000000) := by
  rw [Instant.position, Instant.position, steps.second, steps.nanos, ← Int.mul_assoc]
  omega

theorem onTimeline
    (one : Steps 1 w v) :
    OnTimeline (w.start.timestamp + w.width) := by
  have second := one.second
  rw [Int.one_mul] at second
  rw [← second]
  exact v.start.onTimeline_timestamp

end Steps

theorem next_eq_ok_iff_steps
    (notLeap : w.start.isLeap = false) :
    w.next = .ok v ↔ Steps 1 w v := by
  rw [next_eq_ok_iff, stop, shifted_eq_ok_iff notLeap]
  constructor
  · rintro ⟨⟨second, nanos⟩, width⟩
    exact ⟨width, nanos, by rw [Int.one_mul]; exact second⟩
  · rintro ⟨width, nanos, second⟩
    exact ⟨⟨by rw [Int.one_mul] at second; exact second, nanos⟩, width⟩

theorem previous_eq_ok_iff
    (earlier : Window) :
    w.previous = .ok earlier ↔
      w.shifted (-w.width) = .ok earlier.start ∧ earlier.width = w.width := by
  unfold previous
  cases w.shifted (-w.width) with
  | error failure => simp [bind, Except.bind]
  | ok t =>
    obtain ⟨start, width⟩ := earlier
    simp [bind, Except.bind, pure, Except.pure, eq_comm]

theorem previous_eq_ok_iff_steps
    (notLeap : w.start.isLeap = false) :
    w.previous = .ok v ↔ Steps (-1) w v := by
  rw [previous_eq_ok_iff, shifted_eq_ok_iff notLeap]
  constructor
  · rintro ⟨⟨second, nanos⟩, width⟩
    exact ⟨width, nanos, by omega⟩
  · rintro ⟨width, nanos, second⟩
    exact ⟨⟨by omega, nanos⟩, width⟩

theorem exists_next_iff
    (notLeap : w.start.isLeap = false) :
    (∃ v, w.next = .ok v) ↔ OnTimeline (w.start.timestamp + w.width) := by
  rw [← exists_shifted_iff notLeap]
  simp only [next_eq_ok_iff]
  exact ⟨fun ⟨v, stops, _⟩ => ⟨v.start, stops⟩, fun ⟨t, stops⟩ => ⟨⟨t, w.width⟩, stops, rfl⟩⟩

theorem exists_previous_iff
    (notLeap : w.start.isLeap = false) :
    (∃ v, w.previous = .ok v) ↔ OnTimeline (w.start.timestamp - w.width) := by
  rw [Int.sub_eq_add_neg, ← exists_shifted_iff notLeap]
  simp only [previous_eq_ok_iff]
  exact ⟨fun ⟨v, begins, _⟩ => ⟨v.start, begins⟩, fun ⟨t, begins⟩ => ⟨⟨t, w.width⟩, begins, rfl⟩⟩

/-! ## The window that holds an instant -/

theorem contains_iff_exists_stop :
    w.contains t = .ok true ↔ w.start ≤ t ∧ ∃ stop, w.stop = .ok stop ∧ t < stop := by
  by_cases early : t < w.start
  · have outside : ¬ w.start ≤ t := Int.not_le.mpr early
    simp [contains, early, outside, pure, Except.pure]
  · have reached : w.start ≤ t := Instant.not_lt.mp early
    cases stops : w.stop with
    | error failure => simp [contains, early, stops, bind, Except.bind]
    | ok stop => simp [contains, early, stops, reached, bind, Except.bind, pure, Except.pure]

/-- A window holds the instants from its start on for as long as it is wide. -/
theorem contains_iff_position
    (notLeap : w.start.isLeap = false) :
    w.contains t = .ok true ↔
      OnTimeline (w.start.timestamp + w.width) ∧ w.start.position ≤ t.position ∧
        t.position < w.start.position + w.width * 2000000000 := by
  have stopPosition : ∀ stop, w.stop = .ok stop →
      stop.position = w.start.position + w.width * 2000000000 := by
    intro stop stops
    have ⟨second, nanos⟩ := (shifted_eq_ok_iff notLeap _).mp stops
    rw [position, position, second, nanos]
    omega
  rw [contains_iff_exists_stop, ← exists_shifted_iff notLeap]
  constructor
  · rintro ⟨reached, stop, stops, before⟩
    exact ⟨⟨stop, stops⟩, reached, stopPosition stop stops ▸ before⟩
  · rintro ⟨⟨stop, stops⟩, reached, before⟩
    rw [← stopPosition stop stops] at before
    exact ⟨reached, stop, stops, before⟩

/-- Of windows whole widths apart, only one holds an instant. -/
theorem Aligned.eq_of_contains
    (aligned : Aligned w v)
    (notLeap : w.start.isLeap = false)
    (positive : 0 < w.width)
    (holds : w.contains t = .ok true)
    (alsoHolds : v.contains t = .ok true) :
    v = w := by
  have ⟨count, steps⟩ := aligned_iff_exists_steps.mp aligned
  have ⟨_, lower, upper⟩ := (contains_iff_position notLeap).mp holds
  have ⟨_, lower', upper'⟩ := (contains_iff_position (steps.not_isLeap notLeap)).mp alsoHolds
  rw [steps.position, steps.width] at upper'
  rw [steps.position] at lower'
  have wide : 0 < w.width * 2000000000 := by omega
  -- An instant that lies in both leaves room for less than one width between the starts.
  have notAfter : count < 1 := by
    apply Int.lt_of_mul_lt_mul_right _ (Int.le_of_lt wide)
    omega
  have notBefore : -1 < count := by
    apply Int.lt_of_mul_lt_mul_right _ (Int.le_of_lt wide)
    omega
  have none : count = 0 := by omega
  rw [none] at steps
  exact steps.unique (Steps.refl w)

/-! ## The window around an instant -/

/-- A window of the width that begins with a second, a whole number of widths from the
epoch. -/
structure Anchored (width : Int) (w : Window) : Prop where
  sameWidth : w.width = width
  whole : w.start.nanos = 0
  multiple : width ∣ w.start.timestamp

theorem Anchored.aligned_iff
    (anchored : Anchored width w) :
    Aligned w v ↔ Anchored width v := by
  constructor
  · rintro ⟨sameWidth, sameNanos, apart⟩
    rw [anchored.sameWidth] at apart
    refine ⟨sameWidth.trans anchored.sameWidth, sameNanos.trans anchored.whole, ?_⟩
    exact (Int.dvd_iff_dvd_of_dvd_sub apart).mpr anchored.multiple
  · intro also
    refine ⟨also.sameWidth.trans anchored.sameWidth.symm, also.whole.trans anchored.whole.symm, ?_⟩
    rw [anchored.sameWidth]
    exact Int.dvd_sub also.multiple anchored.multiple

theorem exists_ofWidth
    (positive : 0 < width)
    (begins : OnTimeline (t.timestamp - t.timestamp % width)) :
    ∃ w, ofWidth t width = .ok w := by
  rw [Int.sub_eq_add_neg] at begins
  have ⟨start, begun⟩ := (exists_ofTimestamp?_iff _ (by decide : 0 < 2000000000)).mpr begins
  have shifted : t.wholeSecond.shift? (-(t.timestamp % width)) = some start := by
    rw [shift?_of_whole rfl]
    exact begun
  rw [ofWidth, if_neg (Int.not_le.mpr positive), around, shifted]
  exact ⟨⟨start, width⟩, rfl⟩

theorem anchored_of_ofWidth
    (made : ofWidth t width = .ok w) :
    Anchored width w := by
  have ⟨whole, sameWidth, begins⟩ := whole_of_ofWidth made
  refine ⟨sameWidth, whole.start, ?_⟩
  rw [begins]
  exact Int.dvd_self_sub_emod

/-- The window made for an instant holds it, also if it lies in a leap second. -/
theorem contains_of_ofWidth
    (made : ofWidth t width = .ok w)
    (ends : OnTimeline (w.start.timestamp + width)) :
    w.contains t = .ok true := by
  have ⟨whole, sameWidth, begins⟩ := whole_of_ofWidth made
  have positive : 0 < width := sameWidth ▸ whole.width
  have nonneg := Int.emod_nonneg t.timestamp positive.ne'
  have short := Int.emod_lt_of_pos t.timestamp positive
  have nanosBound := t.nanos_lt
  rw [contains_iff_position (not_isLeap_of_whole whole.start), sameWidth]
  simp only [position, whole.start, begins]
  refine ⟨begins ▸ ends, ?_, ?_⟩
  · omega
  · omega

/-! ## Neighbours -/

/-- Two windows of which one follows the other: each leads to the other, the second begins
where the first stops, no instant lies in both, and none between them lies in neither. -/
structure Adjoins (w v : Window) : Prop where
  next : w.next = .ok v
  previous : v.previous = .ok w
  touches : w.stop = .ok v.start
  noOverlap : ∀ t, ¬ (w.contains t = .ok true ∧ v.contains t = .ok true)
  noGap : ∀ t stop, v.stop = .ok stop → w.start ≤ t → t < stop →
    w.contains t = .ok true ∨ v.contains t = .ok true

theorem Steps.adjoins
    (one : Steps 1 w v)
    (notLeap : w.start.isLeap = false)
    (positive : 0 < w.width) :
    Adjoins w v := by
  have follows := (next_eq_ok_iff_steps notLeap).mpr one
  have stops := ((next_eq_ok_iff v).mp follows).1
  refine ⟨follows, (previous_eq_ok_iff_steps (one.not_isLeap notLeap)).mpr one.symm, stops, ?_, ?_⟩
  · rintro t ⟨inFirst, inSecond⟩
    have same := (aligned_iff_exists_steps.mpr ⟨1, one⟩).eq_of_contains notLeap positive
      inFirst inSecond
    have second := one.second
    rw [same] at second
    omega
  · intro t stop ends reached before
    by_cases early : t < v.start
    · exact Or.inl (contains_iff_exists_stop.mpr ⟨reached, v.start, stops, early⟩)
    · exact Or.inr (contains_iff_exists_stop.mpr ⟨Instant.not_lt.mp early, stop, ends, before⟩)

/-- The neighbours of a window, which exist as far as the timeline reaches. -/
structure HasNeighbours (w : Window) : Prop where
  adjoinsNext : ∀ v, w.next = .ok v → Adjoins w v
  adjoinsPrevious : ∀ v, w.previous = .ok v → Adjoins v w
  exists_next : (∃ v, w.next = .ok v) ↔ OnTimeline (w.start.timestamp + w.width)
  exists_previous : (∃ v, w.previous = .ok v) ↔ OnTimeline (w.start.timestamp - w.width)

theorem hasNeighbours_of_not_leap
    (notLeap : w.start.isLeap = false)
    (positive : 0 < w.width) :
    HasNeighbours w := by
  refine ⟨?_, ?_, exists_next_iff notLeap, exists_previous_iff notLeap⟩
  · intro v follows
    exact ((next_eq_ok_iff_steps notLeap).mp follows).adjoins notLeap positive
  · intro v precedes
    have back := (previous_eq_ok_iff_steps notLeap).mp precedes
    exact back.symm.adjoins (back.not_isLeap notLeap) (back.width ▸ positive)

end Window

end UsageBilling

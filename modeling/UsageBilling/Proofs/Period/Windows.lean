import UsageBilling.Period.Metering
import UsageBilling.Proofs.Window.Timeline

/-!
Contract: the windows of a period.

Owns:
- the windows that start before a bound as a run that passes the bound;
- the windows of a period: a run from its start, whose last window reaches its
  end or goes beyond it;
- the periods whose last window ends with them: those that end at a multiple of
  the width.

Does not own: the usage in the windows.
-/

namespace UsageBilling

namespace Window

variable {w : Window} {windows : List Window} {bound : Instant}

theorem startingBefore_succ_eq_ok_iff
    (bound : Instant)
    (steps : Nat)
    (w : Window)
    (windows : List Window) :
    startingBefore bound (steps + 1) w = .ok windows ↔
      ∃ following, w.next = .ok following ∧
        if w.start < bound then
          ∃ rest, startingBefore bound steps following = .ok rest ∧ windows = w :: rest
        else windows = [] := by
  rw [startingBefore]
  cases w.next with
  | error failure => simp [bind, Except.bind]
  | ok following =>
    by_cases before : w.start < bound
    · cases rest : startingBefore bound steps following with
      | error failure => simp [bind, Except.bind, before, rest]
      | ok rest => simp [bind, Except.bind, pure, Except.pure, before, rest, eq_comm]
    · simp [bind, Except.bind, pure, Except.pure, before, eq_comm]

/-- The windows that start before a bound are a run. -/
theorem successive_of_startingBefore
    {steps : Nat}
    (made : startingBefore bound steps w = .ok windows) :
    successive windows.length w = .ok windows ∧ ∀ v ∈ windows, v.start < bound := by
  induction steps generalizing w windows with
  | zero => cases made
  | succ steps inductionHypothesis =>
    obtain ⟨following, follows, made⟩ := (startingBefore_succ_eq_ok_iff _ _ _ _).mp made
    split at made
    · rename_i before
      obtain ⟨rest, restMade, rfl⟩ := made
      obtain ⟨runsOn, restBefore⟩ := inductionHypothesis restMade
      refine ⟨successive_succ_eq_ok_iff.mpr ⟨following, rest, follows, runsOn, rfl⟩, ?_⟩
      intro v member
      rcases List.mem_cons.mp member with rfl | inRest
      · exact before
      · exact restBefore v inRest
    · cases made
      exact ⟨rfl, by simp⟩

/-- The last of them reaches the bound. -/
theorem exists_reaches_of_startingBefore
    {steps : Nat}
    (made : startingBefore bound steps w = .ok windows)
    (before : w.start < bound) :
    ∃ v ∈ windows, ∃ stop, v.stop = .ok stop ∧ bound ≤ stop := by
  induction steps generalizing w windows with
  | zero => cases made
  | succ steps inductionHypothesis =>
    obtain ⟨following, follows, made⟩ := (startingBefore_succ_eq_ok_iff _ _ _ _).mp made
    rw [if_pos before] at made
    obtain ⟨rest, restMade, rfl⟩ := made
    by_cases more : following.start < bound
    · obtain ⟨v, member, reaches⟩ := inductionHypothesis restMade more
      exact ⟨v, by simp [member], reaches⟩
    · exact ⟨w, by simp, following.start, ((next_eq_ok_iff following).mp follows).1,
        Instant.not_lt.mp more⟩

end Window

namespace Metering

open Window

variable {width : Int} {start stop : Instant} {windows : List Window}

/-- Whether an instant is the bound of windows of a width. -/
def OnBoundary (width : Int) (t : Instant) : Prop :=
  t.nanos = 0 ∧ t.timestamp % width = 0

instance (width : Int) (t : Instant) : Decidable (OnBoundary width t) :=
  inferInstanceAs (Decidable (_ ∧ _))

/-- The windows of a period are a run from its start up to its end. -/
structure Covers (width : Int) (start stop : Instant) (windows : List Window) : Prop where
  aligned : start.timestamp % width = 0
  whole : Whole ⟨start, width⟩
  run : successive windows.length ⟨start, width⟩ = .ok windows
  before : ∀ w ∈ windows, w.start < stop
  reaches : ∃ w ∈ windows, ∃ t, w.stop = .ok t ∧ stop ≤ t

/-- Every period that is accepted has such windows. -/
theorem covers_of_windows
    (made : Metering.windows width start stop = .ok windows) :
    Covers width start stop windows := by
  unfold Metering.windows at made
  split at made
  · cases made
  · rename_i notEmpty
    cases first : Window.ofWidth start width with
    | error failure =>
      rw [first] at made
      cases made
    | ok w =>
      rw [first] at made
      obtain ⟨whole, sameWidth, begins⟩ := whole_of_ofWidth first
      by_cases sameStart : w.start = start
      · obtain ⟨wStart, wWidth⟩ := w
        dsimp only at sameWidth sameStart begins
        subst sameWidth sameStart
        replace made : startingBefore stop (stepBound ⟨wStart, wWidth⟩ stop) ⟨wStart, wWidth⟩ =
            .ok windows := by
          simpa [bind, Except.bind, windowsBefore] using made
        have startsBefore : wStart < stop := Int.not_le.mp notEmpty
        obtain ⟨run, before⟩ := successive_of_startingBefore made
        exact ⟨by omega, whole, run, before, exists_reaches_of_startingBefore made startsBefore⟩
      · simp only [bind, Except.bind, if_neg sameStart] at made
        cases made

/-- The windows of a period stay within it if it ends on a boundary. -/
theorem Covers.stop_le
    (covers : Covers width start stop windows)
    (boundary : OnBoundary width stop)
    {w : Window}
    (member : w ∈ windows)
    {t : Instant}
    (stops : w.stop = .ok t) :
    t ≤ stop := by
  obtain ⟨whole, sameWidth, _⟩ := covers.whole.of_mem_successive covers.run w member
  have multiple := covers.whole.dvd_of_mem_successive covers.run w member
  obtain ⟨ends, endsWhole⟩ := whole.stop_eq_ok_iff.mp stops
  have before := (Instant.lt_iff_of_whole boundary.1).mp (covers.before w member)
  rw [Instant.le_iff_of_whole endsWhole, ends, sameWidth]
  -- Start and end are multiples of the width, so they differ by one at least.
  obtain ⟨k, starts⟩ := multiple
  obtain ⟨m, first⟩ := Int.dvd_of_emod_eq_zero covers.aligned
  obtain ⟨n, last⟩ := Int.dvd_of_emod_eq_zero boundary.2
  dsimp only at starts ⊢
  have positive : 0 < width := covers.whole.width
  have fewer : width * (m + k) < width * n := by
    rw [Int.mul_add]
    omega
  have oneMore : m + k + 1 ≤ n := Int.lt_of_mul_lt_mul_left fewer (Int.le_of_lt positive)
  have scaled := Int.mul_le_mul_of_nonneg_left oneMore (Int.le_of_lt positive)
  rw [Int.mul_add, Int.mul_add, Int.mul_one] at scaled
  omega

/-- Otherwise the last window goes beyond the end of the period. -/
theorem Covers.exists_lt_stop
    (covers : Covers width start stop windows)
    (offBoundary : ¬ OnBoundary width stop) :
    ∃ w ∈ windows, ∃ t, w.stop = .ok t ∧ stop < t := by
  obtain ⟨w, member, t, stops, reaches⟩ := covers.reaches
  obtain ⟨whole, sameWidth, _⟩ := covers.whole.of_mem_successive covers.run w member
  obtain ⟨ends, endsWhole⟩ := whole.stop_eq_ok_iff.mp stops
  refine ⟨w, member, t, stops, ?_⟩
  by_cases beyond : stop < t
  · exact beyond
  · exfalso
    apply offBoundary
    rw [Instant.le_antisymm reaches (Instant.not_lt.mp beyond)]
    refine ⟨endsWhole, Int.emod_eq_zero_of_dvd ?_⟩
    rw [ends, sameWidth]
    have multiple := covers.whole.dvd_of_mem_successive covers.run w member
    have sum := Int.dvd_add multiple (Int.dvd_of_emod_eq_zero covers.aligned)
    dsimp only at sum
    rw [Int.sub_add_cancel] at sum
    exact Int.dvd_add sum (Int.dvd_refl width)

end Metering

end UsageBilling

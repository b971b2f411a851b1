import UsageBilling.Proofs.Period.Windows
import UsageBilling.Proofs.Window.Division

/-!
Contract: windows of one width as a partition of time.

Owns:
- the windows from one on that begin before a bound: when they can be listed, which they are,
  and that each instant up to the bound lies in one of them;
- the partition of time that windows of a positive width are.

Does not own: which width is used.
-/

namespace UsageBilling

open Instant

namespace Window

variable {w v : Window} {t bound : Instant} {width : Int} {windows : List Window}

/-! ## The windows before a bound -/

/-- The windows of a division that do not begin before one of them are a whole number of
steps from it, not below zero. -/
theorem exists_steps_iff_le
    (positive : 0 < w.width) :
    (∃ count : Nat, Steps count w v) ↔ Aligned w v ∧ w.start ≤ v.start := by
  have wide : 0 < w.width * 2000000000 := by omega
  rw [aligned_iff_exists_steps]
  constructor
  · rintro ⟨count, steps⟩
    refine ⟨⟨count, steps⟩, ?_⟩
    have further := Int.mul_nonneg (Int.natCast_nonneg count) (Int.le_of_lt wide)
    change w.start.position ≤ v.start.position
    rw [steps.position]
    omega
  · rintro ⟨⟨count, steps⟩, notBefore⟩
    change w.start.position ≤ v.start.position at notBefore
    rw [steps.position] at notBefore
    have nonneg : 0 ≤ count := by
      apply Int.le_of_mul_le_mul_right _ wide
      omega
    obtain ⟨count, rfl⟩ := Int.eq_ofNat_of_zero_le nonneg
    exact ⟨count, steps⟩

theorem exists_steps_cons_iff
    {following : Window}
    (one : Steps 1 w following) :
    (∃ count : Nat, Steps count w v) ↔ v = w ∨ ∃ count : Nat, Steps count following v := by
  constructor
  · rintro ⟨count, steps⟩
    cases count with
    | zero => exact Or.inl (steps.unique (Steps.refl w))
    | succ count =>
      have rest := one.symm.trans steps
      rw [show -1 + ((count + 1 : Nat) : Int) = count by omega] at rest
      exact Or.inr ⟨count, rest⟩
  · rintro (rfl | ⟨count, steps⟩)
    · exact ⟨0, Steps.refl v⟩
    · refine ⟨count + 1, ?_⟩
      rw [Nat.cast_succ, Int.add_comm]
      exact one.trans steps

/-- The walk from a window over the next ones, up to the first one that does not begin before
a bound: the windows it goes over. The one it stops at must have a next one too. -/
inductive Walks (bound : Instant) : Window → List Window → Prop where
  | done {w following : Window} (one : Steps 1 w following) (reached : ¬ w.start < bound) :
      Walks bound w []
  | step {w following : Window} {rest : List Window} (one : Steps 1 w following)
      (before : w.start < bound) (walks : Walks bound following rest) :
      Walks bound w (w :: rest)

/-- The windows made within a number of steps are those of a walk that is shorter. -/
theorem startingBefore_eq_ok_iff
    (notLeap : w.start.isLeap = false)
    (steps : Nat) :
    startingBefore bound steps w = .ok windows ↔
      Walks bound w windows ∧ windows.length < steps := by
  induction steps generalizing w windows with
  | zero =>
    constructor
    · intro made
      cases made
    · rintro ⟨_, short⟩
      exact absurd short (Nat.not_lt_zero _)
  | succ steps inductionHypothesis =>
    rw [startingBefore_succ_eq_ok_iff]
    constructor
    · rintro ⟨following, follows, made⟩
      have one := (next_eq_ok_iff_steps notLeap).mp follows
      split at made
      · rename_i before
        obtain ⟨rest, restMade, rfl⟩ := made
        have ⟨walks, short⟩ := (inductionHypothesis (one.not_isLeap notLeap)).mp restMade
        exact ⟨.step one before walks, Nat.succ_lt_succ short⟩
      · rename_i reached
        rw [made]
        exact ⟨.done one reached, Nat.zero_lt_succ steps⟩
    · rintro ⟨walks, short⟩
      cases walks with
      | done one reached =>
        refine ⟨_, (next_eq_ok_iff_steps notLeap).mpr one, ?_⟩
        rw [if_neg reached]
      | step one before walks =>
        refine ⟨_, (next_eq_ok_iff_steps notLeap).mpr one, ?_⟩
        rw [if_pos before]
        exact ⟨_, (inductionHypothesis (one.not_isLeap notLeap)).mpr
          ⟨walks, Nat.lt_of_succ_lt_succ short⟩, rfl⟩

/-- After so many widths the bound is passed, whatever the start. -/
theorem lt_position_of_stepBound
    (positive : 0 < w.width)
    (bound : Instant) :
    bound.position < w.start.position +
      ((((bound.timestamp - w.start.timestamp) / w.width).toNat + 1 : Nat) : Int) *
        (w.width * 2000000000) := by
  have nanosBound := bound.nanos_lt
  have passed := Int.lt_ediv_add_one_mul_self (bound.timestamp - w.start.timestamp) positive
  have atLeast : (bound.timestamp - w.start.timestamp) / w.width + 1 ≤
      ((((bound.timestamp - w.start.timestamp) / w.width).toNat + 1 : Nat) : Int) := by
    omega
  have more := Int.mul_le_mul_of_nonneg_right atLeast (Int.le_of_lt positive)
  rw [← Int.mul_assoc]
  simp only [position]
  omega

namespace Walks

theorem position_lt
    (walks : Walks bound w windows)
    (count : Nat)
    (listed : count < windows.length) :
    w.start.position + count * (w.width * 2000000000) < bound.position := by
  induction walks generalizing count with
  | done one reached => exact absurd listed (Nat.not_lt_zero count)
  | step one before walks inductionHypothesis =>
    cases count with
    | zero =>
      rw [Int.natCast_zero, Int.zero_mul, Int.add_zero]
      exact before
    | succ count =>
      have further := inductionHypothesis count (Nat.lt_of_succ_lt_succ listed)
      rw [one.position, one.width] at further
      rw [Nat.cast_succ, Int.add_mul]
      omega

/-- The windows listed are those of the division that begin before the bound. -/
theorem mem_iff
    (walks : Walks bound w windows)
    (positive : 0 < w.width)
    (v : Window) :
    v ∈ windows ↔ (∃ count : Nat, Steps count w v) ∧ v.start < bound := by
  induction walks with
  | done one reached =>
    rw [exists_steps_iff_le positive]
    refine ⟨fun member => absurd member List.not_mem_nil, ?_⟩
    rintro ⟨⟨_, later⟩, before⟩
    exact absurd (Int.lt_of_le_of_lt later before) reached
  | step one before walks inductionHypothesis =>
    rw [List.mem_cons, exists_steps_cons_iff one, inductionHypothesis (one.width ▸ positive),
      or_and_right]
    apply or_congr_left
    exact ⟨fun isFirst => ⟨isFirst, isFirst ▸ before⟩, fun ⟨isFirst, _⟩ => isFirst⟩

theorem pairwise
    (walks : Walks bound w windows)
    (positive : 0 < w.width) :
    windows.Pairwise fun v later => v.start < later.start := by
  induction walks with
  | done one reached => exact List.Pairwise.nil
  | @step first following rest one before walks inductionHypothesis =>
    have alsoPositive : 0 < following.width := one.width ▸ positive
    refine List.pairwise_cons.mpr ⟨?_, inductionHypothesis alsoPositive⟩
    intro later member
    have reached := ((walks.mem_iff alsoPositive later).mp member).1
    have notBefore : following.start.position ≤ later.start.position :=
      ((exists_steps_iff_le alsoPositive).mp reached).2
    change first.start.position < later.start.position
    rw [one.position] at notBefore
    omega

/-- The window after the last one listed has an end, and so have all before it. -/
theorem onTimeline_of_mem
    (walks : Walks bound w windows)
    (v : Window)
    (member : v ∈ windows) :
    OnTimeline (v.start.timestamp + v.width) := by
  induction walks with
  | done one reached => cases member
  | step one before walks inductionHypothesis =>
    rcases List.mem_cons.mp member with rfl | inRest
    · exact one.onTimeline
    · exact inductionHypothesis inRest

theorem exists_last
    (walks : Walks bound w windows) :
    ∃ count : Nat, ∃ last, Steps count w last ∧ bound ≤ last.start ∧
      OnTimeline (last.start.timestamp + last.width) := by
  induction walks with
  | done one reached => exact ⟨0, _, Steps.refl _, Instant.not_lt.mp reached, one.onTimeline⟩
  | step one before walks inductionHypothesis =>
    have ⟨count, last, steps, reached, ends⟩ := inductionHypothesis
    have ⟨further, furtherSteps⟩ := (exists_steps_cons_iff one).mpr (Or.inr ⟨count, steps⟩)
    exact ⟨further, last, furtherSteps, reached, ends⟩

end Walks

theorem exists_walks
    {count : Nat}
    (notLeap : w.start.isLeap = false)
    (positive : 0 < w.width)
    (reaches : bound.position ≤ w.start.position + count * (w.width * 2000000000))
    (ends : OnTimeline (w.start.timestamp + count * w.width + w.width)) :
    ∃ windows, Walks bound w windows := by
  induction count generalizing w with
  | zero =>
    rw [Int.natCast_zero, Int.zero_mul, Int.add_zero] at reaches ends
    have ⟨following, follows⟩ := (exists_next_iff notLeap).mpr ends
    exact ⟨[], .done ((next_eq_ok_iff_steps notLeap).mp follows) (Int.not_lt.mpr reaches)⟩
  | succ count inductionHypothesis =>
    rw [Nat.cast_succ, Int.add_mul, Int.one_mul] at reaches ends
    have others := Int.mul_nonneg (Int.natCast_nonneg count) (Int.le_of_lt positive)
    have ⟨following, follows⟩ := (exists_next_iff notLeap).mpr
      (w.start.onTimeline_timestamp.between ends (w.start.timestamp + w.width)
        (by omega) (by omega))
    have one := (next_eq_ok_iff_steps notLeap).mp follows
    by_cases before : w.start < bound
    · have ⟨rest, walks⟩ := inductionHypothesis (one.not_isLeap notLeap) (one.width ▸ positive)
        (by rw [one.position, one.width]; omega)
        (by
          rw [one.second, one.width, Int.one_mul, Int.add_assoc w.start.timestamp]
          rwa [Int.add_comm w.width])
      exact ⟨w :: rest, .step one before walks⟩
    · exact ⟨[], .done one before⟩

/-- The windows before a bound are those of the walk, however long it is. -/
theorem windowsBefore_eq_ok_iff
    (notLeap : w.start.isLeap = false)
    (positive : 0 < w.width) :
    w.windowsBefore bound = .ok windows ↔ Walks bound w windows := by
  rw [windowsBefore, startingBefore_eq_ok_iff notLeap, stepBound, if_pos positive,
    and_iff_left_iff_imp]
  intro walks
  have passed := lt_position_of_stepBound positive bound
  -- A longer walk would still list a window after the bound is passed.
  by_contra long
  have listed := walks.position_lt
    (((bound.timestamp - w.start.timestamp) / w.width).toNat + 1) (by omega)
  exact absurd passed (Int.lt_asymm listed)

/-- Whether some window of the division, from one on, does not begin before a bound and ends
on the timeline. -/
def PassesOnTimeline (w : Window) (bound : Instant) : Prop :=
  ∃ last, Aligned w last ∧ w.start ≤ last.start ∧ bound ≤ last.start ∧
    ∃ stop, last.stop = .ok stop

/-- The windows before a bound can be listed exactly if the timeline reaches beyond one that
does not begin before it. -/
theorem exists_windowsBefore_iff
    (notLeap : w.start.isLeap = false)
    (positive : 0 < w.width)
    (bound : Instant) :
    (∃ windows, w.windowsBefore bound = .ok windows) ↔ w.PassesOnTimeline bound := by
  simp only [windowsBefore_eq_ok_iff notLeap positive]
  constructor
  · intro ⟨windows, walks⟩
    have ⟨count, last, steps, reached, ends⟩ := walks.exists_last
    have ⟨aligned, notBefore⟩ := (exists_steps_iff_le positive).mp ⟨count, steps⟩
    exact ⟨last, aligned, notBefore, reached,
      (exists_shifted_iff (steps.not_isLeap notLeap) _).mpr ends⟩
  · intro ⟨last, aligned, notBefore, reached, stops⟩
    have ⟨count, steps⟩ := (exists_steps_iff_le positive).mpr ⟨aligned, notBefore⟩
    have ends := (exists_shifted_iff (steps.not_isLeap notLeap) _).mp stops
    change bound.position ≤ last.start.position at reached
    rw [steps.position] at reached
    rw [steps.second, steps.width] at ends
    exact exists_walks notLeap positive reached ends

/-- The list of the windows before a bound: each is followed by the next, they are all those
of the division from the first one on that begin before the bound, and each instant from the
first start up to the bound lies in one of them. -/
structure Lists (w : Window) (bound : Instant) (windows : List Window) : Prop where
  consecutive : successive windows.length w = .ok windows
  members : ∀ v, v ∈ windows ↔ Aligned w v ∧ w.start ≤ v.start ∧ v.start < bound
  ascending : windows.Pairwise fun v later => v.start < later.start
  covers : ∀ t, w.start ≤ t → t < bound → ∃! v, v ∈ windows ∧ v.contains t = .ok true

/-- The window of a division that an instant lies in begins on the timeline. -/
theorem exists_aligned_around
    (positive : 0 < w.width)
    (reached : w.start ≤ t) :
    ∃ v, Aligned w v ∧ w.start ≤ v.start ∧ v.start ≤ t ∧
      t.position < v.start.position + w.width * 2000000000 := by
  have wide : 0 < w.width * 2000000000 := by omega
  have nanosBound := t.nanos_lt
  have apart : 0 ≤ t.position - w.start.position := Int.sub_nonneg.mpr reached
  have count := Int.ediv_nonneg apart (Int.le_of_lt wide)
  have lower := Int.ediv_mul_le (t.position - w.start.position) wide.ne'
  have upper := Int.lt_ediv_add_one_mul_self (t.position - w.start.position) wide
  rw [← Int.mul_assoc] at lower
  rw [Int.add_mul, Int.one_mul, ← Int.mul_assoc] at upper
  have further := Int.mul_nonneg count (Int.le_of_lt positive)
  generalize (t.position - w.start.position) / (w.width * 2000000000) = steps at *
  simp only [position] at lower upper ⊢
  obtain ⟨start, begun⟩ := (exists_ofTimestamp?_iff _ w.start.nanos_lt).mpr
    (w.start.onTimeline_timestamp.between t.onTimeline_timestamp
      (w.start.timestamp + steps * w.width) (by omega) (by omega))
  obtain ⟨second, nanos⟩ := (ofTimestamp?_eq_some_iff _ _).mp begun
  refine ⟨⟨start, w.width⟩, aligned_iff_exists_steps.mpr ⟨steps, rfl, nanos, second⟩, ?_, ?_, ?_⟩
  · change w.start.position ≤ start.position
    simp only [position, second, nanos]
    omega
  · change start.position ≤ t.position
    simp only [position, second, nanos]
    omega
  · dsimp only
    rw [second, nanos]
    omega

theorem lists_of_windowsBefore
    (notLeap : w.start.isLeap = false)
    (positive : 0 < w.width)
    (made : w.windowsBefore bound = .ok windows) :
    Lists w bound windows := by
  have walks := (windowsBefore_eq_ok_iff notLeap positive).mp made
  have members : ∀ v, v ∈ windows ↔ Aligned w v ∧ w.start ≤ v.start ∧ v.start < bound := by
    intro v
    rw [walks.mem_iff positive, exists_steps_iff_le positive, and_assoc]
  refine ⟨(successive_of_startingBefore made).1, members, walks.pairwise positive, ?_⟩
  intro t reached before
  have ⟨v, aligned, notBefore, begins, short⟩ := exists_aligned_around positive reached
  have member := (members v).mpr ⟨aligned, notBefore, Int.lt_of_le_of_lt begins before⟩
  have ⟨count, steps⟩ := aligned_iff_exists_steps.mp aligned
  have holds : v.contains t = .ok true :=
    (contains_iff_position (steps.not_isLeap notLeap)).mpr
      ⟨walks.onTimeline_of_mem v member, begins, by rw [aligned.width]; exact short⟩
  refine ⟨v, ⟨member, holds⟩, ?_⟩
  rintro other ⟨otherMember, otherHolds⟩
  have ⟨otherCount, otherSteps⟩ := aligned_iff_exists_steps.mp ((members other).mp otherMember).1
  have between : Aligned v other :=
    aligned_iff_exists_steps.mpr ⟨_, steps.symm.trans otherSteps⟩
  exact between.eq_of_contains (steps.not_isLeap notLeap) (aligned.width ▸ positive) holds
    otherHolds

/-! ## The partition -/

/-- Windows of a width partition time. The window made for an instant is the only one that
begins with a whole number of widths from the epoch and holds the instant; a window that does
not begin in a leap second has neighbours that touch it; and the windows from it on up to a
bound can be listed as far as the timeline reaches. -/
structure Partitions (width : Int) : Prop where
  around : ∀ t : Instant, OnTimeline (t.timestamp - t.timestamp % width) →
    OnTimeline (t.timestamp - t.timestamp % width + width) →
    ∃ w, ofWidth t width = .ok w ∧ Anchored width w ∧ w.contains t = .ok true ∧
      ∀ v, Anchored width v → v.contains t = .ok true → v = w
  division : ∀ w v, Anchored width w → (Aligned w v ↔ Anchored width v)
  neighbours : ∀ w : Window, w.width = width → w.start.isLeap = false → HasNeighbours w
  exists_list : ∀ w : Window, w.width = width → w.start.isLeap = false → ∀ bound,
    (∃ windows, w.windowsBefore bound = .ok windows) ↔ w.PassesOnTimeline bound
  lists : ∀ w : Window, w.width = width → w.start.isLeap = false → ∀ bound windows,
    w.windowsBefore bound = .ok windows → Lists w bound windows

theorem partitions_of_positive
    (positive : 0 < width) :
    Partitions width := by
  refine ⟨?_, fun w v anchored => anchored.aligned_iff, ?_, ?_, ?_⟩
  · intro t begins ends
    have ⟨w, made⟩ := exists_ofWidth positive begins
    have anchored := anchored_of_ofWidth made
    rw [← (whole_of_ofWidth made).2.2] at ends
    have holds := contains_of_ofWidth made ends
    refine ⟨w, made, anchored, holds, ?_⟩
    intro v alsoAnchored alsoHolds
    exact (anchored.aligned_iff.mpr alsoAnchored).eq_of_contains (not_isLeap_of_whole anchored.whole)
      (anchored.sameWidth ▸ positive) holds alsoHolds
  · rintro w rfl notLeap
    exact hasNeighbours_of_not_leap notLeap positive
  · rintro w rfl notLeap
    exact exists_windowsBefore_iff notLeap positive
  · rintro w rfl notLeap bound windows made
    exact lists_of_windowsBefore notLeap positive made

/-- The leap second at the end of 1969 lies in the window of two hours that ends with it. -/
theorem partitions_two_hours :
    (0 : Int) < 7200 ∧ Partitions 7200 ∧
      ∃ t w, ofTimestamp? (-1) 1500000000 = some t ∧ ofWidth t 7200 = .ok w ∧
        w.start.timestamp = -7200 ∧ w.contains t = .ok true := by
  have partitions : Partitions 7200 := partitions_of_positive (by decide)
  have ⟨t, made⟩ := (exists_ofTimestamp?_iff (-1) (by decide : 1500000000 < 2000000000)).mpr
    (by decide)
  have second := ((ofTimestamp?_eq_some_iff _ _).mp made).1
  have ⟨w, around, _, holds, _⟩ := partitions.around t (by rw [second]; decide)
    (by rw [second]; decide)
  have begins := (whole_of_ofWidth around).2.2
  rw [second] at begins
  exact ⟨by decide, partitions, t, w, made, around, begins, holds⟩

end Window

end UsageBilling

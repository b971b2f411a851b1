import Mathlib.Data.List.TakeWhile
import UsageBilling.Coverage.Insert
import UsageBilling.Proofs.Coverage.Order

/-!
Contract: painting a range over ordered segments.

Owns:
- the cut of ordered segments at a range: those before it, those it overlaps,
  and those beyond it;
- the weights after painting: the range's own inside it, the old ones outside;
- the shape that painting leaves for merging: two well-kept sides, and a focus
  between them.

Does not own: what merging does with that shape.
-/

namespace UsageBilling.Coverage

variable {deviation : Nat} {range : Segment} {segments left hit right : List Segment}

/-- Ordered segments cut at a range. -/
structure Cut (range : Segment) (left hit right : List Segment) : Prop where
  ordered : Ordered (left ++ (hit ++ right))
  before : ∀ s ∈ left, s.last < range.first
  overlap : ∀ s ∈ hit, range.first ≤ s.last ∧ s.first ≤ range.last
  beyond : ∀ s ∈ right, range.last < s.first

/-- The two sides of a cursor are well kept, and its focus lies between them. -/
structure Cursor.Flanked (deviation : Nat) (cursor : Cursor) : Prop where
  before : WellKept deviation cursor.before.reverse
  after : WellKept deviation cursor.after
  inhabited : cursor.focus.first ≤ cursor.focus.last
  above : ∀ s ∈ cursor.before, s.last < cursor.focus.first
  below : ∀ s ∈ cursor.after, cursor.focus.last < s.first

/-! ## Cutting ordered segments -/

private theorem drop_takeWhile
    (test : Segment → Bool)
    (segments : List Segment) :
    segments.drop (segments.takeWhile test).length = segments.dropWhile test := by
  induction segments with
  | nil => rfl
  | cons s rest inductionHypothesis =>
    by_cases passes : test s
    · simpa [passes] using inductionHypothesis
    · simp [passes]

private theorem not_of_mem_dropWhile
    (test : Segment → Bool)
    (fading : segments.Pairwise fun s later => test later = true → test s = true) :
    ∀ s ∈ segments.dropWhile test, test s = false := by
  induction segments with
  | nil => simp
  | cons s rest inductionHypothesis =>
    obtain ⟨fadingHead, fadingRest⟩ := List.pairwise_cons.mp fading
    by_cases passes : test s = true
    · rw [List.dropWhile_cons_of_pos passes]
      exact inductionHypothesis fadingRest
    · rw [List.dropWhile_cons_of_neg passes]
      intro t member
      rcases List.mem_cons.mp member with rfl | inRest
      · simpa using passes
      · by_contra stillPasses
        exact passes (fadingHead t inRest (by simpa using stillPasses))

/-- Looking for the first segment that does not end before a range, and from
there for the first that begins beyond it, cuts ordered segments. -/
theorem Ordered.cut
    (ordered : Ordered segments)
    (range : Segment) :
    Cut range (segments.takeWhile fun s => s.last < range.first)
      ((segments.dropWhile fun s => s.last < range.first).takeWhile
        fun s => s.first ≤ range.last)
      ((segments.dropWhile fun s => s.last < range.first).dropWhile
        fun s => s.first ≤ range.last) := by
  let ends := fun s : Segment => decide (s.last < range.first)
  let begins := fun s : Segment => decide (s.first ≤ range.last)
  have later : ∀ {s t : Segment}, s ∈ segments → t ∈ segments → s.last < t.first →
      s.last < t.last ∧ s.first < t.first := by
    intro s t inLeft inRight apart
    have inhabitedLeft := ordered.inhabited s inLeft
    have inhabitedRight := ordered.inhabited t inRight
    omega
  have restSublist : segments.dropWhile ends ⊆ segments :=
    (List.dropWhile_sublist ends).subset
  have restOrdered : Ordered (segments.dropWhile ends) := by
    have split : segments = segments.takeWhile ends ++ segments.dropWhile ends :=
      List.takeWhile_append_dropWhile.symm
    exact ((ordered_append_iff _ _).mp (split ▸ ordered)).2.1
  refine ⟨?_, ?_, ?_, ?_⟩
  · rw [List.takeWhile_append_dropWhile, List.takeWhile_append_dropWhile]
    exact ordered
  · intro s member
    simpa using List.mem_takeWhile_imp member
  · intro s member
    have begun := List.mem_takeWhile_imp member
    have reaches := not_of_mem_dropWhile ends (ordered.ascending.imp_of_mem
      (by
        intro s t inLeft inRight apart laterEnds
        have := later inLeft inRight apart
        simp only [ends, decide_eq_true_eq] at laterEnds ⊢
        omega)) s ((List.takeWhile_sublist begins).subset member)
    exact ⟨by simpa [ends] using reaches, by simpa using begun⟩
  · intro s member
    have fails := not_of_mem_dropWhile begins (restOrdered.ascending.imp_of_mem
      (by
        intro s t inLeft inRight apart laterBegins
        have := later (restSublist inLeft) (restSublist inRight) apart
        simp only [begins, decide_eq_true_eq] at laterBegins ⊢
        omega)) s member
    simpa [begins] using fails

/-- Painting works on the cut of the segments at the range. -/
theorem exists_cut
    (range : Segment)
    (ordered : Ordered segments) :
    ∃ left hit right, segments = left ++ (hit ++ right) ∧ Cut range left hit right ∧
      paint range segments =
        ⟨(left ++ remainderBefore range hit).reverse, absorb range hit,
          remainderAfter range hit ++ right⟩ := by
  refine ⟨_, _, _, ?_, ordered.cut range, ?_⟩
  · rw [List.takeWhile_append_dropWhile, List.takeWhile_append_dropWhile]
  · simp only [paint, entirelyBefore, overlapped]
    rw [drop_takeWhile, drop_takeWhile]

/-! ## The painted segment and its remainders -/

@[simp]
theorem absorb_weight : (absorb range hit).weight = range.weight :=
  rfl

theorem absorb_first_le : (absorb range hit).first ≤ range.first := by
  unfold absorb
  dsimp only
  split
  · split
    · exact Int.min_le_left _ _
    · exact Int.le_refl _
  · exact Int.le_refl _

theorem le_absorb_last : range.last ≤ (absorb range hit).last := by
  unfold absorb
  dsimp only
  split
  · split
    · exact Int.le_max_left _ _
    · exact Int.le_refl _
  · exact Int.le_refl _

/-- Before the range, the first overlapped segment is the only one with points:
absorbed where it carries the range's weight, left as a remainder otherwise. A
remainder no longer reaches into the range. -/
theorem spans_remainderBefore_iff
    (ordered : Ordered hit)
    (overlap : ∀ s ∈ hit, range.first ≤ s.last ∧ s.first ≤ range.last)
    {point next : Int}
    (weight : Int)
    (outside : point < range.first)
    (near : point ≤ next ∧ next ≤ point + 1) :
    Spans (remainderBefore range hit) point next weight ∨
        ((absorb range hit).first ≤ point ∧ range.weight = weight) ↔
      Spans hit point next weight ∧ (next < range.first ∨ weight = range.weight) := by
  cases hit with
  | nil => simp [remainderBefore, absorb, outside]
  | cons s rest =>
    obtain ⟨_, below, _⟩ := (ordered_cons_iff s rest).mp ordered
    have reach := overlap s (by simp)
    have restOutside : ¬ Spans rest point next weight := by
      rintro ⟨t, member, lower, _⟩
      have apart := below t member
      omega
    simp only [spans_cons, restOutside, or_false]
    by_cases sameWeight : s.weight = range.weight
    · simp only [remainderBefore, absorb, List.head?_cons, sameWeight, ne_eq, not_true,
        false_and, if_false, if_true, spans_nil, false_or]
      omega
    · by_cases starts : s.first < range.first
      · simp only [remainderBefore, absorb, List.head?_cons, sameWeight, ne_eq,
          not_false_eq_true, starts, and_self, if_true, if_false, spans_cons, spans_nil,
          or_false]
        omega
      · simp only [remainderBefore, absorb, List.head?_cons, sameWeight, ne_eq,
          not_false_eq_true, starts, and_false, if_false, spans_nil, false_or]
        omega

/-- After the range, the last overlapped segment is the only one with points:
absorbed where it carries the range's weight, left as a remainder otherwise. A
remainder no longer reaches into the range. -/
theorem spans_remainderAfter_iff
    (ordered : Ordered hit)
    (overlap : ∀ s ∈ hit, range.first ≤ s.last ∧ s.first ≤ range.last)
    {point next : Int}
    (weight : Int)
    (outside : range.last < next)
    (near : point ≤ next ∧ next ≤ point + 1) :
    Spans (remainderAfter range hit) point next weight ∨
        (next ≤ (absorb range hit).last ∧ range.weight = weight) ↔
      Spans hit point next weight ∧ (range.last < point ∨ weight = range.weight) := by
  rcases List.eq_nil_or_concat hit with rfl | ⟨earlier, s, rfl⟩
  · simp [remainderAfter, absorb, outside]
  · obtain ⟨_, _, below⟩ := (ordered_append_iff earlier [s]).mp (by simpa using ordered)
    have reach := overlap s (by simp)
    have earlierOutside : ¬ Spans earlier point next weight := by
      rintro ⟨t, member, _, upper, _⟩
      have apart := below t member s (by simp)
      omega
    simp only [List.concat_eq_append, spans_append, spans_cons, spans_nil, earlierOutside,
      or_false, false_or]
    by_cases sameWeight : s.weight = range.weight
    · simp only [remainderAfter, absorb, List.getLast?_append_cons, List.getLast?_singleton,
        sameWeight, ne_eq, not_true, false_and, if_false, if_true, spans_nil, false_or]
      omega
    · by_cases ends : range.last < s.last
      · simp only [remainderAfter, absorb, List.getLast?_append_cons, List.getLast?_singleton,
          sameWeight, ne_eq, not_false_eq_true, ends, and_self, if_true, if_false, spans_cons,
          spans_nil, or_false]
        omega
      · simp only [remainderAfter, absorb, List.getLast?_append_cons, List.getLast?_singleton,
          sameWeight, ne_eq, not_false_eq_true, ends, and_false, if_false, spans_nil, false_or]
        omega

theorem remainderBefore_last_lt
    (s : Segment)
    (member : s ∈ remainderBefore range hit) :
    s.last < range.first := by
  unfold remainderBefore at member
  split at member
  · split at member
    · simp only [List.mem_singleton] at member
      subst member
      dsimp only
      omega
    · simp at member
  · simp at member

theorem lt_remainderAfter_first
    (s : Segment)
    (member : s ∈ remainderAfter range hit) :
    range.last < s.first := by
  unfold remainderAfter at member
  split at member
  · split at member
    · simp only [List.mem_singleton] at member
      subst member
      dsimp only
      omega
    · simp at member
  · simp at member

/-! ## What painting does to points -/

/-- The painted segments hold two neighbouring points together inside the range,
with its weight; elsewhere as before, unless the range's end cuts them apart. -/
theorem Cut.spans_iff
    (cut : Cut range left hit right)
    (inhabited : range.first ≤ range.last)
    {point next weight : Int}
    (near : point ≤ next ∧ next ≤ point + 1) :
    Spans ((left ++ remainderBefore range hit) ++
        absorb range hit :: (remainderAfter range hit ++ right)) point next weight ↔
      (range.first ≤ point ∧ next ≤ range.last ∧ range.weight = weight) ∨
        (¬ (range.first ≤ point ∧ next ≤ range.last) ∧
          Spans (left ++ (hit ++ right)) point next weight ∧
          ((next < range.first ∨ range.last < point) ∨ weight = range.weight)) := by
  have hitOrdered : Ordered hit :=
    ((ordered_append_iff hit right).mp ((ordered_append_iff left _).mp cut.ordered).2.1).1
  have grownFirst : (absorb range hit).first ≤ range.first := absorb_first_le
  have grownLast : range.last ≤ (absorb range hit).last := le_absorb_last
  simp only [spans_append, spans_cons, absorb_weight]
  rcases Int.lt_or_le point range.first with starts | startsInside
  · have noRemainder : ¬ Spans (remainderAfter range hit) point next weight :=
      not_spans_of_lt_first fun s member => by
        have := lt_remainderAfter_first s member
        omega
    have noRight : ¬ Spans right point next weight :=
      not_spans_of_lt_first fun s member => by
        have := cut.beyond s member
        omega
    have leftEnds : Spans left point next weight → next < range.first := by
      rintro ⟨s, member, _, upper, _⟩
      have := cut.before s member
      omega
    have middle := spans_remainderBefore_iff hitOrdered cut.overlap weight
      starts near
    have focusReaches : next ≤ (absorb range hit).last := by omega
    simp only [noRemainder, noRight, or_false, focusReaches, true_and]
    constructor
    · rintro ((inLeft | inRemainder) | inFocus)
      · exact Or.inr ⟨by omega, Or.inl inLeft, Or.inl (Or.inl (leftEnds inLeft))⟩
      · obtain ⟨inHit, allowed⟩ := middle.mp (Or.inl inRemainder)
        exact Or.inr ⟨by omega, Or.inr inHit, allowed.imp_left Or.inl⟩
      · obtain ⟨inHit, allowed⟩ := middle.mp (Or.inr inFocus)
        exact Or.inr ⟨by omega, Or.inr inHit, allowed.imp_left Or.inl⟩
    · rintro (inside | ⟨_, inLeft | inHit, allowed⟩)
      · omega
      · exact Or.inl (Or.inl inLeft)
      · have beyondLast : ¬ range.last < point := by omega
        have allowedBefore := allowed.imp_left fun outside => outside.resolve_right beyondLast
        rcases middle.mpr ⟨inHit, allowedBefore⟩ with inRemainder | inFocus
        · exact Or.inl (Or.inr inRemainder)
        · exact Or.inr inFocus
  · have noRemainder : ¬ Spans (remainderBefore range hit) point next weight :=
      not_spans_of_last_lt fun s member => by
        have := remainderBefore_last_lt s member
        omega
    have noLeft : ¬ Spans left point next weight :=
      not_spans_of_last_lt fun s member => by
        have := cut.before s member
        omega
    have focusReaches : (absorb range hit).first ≤ point := by omega
    simp only [noRemainder, noLeft, false_or, focusReaches, true_and]
    rcases Int.lt_or_le range.last next with ends | endsInside
    · have rightBegins : Spans right point next weight → range.last < point := by
        rintro ⟨s, member, lower, _, _⟩
        have := cut.beyond s member
        omega
      have middle := spans_remainderAfter_iff hitOrdered cut.overlap weight
        ends near
      constructor
      · rintro (inFocus | inRemainder | inRight)
        · obtain ⟨inHit, allowed⟩ := middle.mp (Or.inr inFocus)
          exact Or.inr ⟨by omega, Or.inl inHit, allowed.imp_left Or.inr⟩
        · obtain ⟨inHit, allowed⟩ := middle.mp (Or.inl inRemainder)
          exact Or.inr ⟨by omega, Or.inl inHit, allowed.imp_left Or.inr⟩
        · exact Or.inr ⟨by omega, Or.inr inRight, Or.inl (Or.inr (rightBegins inRight))⟩
      · rintro (inside | ⟨_, inHit | inRight, allowed⟩)
        · omega
        · have belowFirst : ¬ next < range.first := by omega
          have allowedAfter := allowed.imp_left fun outside => outside.resolve_left belowFirst
          rcases middle.mpr ⟨inHit, allowedAfter⟩ with inRemainder | inFocus
          · exact Or.inr (Or.inl inRemainder)
          · exact Or.inl inFocus
        · exact Or.inr (Or.inr inRight)
    · have noRemainderAfter : ¬ Spans (remainderAfter range hit) point next weight :=
        not_spans_of_lt_first fun s member => by
          have := lt_remainderAfter_first s member
          omega
      have noRight : ¬ Spans right point next weight :=
        not_spans_of_lt_first fun s member => by
          have := cut.beyond s member
          omega
      simp only [noRemainderAfter, noRight, or_false, startsInside, endsInside, true_and,
        not_true, false_and]
      constructor
      · rintro ⟨_, sameWeight⟩
        exact sameWeight
      · intro sameWeight
        exact ⟨by omega, sameWeight⟩

/-! ## The shape painting leaves -/

theorem lt_absorb_first
    {bound : Int}
    (belowRange : bound < range.first)
    (belowHit : ∀ s ∈ hit, bound < s.first) :
    bound < (absorb range hit).first := by
  cases hit with
  | nil => simpa [absorb] using belowRange
  | cons s rest =>
    have := belowHit s (by simp)
    simp only [absorb, List.head?_cons]
    split <;> omega

theorem absorb_last_lt
    {bound : Int}
    (aboveRange : range.last < bound)
    (aboveHit : ∀ s ∈ hit, s.last < bound) :
    (absorb range hit).last < bound := by
  rcases List.eq_nil_or_concat hit with rfl | ⟨earlier, s, rfl⟩
  · simpa [absorb] using aboveRange
  · have := aboveHit s (by simp)
    simp only [absorb, List.concat_eq_append, List.getLast?_append_cons,
      List.getLast?_singleton]
    split <;> omega

theorem absorb_first_of_remainderBefore
    (s : Segment)
    (member : s ∈ remainderBefore range hit) :
    (absorb range hit).first = range.first := by
  unfold remainderBefore at member
  split at member
  · rename_i found
    split at member
    · rename_i cutOff
      simp [absorb, found, cutOff.1]
    · simp at member
  · simp at member

theorem absorb_last_of_remainderAfter
    (s : Segment)
    (member : s ∈ remainderAfter range hit) :
    (absorb range hit).last = range.last := by
  unfold remainderAfter at member
  split at member
  · rename_i found
    split at member
    · rename_i cutOff
      simp [absorb, found, cutOff.1]
    · simp at member
  · simp at member

private theorem wellKept_remainderBefore
    (kept : WellKept deviation (left ++ hit)) :
    WellKept deviation (left ++ remainderBefore range hit) := by
  cases hit with
  | nil => simpa [remainderBefore] using kept
  | cons s rest =>
    obtain ⟨keptLeft, _, separated⟩ := (wellKept_append_iff left (s :: rest)).mp kept
    by_cases cutOff : s.weight ≠ range.weight ∧ s.first < range.first
    · simp only [remainderBefore, List.head?_cons, if_pos cutOff]
      refine (wellKept_append_iff _ _).mpr ⟨keptLeft, ?_, ?_⟩
      · simp only [WellKept]
        omega
      -- Separation from the segment before looks at the start and the weight only.
      · intro t last u only
        simp only [List.head?_cons, Option.mem_def, Option.some.injEq] at only
        subst only
        exact separated t last s rfl
    · simpa only [remainderBefore, List.head?_cons, if_neg cutOff, List.append_nil] using keptLeft

private theorem wellKept_remainderAfter
    (kept : WellKept deviation (hit ++ right)) :
    WellKept deviation (remainderAfter range hit ++ right) := by
  rcases List.eq_nil_or_concat hit with rfl | ⟨earlier, s, rfl⟩
  · simpa [remainderAfter] using kept
  · obtain ⟨_, keptRight, separated⟩ := (wellKept_append_iff _ right).mp kept
    by_cases cutOff : s.weight ≠ range.weight ∧ range.last < s.last
    · simp only [remainderAfter, List.concat_eq_append, List.getLast?_append_cons,
        List.getLast?_singleton, if_pos cutOff]
      refine (wellKept_append_iff _ _).mpr ⟨?_, keptRight, ?_⟩
      · simp only [WellKept]
        omega
      -- Separation from the segment after looks at the end and the weight only.
      · intro t only u first
        simp only [List.getLast?_singleton, Option.mem_def, Option.some.injEq] at only
        subst only
        exact separated s (by simp) u first
    · simpa only [remainderAfter, List.concat_eq_append, List.getLast?_append_cons,
        List.getLast?_singleton, if_neg cutOff, List.nil_append] using keptRight

/-- Painting over well-kept segments leaves two well-kept sides with the painted
segment between them. -/
theorem Cut.flanked
    (cut : Cut range left hit right)
    (kept : WellKept deviation (left ++ (hit ++ right)))
    (inhabited : range.first ≤ range.last) :
    Cursor.Flanked deviation
      ⟨(left ++ remainderBefore range hit).reverse, absorb range hit,
        remainderAfter range hit ++ right⟩ := by
  obtain ⟨_, orderedTail, leftBelow⟩ := (ordered_append_iff left _).mp cut.ordered
  obtain ⟨_, _, hitBelow⟩ := (ordered_append_iff hit right).mp orderedTail
  have keptAssoc : WellKept deviation ((left ++ hit) ++ right) := by simpa using kept
  have grownFirst : (absorb range hit).first ≤ range.first := absorb_first_le
  have grownLast : range.last ≤ (absorb range hit).last := le_absorb_last
  refine ⟨?_, ?_, ?_, ?_, ?_⟩
  · simpa using wellKept_remainderBefore ((wellKept_append_iff _ right).mp keptAssoc).1
  · exact wellKept_remainderAfter ((wellKept_append_iff left _).mp kept).2.1
  · dsimp only
    omega
  · intro s member
    rcases List.mem_append.mp (List.mem_reverse.mp member) with inLeft | inRemainder
    · exact lt_absorb_first (cut.before s inLeft) fun t inHit =>
        leftBelow s inLeft t (by simp [inHit])
    · rw [absorb_first_of_remainderBefore s inRemainder]
      exact remainderBefore_last_lt s inRemainder
  · intro s member
    rcases List.mem_append.mp member with inRemainder | inRight
    · rw [absorb_last_of_remainderAfter s inRemainder]
      exact lt_remainderAfter_first s inRemainder
    · exact absorb_last_lt (cut.beyond s inRight) fun t inHit => hitBelow t inHit s inRight

end UsageBilling.Coverage

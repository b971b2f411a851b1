import UsageBilling.Proofs.Coverage.Colouring
import UsageBilling.Proofs.Coverage.Painting

/-!
Contract: joining the segment in focus with its neighbours.

Owns:
- what one join on either side can do to a flanked cursor;
- the end of merging after one pass, since a joined neighbour was already
  separated from what lies behind it;
- which points merging adds: those of a gap between two segments of one weight
  that is not wider than the deviation.

Does not own: how the focus came to be.
-/

namespace UsageBilling.Coverage

variable {deviation : Nat}

theorem joins_eq_true_iff
    (s next : Segment) :
    s.joins deviation next = true ↔
      s.weight = next.weight ∧ next.first - s.last ≤ deviation := by
  simp only [Segment.joins, Bool.and_eq_true, beq_iff_eq, decide_eq_true_eq]
  rfl

/-- Segments apart from each other need no joining exactly if they are
separated. -/
theorem separated_of_not_joins
    {s next : Segment}
    (below : s.last < next.first)
    (apart : s.joins deviation next ≠ true) :
    Separated deviation s next := by
  refine ⟨below, fun sameWeight => ?_⟩
  rw [Ne, joins_eq_true_iff] at apart
  simp only [Segment.gapTo]
  omega

theorem Separated.not_joins
    {s next : Segment}
    (separated : Separated deviation s next) :
    s.joins deviation next ≠ true := by
  rw [Ne, joins_eq_true_iff]
  rintro ⟨sameWeight, close⟩
  have wide := separated.2 sameWeight
  simp only [Segment.gapTo] at wide
  omega

namespace Cursor

variable {cursor : Cursor}

def SettledBefore (deviation : Nat) (cursor : Cursor) : Prop :=
  ∀ s ∈ cursor.before.head?, Separated deviation s cursor.focus

def SettledAfter (deviation : Nat) (cursor : Cursor) : Prop :=
  ∀ s ∈ cursor.after.head?, Separated deviation cursor.focus s

/-! ## Settled cursors -/

theorem joinBefore_of_settled
    (settled : cursor.SettledBefore deviation) :
    cursor.joinBefore deviation = cursor := by
  obtain ⟨before, focus, after⟩ := cursor
  cases before with
  | nil => rfl
  | cons near far => exact if_neg (settled near rfl).not_joins

theorem joinAfter_of_settled
    (settled : cursor.SettledAfter deviation) :
    cursor.joinAfter deviation = cursor := by
  obtain ⟨before, focus, after⟩ := cursor
  cases after with
  | nil => rfl
  | cons near far => exact if_neg (settled near rfl).not_joins

theorem Flanked.wellKept_toList
    (flanked : cursor.Flanked deviation)
    (settledBefore : cursor.SettledBefore deviation)
    (settledAfter : cursor.SettledAfter deviation) :
    WellKept deviation cursor.toList := by
  refine (wellKept_append_iff _ _).mpr ⟨flanked.before, ?_, ?_⟩
  · exact (wellKept_cons_iff _ _).mpr ⟨flanked.inhabited, settledAfter, flanked.after⟩
  · intro s last t only
    simp only [List.head?_cons, Option.mem_def, Option.some.injEq] at only
    subst only
    exact settledBefore s (by simpa using last)

theorem Flanked.ordered_toList
    (flanked : cursor.Flanked deviation) :
    Ordered cursor.toList := by
  refine (ordered_append_iff _ _).mpr ⟨flanked.before.ordered, ?_, ?_⟩
  · exact (ordered_cons_iff _ _).mpr
      ⟨flanked.inhabited, flanked.below, flanked.after.ordered⟩
  · intro s inBefore t member
    have above := flanked.above s (List.mem_reverse.mp inBefore)
    rcases List.mem_cons.mp member with rfl | inAfter
    · exact above
    · have below := flanked.below t inAfter
      have inhabited := flanked.inhabited
      omega

/-! ## One join -/

theorem Flanked.joinBefore_cases
    (flanked : cursor.Flanked deviation) :
    (cursor.SettledBefore deviation ∧ cursor.joinBefore deviation = cursor) ∨
      ∃ near far, cursor.before = near :: far ∧ near.weight = cursor.focus.weight ∧
        cursor.focus.first - near.last ≤ deviation ∧
        cursor.joinBefore deviation =
          ⟨far, ⟨near.first, cursor.focus.last, cursor.focus.weight⟩, cursor.after⟩ := by
  obtain ⟨before, focus, after⟩ := cursor
  cases before with
  | nil => exact Or.inl ⟨by simp [SettledBefore], rfl⟩
  | cons near far =>
    have above := flanked.above near (by simp)
    have inhabited := flanked.inhabited
    by_cases joined : near.joins deviation focus = true
    · obtain ⟨sameWeight, close⟩ := (joins_eq_true_iff near focus).mp joined
      refine Or.inr ⟨near, far, rfl, sameWeight, close, ?_⟩
      have grown : max near.last focus.last = focus.last := by
        dsimp only at above inhabited
        omega
      simp only [joinBefore, joined, if_true, grown, sameWeight]
    · refine Or.inl ⟨?_, if_neg joined⟩
      intro s only
      simp only [List.head?_cons, Option.mem_def, Option.some.injEq] at only
      subst only
      exact separated_of_not_joins above joined

theorem Flanked.joinAfter_cases
    (flanked : cursor.Flanked deviation) :
    (cursor.SettledAfter deviation ∧ cursor.joinAfter deviation = cursor) ∨
      ∃ near far, cursor.after = near :: far ∧ cursor.focus.weight = near.weight ∧
        near.first - cursor.focus.last ≤ deviation ∧
        cursor.joinAfter deviation =
          ⟨cursor.before, ⟨cursor.focus.first, near.last, cursor.focus.weight⟩, far⟩ := by
  obtain ⟨before, focus, after⟩ := cursor
  cases after with
  | nil => exact Or.inl ⟨by simp [SettledAfter], rfl⟩
  | cons near far =>
    have below := flanked.below near (by simp)
    have nearInhabited := flanked.after.ordered.inhabited near (by simp)
    by_cases joined : focus.joins deviation near = true
    · obtain ⟨sameWeight, close⟩ := (joins_eq_true_iff focus near).mp joined
      refine Or.inr ⟨near, far, rfl, sameWeight, close, ?_⟩
      have grown : max focus.last near.last = near.last := by
        dsimp only at below
        omega
      simp only [joinAfter, joined, if_true, grown]
    · refine Or.inl ⟨?_, if_neg joined⟩
      intro s only
      simp only [List.head?_cons, Option.mem_def, Option.some.injEq] at only
      subst only
      exact separated_of_not_joins below joined

/-- A join before the focus keeps the shape and leaves nothing to join there:
the segment it takes in was separated from the one behind it. -/
theorem Flanked.joinBefore
    (flanked : cursor.Flanked deviation) :
    (cursor.joinBefore deviation).Flanked deviation ∧
      (cursor.joinBefore deviation).SettledBefore deviation := by
  rcases flanked.joinBefore_cases with ⟨settled, same⟩ | ⟨near, far, split, sameWeight, _, joined⟩
  · rw [same]
    exact ⟨flanked, settled⟩
  · have keptBefore := flanked.before
    rw [split, List.reverse_cons, wellKept_append_iff] at keptBefore
    obtain ⟨keptFar, keptNear, separated⟩ := keptBefore
    have nearInhabited : near.first ≤ near.last := by simpa [WellKept] using keptNear
    have nearBelow := flanked.above near (by simp [split])
    have inhabited := flanked.inhabited
    have farBelow : ∀ s ∈ far, s.last < near.first := by
      have ordered := flanked.before.ordered
      rw [split, List.reverse_cons] at ordered
      intro s member
      exact ((ordered_append_iff _ _).mp ordered).2.2 s (by simpa using member) near (by simp)
    rw [joined]
    refine ⟨⟨keptFar, flanked.after, ?_, farBelow, flanked.below⟩, ?_⟩
    · dsimp only
      omega
    · intro s nearest
      have apart := separated s (by simpa using nearest) near rfl
      exact ⟨apart.1, fun same => apart.2 (same.trans sameWeight.symm)⟩

/-- A join after the focus keeps the shape, leaves nothing to join there, and
does not touch the start of the focus. -/
theorem Flanked.joinAfter
    (flanked : cursor.Flanked deviation) :
    (cursor.joinAfter deviation).Flanked deviation ∧
      (cursor.joinAfter deviation).SettledAfter deviation ∧
      (cursor.SettledBefore deviation → (cursor.joinAfter deviation).SettledBefore deviation) := by
  rcases flanked.joinAfter_cases with ⟨settled, same⟩ | ⟨near, far, split, sameWeight, _, joined⟩
  · rw [same]
    exact ⟨flanked, settled, id⟩
  · have keptAfter := flanked.after
    rw [split, wellKept_cons_iff] at keptAfter
    obtain ⟨nearInhabited, separated, keptFar⟩ := keptAfter
    have nearAbove := flanked.below near (by simp [split])
    have inhabited := flanked.inhabited
    have farAbove : ∀ s ∈ far, near.last < s.first := by
      have ordered := flanked.after.ordered
      rw [split] at ordered
      exact ((ordered_cons_iff near far).mp ordered).2.1
    rw [joined]
    refine ⟨⟨flanked.before, keptFar, ?_, flanked.above, farAbove⟩, ?_, fun settled => settled⟩
    · dsimp only
      omega
    · intro s nearest
      have apart := separated s nearest
      exact ⟨apart.1, fun same => apart.2 (sameWeight.symm.trans same)⟩

/-! ## The end of merging -/

theorem Flanked.mergePass
    (flanked : cursor.Flanked deviation) :
    (cursor.mergePass deviation).Flanked deviation ∧
      (cursor.mergePass deviation).SettledBefore deviation ∧
      (cursor.mergePass deviation).SettledAfter deviation := by
  obtain ⟨flankedOnce, settledOnce⟩ := flanked.joinBefore
  obtain ⟨flankedTwice, settledAfter, keepsSettled⟩ := flankedOnce.joinAfter
  exact ⟨flankedTwice, keepsSettled settledOnce, settledAfter⟩

theorem mergePass_of_settled
    (settledBefore : cursor.SettledBefore deviation)
    (settledAfter : cursor.SettledAfter deviation) :
    cursor.mergePass deviation = cursor := by
  rw [Cursor.mergePass, joinBefore_of_settled settledBefore, joinAfter_of_settled settledAfter]

theorem mergePasses_of_settled
    (settledBefore : cursor.SettledBefore deviation)
    (settledAfter : cursor.SettledAfter deviation)
    (passes : Nat) :
    mergePasses deviation passes cursor = cursor := by
  cases passes with
  | zero => rfl
  | succ passes =>
    rw [mergePasses, mergePass_of_settled settledBefore settledAfter]
    exact if_neg (Nat.lt_irrefl _)

theorem coalesce_of_settled
    (settledBefore : cursor.SettledBefore deviation)
    (settledAfter : cursor.SettledAfter deviation) :
    cursor.coalesce deviation = cursor :=
  mergePasses_of_settled settledBefore settledAfter _

/-- The first pass joins all there is to join. -/
theorem Flanked.coalesce_eq_mergePass
    (flanked : cursor.Flanked deviation) :
    cursor.coalesce deviation = cursor.mergePass deviation := by
  obtain ⟨_, settledBefore, settledAfter⟩ := flanked.mergePass
  rw [coalesce, mergePasses]
  split
  · exact mergePasses_of_settled settledBefore settledAfter _
  · rfl

/-- Without a deviation nothing is joined: segments that touch stay two. -/
theorem Flanked.coalesce_of_no_deviation
    (flanked : cursor.Flanked 0) :
    cursor.coalesce 0 = cursor := by
  have settledBefore : cursor.SettledBefore 0 := by
    rcases flanked.joinBefore_cases with ⟨settled, _⟩ | ⟨near, far, split, _, close, _⟩
    · exact settled
    · have above := flanked.above near (by simp [split])
      omega
  have settledAfter : cursor.SettledAfter 0 := by
    rcases flanked.joinAfter_cases with ⟨settled, _⟩ | ⟨near, far, split, _, close, _⟩
    · exact settled
    · have below := flanked.below near (by simp [split])
      omega
  exact coalesce_of_settled settledBefore settledAfter

theorem Flanked.wellKept_coalesce
    (flanked : cursor.Flanked deviation) :
    WellKept deviation (cursor.coalesce deviation).toList := by
  rw [flanked.coalesce_eq_mergePass]
  obtain ⟨stillFlanked, settledBefore, settledAfter⟩ := flanked.mergePass
  exact stillFlanked.wellKept_toList settledBefore settledAfter

/-! ## The points merging adds -/

/-- Whether a point lies in the gap that a join before the focus closes. -/
def FilledBefore (deviation : Nat) (cursor : Cursor) (point weight : Int) : Prop :=
  ∃ near ∈ cursor.before.head?, near.weight = cursor.focus.weight ∧
    cursor.focus.first - near.last ≤ deviation ∧
    near.last < point ∧ point < cursor.focus.first ∧ cursor.focus.weight = weight

/-- Whether a point lies in the gap that a join after the focus closes. -/
def FilledAfter (deviation : Nat) (cursor : Cursor) (point weight : Int) : Prop :=
  ∃ near ∈ cursor.after.head?, cursor.focus.weight = near.weight ∧
    near.first - cursor.focus.last ≤ deviation ∧
    cursor.focus.last < point ∧ point < near.first ∧ cursor.focus.weight = weight

theorem Flanked.weighs_joinBefore_iff
    (flanked : cursor.Flanked deviation)
    (point weight : Int) :
    Weighs (cursor.joinBefore deviation).toList point weight ↔
      Weighs cursor.toList point weight ∨ cursor.FilledBefore deviation point weight := by
  rcases flanked.joinBefore_cases with
    ⟨settled, same⟩ | ⟨near, far, split, sameWeight, close, joined⟩
  · rw [same, iff_self_or]
    rintro ⟨near, nearest, sameWeight, close, _⟩
    have wide := (settled near nearest).2 sameWeight
    simp only [Segment.gapTo] at wide
    omega
  · have nearBelow := flanked.above near (by simp [split])
    have nearInhabited := flanked.before.ordered.inhabited near (by simp [split])
    have inhabited := flanked.inhabited
    rw [joined]
    simp only [toList, split, List.reverse_cons, List.append_assoc, List.cons_append,
      List.nil_append, spans_append, spans_cons, FilledBefore, List.head?_cons, Option.mem_def,
      Option.some.injEq, exists_eq_left', sameWeight, close, true_and]
    constructor
    · rintro (inFar | inJoined | inAfter)
      · exact Or.inl (Or.inl inFar)
      · omega
      · exact Or.inl (Or.inr (Or.inr (Or.inr inAfter)))
    · rintro ((inFar | inNear | inFocus | inAfter) | filled)
      · exact Or.inl inFar
      · exact Or.inr (Or.inl (by omega))
      · exact Or.inr (Or.inl (by omega))
      · exact Or.inr (Or.inr inAfter)
      · exact Or.inr (Or.inl (by omega))

theorem Flanked.weighs_joinAfter_iff
    (flanked : cursor.Flanked deviation)
    (point weight : Int) :
    Weighs (cursor.joinAfter deviation).toList point weight ↔
      Weighs cursor.toList point weight ∨ cursor.FilledAfter deviation point weight := by
  rcases flanked.joinAfter_cases with
    ⟨settled, same⟩ | ⟨near, far, split, sameWeight, close, joined⟩
  · rw [same, iff_self_or]
    rintro ⟨near, nearest, sameWeight, close, _⟩
    have wide := (settled near nearest).2 sameWeight
    simp only [Segment.gapTo] at wide
    omega
  · have nearAbove := flanked.below near (by simp [split])
    have nearInhabited := flanked.after.ordered.inhabited near (by simp [split])
    have inhabited := flanked.inhabited
    rw [joined]
    simp only [toList, split, spans_append, spans_cons, FilledAfter, List.head?_cons,
      Option.mem_def, Option.some.injEq, exists_eq_left', ← sameWeight, close, true_and]
    constructor
    · rintro (inBefore | inJoined | inFar)
      · exact Or.inl (Or.inl inBefore)
      · omega
      · exact Or.inl (Or.inr (Or.inr (Or.inr inFar)))
    · rintro ((inBefore | inFocus | inNear | inFar) | filled)
      · exact Or.inl inBefore
      · exact Or.inr (Or.inl (by omega))
      · exact Or.inr (Or.inl (by omega))
      · exact Or.inr (Or.inr inFar)
      · exact Or.inr (Or.inl (by omega))

/-- A join before the focus does not move its end, so it leaves the gap after
the focus as it is. -/
theorem Flanked.filledAfter_joinBefore_iff
    (flanked : cursor.Flanked deviation)
    (point weight : Int) :
    (cursor.joinBefore deviation).FilledAfter deviation point weight ↔
      cursor.FilledAfter deviation point weight := by
  rcases flanked.joinBefore_cases with ⟨_, same⟩ | ⟨_, _, _, _, _, joined⟩
  · rw [same]
  · rw [joined]
    rfl

theorem Flanked.weighs_mergePass_iff
    (flanked : cursor.Flanked deviation)
    (point weight : Int) :
    Weighs (cursor.mergePass deviation).toList point weight ↔
      Weighs cursor.toList point weight ∨ cursor.FilledBefore deviation point weight ∨
        cursor.FilledAfter deviation point weight := by
  rw [Cursor.mergePass, flanked.joinBefore.1.weighs_joinAfter_iff, flanked.weighs_joinBefore_iff,
    flanked.filledAfter_joinBefore_iff, or_assoc]

/-- Every joined segment begins at a point that had a weight before. -/
theorem Flanked.weighs_first_of_mem_mergePass
    (flanked : cursor.Flanked deviation)
    (s : Segment)
    (member : s ∈ (cursor.mergePass deviation).toList) :
    ∃ weight, Weighs cursor.toList s.first weight := by
  have weighsFirst : ∀ t ∈ cursor.toList, Weighs cursor.toList t.first t.weight :=
    fun t inList => ⟨t, inList, Int.le_refl _, flanked.ordered_toList.inhabited t inList, rfl⟩
  have firstOf : ∀ t ∈ (cursor.joinBefore deviation).toList,
      ∃ u ∈ cursor.toList, t.first = u.first := by
    rcases flanked.joinBefore_cases with ⟨_, same⟩ | ⟨near, far, split, _, _, joined⟩
    · rw [same]
      exact fun t inList => ⟨t, inList, rfl⟩
    · rw [joined]
      simp only [toList, split, List.reverse_cons, List.append_assoc, List.mem_append,
        List.mem_cons, List.mem_reverse]
      rintro t (inFar | rfl | inAfter)
      · exact ⟨t, by tauto, rfl⟩
      · exact ⟨near, by tauto, rfl⟩
      · exact ⟨t, by tauto, rfl⟩
  have firstKept : ∀ t ∈ (cursor.mergePass deviation).toList,
      ∃ u ∈ (cursor.joinBefore deviation).toList, t.first = u.first := by
    rw [Cursor.mergePass]
    rcases flanked.joinBefore.1.joinAfter_cases with ⟨_, same⟩ | ⟨near, far, split, _, _, joined⟩
    · rw [same]
      exact fun t inList => ⟨t, inList, rfl⟩
    · rw [joined]
      simp only [toList, split, List.mem_append, List.mem_cons, List.mem_reverse]
      rintro t (inBefore | rfl | inFar)
      · exact ⟨t, by tauto, rfl⟩
      · exact ⟨(cursor.joinBefore deviation).focus, by tauto, rfl⟩
      · exact ⟨t, by tauto, rfl⟩
  obtain ⟨t, inOnce, sameFirst⟩ := firstKept s member
  obtain ⟨u, inList, sameFirst'⟩ := firstOf t inOnce
  exact ⟨u.weight, by rw [sameFirst, sameFirst']; exact weighsFirst u inList⟩

theorem Flanked.bridged_of_filledBefore
    (flanked : cursor.Flanked deviation)
    {point weight : Int}
    (filled : cursor.FilledBefore deviation point weight) :
    Bridged deviation (Weighs cursor.toList) point weight := by
  obtain ⟨near, nearest, sameWeight, close, lower, upper, rfl⟩ := filled
  obtain ⟨far, split⟩ : ∃ far, cursor.before = near :: far := by
    cases before : cursor.before with
    | nil => simp [before] at nearest
    | cons head far =>
      simp only [before, List.head?_cons, Option.mem_def, Option.some.injEq] at nearest
      exact ⟨far, by rw [nearest]⟩
  have ordered := flanked.ordered_toList
  have nearMember : near ∈ cursor.toList := by simp [toList, split]
  have focusMember : cursor.focus ∈ cursor.toList := by simp [toList]
  refine ⟨near.last, cursor.focus.first, lower, upper, close,
    ⟨near, nearMember, ordered.inhabited near nearMember, Int.le_refl _, sameWeight⟩,
    ⟨cursor.focus, focusMember, Int.le_refl _, flanked.inhabited, rfl⟩, ?_⟩
  rintro between above below other ⟨s, member, sLower, sUpper, _⟩
  simp only [toList, split, List.reverse_cons, List.append_assoc, List.mem_append,
    List.mem_cons, List.mem_reverse, List.not_mem_nil, or_false] at member
  rcases member with inFar | rfl | rfl | inAfter
  · have orderedBefore := flanked.before.ordered
    rw [split, List.reverse_cons] at orderedBefore
    have := ((ordered_append_iff _ _).mp orderedBefore).2.2 s (by simpa using inFar) near (by simp)
    have := flanked.before.ordered.inhabited near (by simp [split])
    omega
  · omega
  · omega
  · have := flanked.below s inAfter
    have := flanked.inhabited
    omega

theorem Flanked.bridged_of_filledAfter
    (flanked : cursor.Flanked deviation)
    {point weight : Int}
    (filled : cursor.FilledAfter deviation point weight) :
    Bridged deviation (Weighs cursor.toList) point weight := by
  obtain ⟨near, nearest, sameWeight, close, lower, upper, rfl⟩ := filled
  obtain ⟨far, split⟩ : ∃ far, cursor.after = near :: far := by
    cases after : cursor.after with
    | nil => simp [after] at nearest
    | cons head far =>
      simp only [after, List.head?_cons, Option.mem_def, Option.some.injEq] at nearest
      exact ⟨far, by rw [nearest]⟩
  have ordered := flanked.ordered_toList
  have nearMember : near ∈ cursor.toList := by simp [toList, split]
  have focusMember : cursor.focus ∈ cursor.toList := by simp [toList]
  refine ⟨cursor.focus.last, near.first, lower, upper, close,
    ⟨cursor.focus, focusMember, flanked.inhabited, Int.le_refl _, rfl⟩,
    ⟨near, nearMember, Int.le_refl _, ordered.inhabited near nearMember, sameWeight.symm⟩, ?_⟩
  rintro between above below other ⟨s, member, sLower, sUpper, _⟩
  simp only [toList, split, List.mem_append, List.mem_cons, List.mem_reverse] at member
  rcases member with inBefore | rfl | rfl | inFar
  · have := flanked.above s inBefore
    have := flanked.inhabited
    omega
  · omega
  · omega
  · have orderedAfter := flanked.after.ordered
    rw [split] at orderedAfter
    have := ((ordered_cons_iff near far).mp orderedAfter).2.1 s inFar
    have := flanked.after.ordered.inhabited near (by simp [split])
    omega

/-- Merging fills exactly the bridged points. -/
theorem Flanked.weighs_coalesce_iff
    (flanked : cursor.Flanked deviation)
    (point weight : Int) :
    Weighs (cursor.coalesce deviation).toList point weight ↔
      Weighs cursor.toList point weight ∨
        Bridged deviation (Weighs cursor.toList) point weight := by
  have merged := flanked.wellKept_coalesce
  rw [flanked.coalesce_eq_mergePass] at merged ⊢
  have grows : ∀ point weight, Weighs cursor.toList point weight →
      Weighs (cursor.mergePass deviation).toList point weight :=
    fun point weight weighs => (flanked.weighs_mergePass_iff point weight).mpr (Or.inl weighs)
  constructor
  · intro weighs
    rcases (flanked.weighs_mergePass_iff point weight).mp weighs with old | before | after
    · exact Or.inl old
    · exact Or.inr (flanked.bridged_of_filledBefore before)
    · exact Or.inr (flanked.bridged_of_filledAfter after)
  · rintro (old | ⟨before, after, lower, upper, close, weighsBefore, weighsAfter, empty⟩)
    · exact grows point weight old
    -- The segments at both ends of the gap are one segment, or neighbours that
    -- merging would have had to join.
    · obtain ⟨s, leftMember, sLower, sUpper, sWeight⟩ := grows before weight weighsBefore
      obtain ⟨t, rightMember, tLower, tUpper, tWeight⟩ := grows after weight weighsAfter
      by_cases reaches : point ≤ s.last
      · exact ⟨s, leftMember, by omega, reaches, sWeight⟩
      by_cases begins : t.first ≤ point
      · exact ⟨t, rightMember, begins, by omega, tWeight⟩
      exfalso
      have nothingBetween : ∀ u ∈ (cursor.mergePass deviation).toList,
          ¬ (s.last < u.first ∧ u.last < t.first) := by
        rintro u member ⟨above, below⟩
        obtain ⟨other, weighsFirst⟩ := flanked.weighs_first_of_mem_mergePass u member
        have inhabited := merged.ordered.inhabited u member
        exact empty u.first (by omega) (by omega) other weighsFirst
      have wide := merged.gap_of_nothing_between leftMember rightMember (by omega)
        (sWeight.trans tWeight.symm) nothingBetween
      omega

end Cursor

end UsageBilling.Coverage

import UsageBilling.Proofs.Coverage.Calls

/-!
Contract: the cost of an insertion, in passes and in segments.

Owns:
- the loop of merging as a relation, which counts the passes until one changes nothing;
- an insertion needs two passes at most, and takes in at most one stored segment on each
  side of what it painted;
- an insertion adds two segments at most, and the first one adds one, which bounds the
  size of coverage by the number of calls that succeeded.

Does not own: which points merging adds.
-/

namespace UsageBilling.Coverage

variable {deviation : Nat} {c : Coverage} {range : Segment} {hit : List Segment}

namespace Cursor

variable {cursor : Cursor}

/-! ## Passes -/

/-- The loop of merging, with the number of its passes: it runs on after a pass that changed
something, and ends with one that did not. -/
inductive Settles (deviation : Nat) : Nat → Cursor → Cursor → Prop where
  | last {cursor : Cursor} (unchanged : cursor.mergePass deviation = cursor) :
      Settles deviation 1 cursor cursor
  | more {cursor final : Cursor} {passes : Nat} (changed : cursor.mergePass deviation ≠ cursor)
      (settles : Settles deviation passes (cursor.mergePass deviation) final) :
      Settles deviation (passes + 1) cursor final

/-- The second pass finds nothing to join. -/
theorem Flanked.exists_settles
    (flanked : cursor.Flanked deviation) :
    ∃ passes ≤ 2, Settles deviation passes cursor (cursor.coalesce deviation) := by
  have ⟨_, settledBefore, settledAfter⟩ := flanked.mergePass
  rw [flanked.coalesce_eq_mergePass]
  by_cases unchanged : cursor.mergePass deviation = cursor
  · rw [unchanged]
    exact ⟨1, by decide, .last unchanged⟩
  · exact ⟨2, by decide, .more unchanged (.last (mergePass_of_settled settledBefore settledAfter))⟩

/-! ## Segments taken in -/

/-- Whether a focus has taken in some segments before it: one at most, which had its weight
and where it now begins. The rest of the segments before it stay. -/
structure TakesBefore (cursor merged : Cursor) (taken : List Segment) : Prop where
  split : cursor.before = taken ++ merged.before
  one : taken.length ≤ 1
  grows : ∀ s ∈ taken, s.weight = cursor.focus.weight ∧ merged.focus.first = s.first

structure TakesAfter (cursor merged : Cursor) (taken : List Segment) : Prop where
  split : cursor.after = taken ++ merged.after
  one : taken.length ≤ 1
  grows : ∀ s ∈ taken, s.weight = cursor.focus.weight ∧ merged.focus.last = s.last

theorem Flanked.takesBefore_joinBefore
    (flanked : cursor.Flanked deviation) :
    (∃ taken, TakesBefore cursor (cursor.joinBefore deviation) taken) ∧
      (cursor.joinBefore deviation).after = cursor.after ∧
      (cursor.joinBefore deviation).focus.weight = cursor.focus.weight := by
  rcases flanked.joinBefore_cases with ⟨_, same⟩ | ⟨near, far, split, sameWeight, _, joined⟩
  · rw [same]
    exact ⟨⟨[], rfl, by simp, by simp⟩, rfl, rfl⟩
  · rw [joined]
    exact ⟨⟨[near], split, by simp, by simp [sameWeight]⟩, rfl, rfl⟩

theorem Flanked.takesAfter_joinAfter
    (flanked : cursor.Flanked deviation) :
    (∃ taken, TakesAfter cursor (cursor.joinAfter deviation) taken) ∧
      (cursor.joinAfter deviation).before = cursor.before ∧
      (cursor.joinAfter deviation).focus.first = cursor.focus.first := by
  rcases flanked.joinAfter_cases with ⟨_, same⟩ | ⟨near, far, split, sameWeight, _, joined⟩
  · rw [same]
    exact ⟨⟨[], rfl, by simp, by simp⟩, rfl, rfl⟩
  · rw [joined]
    exact ⟨⟨[near], split, by simp, by simp [sameWeight]⟩, rfl, rfl⟩

theorem Flanked.exists_takes_coalesce
    (flanked : cursor.Flanked deviation) :
    (∃ taken, TakesBefore cursor (cursor.coalesce deviation) taken) ∧
      ∃ taken, TakesAfter cursor (cursor.coalesce deviation) taken := by
  have ⟨⟨before, takesBefore⟩, sameAfter, sameWeight⟩ := flanked.takesBefore_joinBefore
  have ⟨⟨after, takesAfter⟩, sameBefore, sameFirst⟩ := flanked.joinBefore.1.takesAfter_joinAfter
  rw [flanked.coalesce_eq_mergePass, Cursor.mergePass]
  constructor
  · refine ⟨before, ?_, takesBefore.one, ?_⟩
    · rw [sameBefore]
      exact takesBefore.split
    · rw [sameFirst]
      exact takesBefore.grows
  · refine ⟨after, ?_, takesAfter.one, ?_⟩
    · rw [← sameAfter]
      exact takesAfter.split
    · rw [← sameWeight]
      exact takesAfter.grows

end Cursor

/-- What is left of a segment that a range cuts off has another weight than the range. -/
theorem weight_ne_of_mem_remainderBefore
    {s : Segment}
    (member : s ∈ remainderBefore range hit) :
    s.weight ≠ range.weight := by
  unfold remainderBefore at member
  split at member
  · split at member
    · rename_i cutOff
      rw [List.mem_singleton.mp member]
      exact cutOff.1
    · cases member
  · cases member

theorem weight_ne_of_mem_remainderAfter
    {s : Segment}
    (member : s ∈ remainderAfter range hit) :
    s.weight ≠ range.weight := by
  unfold remainderAfter at member
  split at member
  · split at member
    · rename_i cutOff
      rw [List.mem_singleton.mp member]
      exact cutOff.1
    · cases member
  · cases member

/-- The segments around the painted one that have its weight were stored as they are. -/
theorem Ordered.mem_of_mem_paint
    {segments : List Segment}
    {s : Segment}
    (ordered : Ordered segments)
    (member : s ∈ (paint range segments).before ++ (paint range segments).after)
    (sameWeight : s.weight = range.weight) :
    s ∈ segments := by
  have ⟨left, hit, right, split, _, painted⟩ := exists_cut range ordered
  simp only [painted, List.mem_append, List.mem_reverse] at member
  rw [split, List.mem_append, List.mem_append]
  rcases member with (inLeft | inRemainder) | (inRemainder | inRight)
  · exact Or.inl inLeft
  · exact absurd sameWeight (weight_ne_of_mem_remainderBefore inRemainder)
  · exact absurd sameWeight (weight_ne_of_mem_remainderAfter inRemainder)
  · exact Or.inr (Or.inr inRight)

/-- An insertion ends after two passes at most, in which the painted segment takes in at
most one stored segment on each side. -/
structure MergesOnce (c : Coverage) (range : Segment) : Prop where
  inserted : c.insert range.first range.last range.weight =
    .ok { c with segments := ((paint range c.segments).coalesce c.deviation).toList }
  settles : ∃ passes ≤ 2, Cursor.Settles c.deviation passes (paint range c.segments)
    ((paint range c.segments).coalesce c.deviation)
  before : ∃ taken, taken ⊆ c.segments ∧ Cursor.TakesBefore (paint range c.segments)
    ((paint range c.segments).coalesce c.deviation) taken
  after : ∃ taken, taken ⊆ c.segments ∧ Cursor.TakesAfter (paint range c.segments)
    ((paint range c.segments).coalesce c.deviation) taken

theorem Kept.mergesOnce
    (kept : c.Kept)
    (inhabited : range.first ≤ range.last) :
    MergesOnce c range := by
  have ⟨left, hit, right, split, cut, painted⟩ := exists_cut range kept.ordered
  have flanked : (paint range c.segments).Flanked c.deviation := by
    rw [painted]
    exact cut.flanked (split ▸ kept.wellKept) inhabited
  have focusWeight : (paint range c.segments).focus.weight = range.weight := by
    rw [painted, absorb_weight]
  have ⟨⟨before, takesBefore⟩, after, takesAfter⟩ := flanked.exists_takes_coalesce
  refine ⟨insert_eq_ok inhabited, flanked.exists_settles, ⟨before, ?_, takesBefore⟩,
    ⟨after, ?_, takesAfter⟩⟩
  · intro s member
    apply kept.ordered.mem_of_mem_paint _ ((takesBefore.grows s member).1.trans focusWeight)
    rw [takesBefore.split]
    exact List.mem_append_left _ (List.mem_append_left _ member)
  · intro s member
    apply kept.ordered.mem_of_mem_paint _ ((takesAfter.grows s member).1.trans focusWeight)
    rw [takesAfter.split]
    exact List.mem_append_right _ (List.mem_append_left _ member)

/-! ## Sizes -/

namespace Cursor

variable {cursor : Cursor}

theorem length_toList
    (cursor : Cursor) :
    cursor.toList.length = cursor.neighbours + 1 := by
  simp only [toList, neighbours, List.length_append, List.length_reverse, List.length_cons]
  omega

theorem neighbours_joinBefore_le
    (cursor : Cursor) :
    (cursor.joinBefore deviation).neighbours ≤ cursor.neighbours := by
  obtain ⟨before, focus, after⟩ := cursor
  unfold joinBefore neighbours
  cases before with
  | nil => exact Nat.le_refl _
  | cons near far =>
    dsimp only
    split
    · simp only [List.length_cons]
      omega
    · exact Nat.le_refl _

theorem neighbours_joinAfter_le
    (cursor : Cursor) :
    (cursor.joinAfter deviation).neighbours ≤ cursor.neighbours := by
  obtain ⟨before, focus, after⟩ := cursor
  unfold joinAfter neighbours
  cases after with
  | nil => exact Nat.le_refl _
  | cons near far =>
    dsimp only
    split
    · simp only [List.length_cons]
      omega
    · exact Nat.le_refl _

theorem neighbours_mergePass_le
    (deviation : Nat)
    (cursor : Cursor) :
    (cursor.mergePass deviation).neighbours ≤ cursor.neighbours :=
  Nat.le_trans (neighbours_joinAfter_le _) (neighbours_joinBefore_le cursor)

theorem neighbours_mergePasses_le
    (deviation passes : Nat)
    (cursor : Cursor) :
    (mergePasses deviation passes cursor).neighbours ≤ cursor.neighbours := by
  induction passes generalizing cursor with
  | zero => exact Nat.le_refl _
  | succ passes inductionHypothesis =>
    have once := neighbours_mergePass_le deviation cursor
    rw [mergePasses]
    split
    · exact Nat.le_trans (inductionHypothesis _) once
    · exact once

end Cursor

theorem length_remainderBefore_le
    (range : Segment)
    (hit : List Segment) :
    (remainderBefore range hit).length ≤ min 1 hit.length := by
  unfold remainderBefore
  cases hit with
  | nil => exact Nat.le_refl _
  | cons s rest =>
    dsimp only [List.head?_cons]
    split
    · simp
    · simp

theorem length_remainderAfter_le
    (range : Segment)
    (hit : List Segment) :
    (remainderAfter range hit).length ≤ min 1 hit.length := by
  unfold remainderAfter
  cases isLast : hit.getLast? with
  | none => simp
  | some s =>
    have inhabited : 0 < hit.length := List.length_pos_of_mem (List.mem_of_getLast? isLast)
    dsimp only
    split
    · rw [List.length_singleton]
      omega
    · simp

/-- Painting leaves at most as many neighbours as there were segments, and one more where it
cuts a segment on both sides. -/
theorem neighbours_paint_le
    (range : Segment)
    (segments : List Segment) :
    (paint range segments).neighbours ≤ segments.length + min 1 segments.length := by
  have rest : (segments.drop (entirelyBefore range segments).length).length =
      segments.length - (entirelyBefore range segments).length := List.length_drop
  have before : (entirelyBefore range segments).length ≤ segments.length :=
    (List.takeWhile_sublist _).length_le
  have hit : (overlapped range
      (segments.drop (entirelyBefore range segments).length)).length ≤
        (segments.drop (entirelyBefore range segments).length).length :=
    (List.takeWhile_sublist _).length_le
  have cutBefore := length_remainderBefore_le range
    (overlapped range (segments.drop (entirelyBefore range segments).length))
  have cutAfter := length_remainderAfter_le range
    (overlapped range (segments.drop (entirelyBefore range segments).length))
  simp only [paint, Cursor.neighbours, List.length_reverse, List.length_append, List.length_drop]
    at rest hit ⊢
  omega

theorem size_insertSegment_le
    (c : Coverage)
    (range : Segment) :
    (c.insertSegment range).size ≤ c.size + 1 + min 1 c.size := by
  have merged := Cursor.neighbours_mergePasses_le c.deviation
    ((paint range c.segments).neighbours + 1) (paint range c.segments)
  have painted := neighbours_paint_le range c.segments
  rw [size, Coverage.insertSegment, Cursor.length_toList, Cursor.coalesce, size]
  omega

/-- Calls that succeed when they are made one after another. -/
def successes : Coverage → List Call → Nat
  | _, [] => 0
  | c, call :: later =>
    match c.perform call with
    | (.ok _, after) => successes after later + 1
    | (.error _, after) => successes after later

/-- Each call that succeeds adds two segments at most, and only one where there was none. -/
theorem size_foldl_perform_le
    (c : Coverage)
    (calls : List Call)
    (made : Nat)
    (bounded : c.size ≤ 2 * made - 1) :
    (calls.foldl (fun c call => (c.perform call).2) c).size ≤
      2 * (made + successes c calls) - 1 := by
  induction calls generalizing c made with
  | nil => exact bounded
  | cons call later inductionHypothesis =>
    rw [List.foldl_cons, successes]
    rcases Int.lt_or_le call.range.last call.range.first with inverted | inhabited
    · rw [perform_of_inverted call inverted]
      exact inductionHypothesis c made bounded
    · rw [perform_of_inhabited call inhabited]
      have grown := size_insertSegment_le c call.range
      have further := inductionHypothesis (c.insertSegment call.range) (made + 1) (by omega)
      rwa [Nat.add_right_comm, Nat.add_assoc] at further

/-- An insertion into whatever coverage calls lead to ends after two passes at most, in which
it takes in at most one stored segment on each side; and coverage that calls lead to from an
empty one has at most two segments for each call that succeeded, less one. -/
theorem mergesOnce_and_size_le_of_reached
    (deviation : Nat)
    (origin : Origin)
    (calls : List Call) :
    (∀ call : Call, call.range.first ≤ call.range.last →
        MergesOnce (reached deviation origin calls) call.range) ∧
      (reached deviation .fresh calls).size ≤
        2 * successes (empty deviation) calls - 1 := by
  have kept := (kept_reached deviation origin calls).1
  refine ⟨fun call inhabited => kept.mergesOnce inhabited, ?_⟩
  have bounded := size_foldl_perform_le (empty deviation) calls 0 (Nat.le_refl 0)
  rwa [Nat.zero_add] at bounded

/-- A range is painted over a segment of another weight, and takes in the segments on both
sides, which have its own. -/
theorem mergesOnce_between_neighbours :
    (12 : Int) ≤ 14 ∧
      MergesOnce (reached 2 .fresh [.addRange 0 10 1, .addRange 12 14 2, .addRange 16 20 1])
        ⟨12, 14, 1⟩ ∧
      (reached 2 .fresh [.addRange 0 10 1, .addRange 12 14 2, .addRange 16 20 1,
        .addRange 12 14 1]).segments = [⟨0, 20, 1⟩] := by
  have merges := (mergesOnce_and_size_le_of_reached 2 .fresh
    [.addRange 0 10 1, .addRange 12 14 2, .addRange 16 20 1]).1
  exact ⟨by decide, merges (.addRange 12 14 1) (by decide), by decide⟩

/-- Ranges that lie within each other leave as many segments as there can be. -/
example :
    let calls := [Call.addRange 0 100 1, .addRange 10 90 2, .addRange 95 94 2, .addRange 20 80 3]
    successes (empty 0) calls = 3 ∧ (reached 0 .fresh calls).size = 5 := by
  decide

end UsageBilling.Coverage

import UsageBilling.Coverage.Insert

/-!
Contract: where segments begin and end after an insertion.

Owns:
- segments drawn from a range and from earlier segments: both ends and the weight are
  taken from them, or are the point next to the range where it cuts a segment off;
- what holds of all segments of a cursor, and of any two that are joined, holds of all
  segments once the cursor is merged;
- insertion draws all segments from the range and the segments before.

Does not own: which points a segment holds.
-/

namespace UsageBilling.Coverage

variable {range : Segment} {segments hit : List Segment} {deviation : Nat}

/-- Whether a segment begins, ends and weighs like a range or like one of some segments.
One that is cut off begins after the range or ends before it. -/
structure DrawnFrom (range : Segment) (segments : List Segment) (s : Segment) : Prop where
  first : s.first = range.first ∨ (∃ t ∈ segments, s.first = t.first) ∨
    (s.first = range.last + 1 ∧ ∃ t ∈ segments, range.last < t.last)
  last : s.last = range.last ∨ (∃ t ∈ segments, s.last = t.last) ∨
    (s.last = range.first - 1 ∧ ∃ t ∈ segments, t.first < range.first)
  weight : s.weight = range.weight ∨ ∃ t ∈ segments, s.weight = t.weight

theorem drawnFrom_of_mem
    {s : Segment}
    (member : s ∈ segments)
    (range : Segment) :
    DrawnFrom range segments s :=
  ⟨Or.inr (Or.inl ⟨s, member, rfl⟩), Or.inr (Or.inl ⟨s, member, rfl⟩), Or.inr ⟨s, member, rfl⟩⟩

/-- Two segments that are joined. -/
theorem DrawnFrom.join
    {s t : Segment}
    (left : DrawnFrom range segments s)
    (right : DrawnFrom range segments t) :
    DrawnFrom range segments { s with last := max s.last t.last } := by
  refine ⟨left.first, ?_, left.weight⟩
  dsimp only
  rcases Int.le_total s.last t.last with shorter | longer
  · rw [Int.max_eq_right shorter]
    exact right.last
  · rw [Int.max_eq_left longer]
    exact left.last

/-! ## Painting -/

theorem drawnFrom_absorb
    (fromSegments : hit ⊆ segments) :
    DrawnFrom range segments (absorb range hit) := by
  refine ⟨?_, ?_, Or.inl rfl⟩
  · unfold absorb
    dsimp only
    split
    · rename_i s isFirst
      have member := fromSegments (List.mem_of_mem_head? isFirst)
      split
      · rcases Int.le_total range.first s.first with before | after
        · exact Or.inl (Int.min_eq_left before)
        · exact Or.inr (Or.inl ⟨s, member, Int.min_eq_right after⟩)
      · exact Or.inl rfl
    · exact Or.inl rfl
  · unfold absorb
    dsimp only
    split
    · rename_i s isLast
      have member := fromSegments (List.mem_of_getLast? isLast)
      split
      · rcases Int.le_total range.last s.last with before | after
        · exact Or.inr (Or.inl ⟨s, member, Int.max_eq_right before⟩)
        · exact Or.inl (Int.max_eq_left after)
      · exact Or.inl rfl
    · exact Or.inl rfl

theorem drawnFrom_of_mem_remainderBefore
    (fromSegments : hit ⊆ segments)
    (s : Segment)
    (member : s ∈ remainderBefore range hit) :
    DrawnFrom range segments s := by
  unfold remainderBefore at member
  split at member
  · rename_i t isFirst
    have inSegments := fromSegments (List.mem_of_mem_head? isFirst)
    split at member
    · rename_i cutOff
      rw [List.mem_singleton.mp member]
      exact ⟨Or.inr (Or.inl ⟨t, inSegments, rfl⟩), Or.inr (Or.inr ⟨rfl, t, inSegments, cutOff.2⟩),
        Or.inr ⟨t, inSegments, rfl⟩⟩
    · cases member
  · cases member

theorem drawnFrom_of_mem_remainderAfter
    (fromSegments : hit ⊆ segments)
    (s : Segment)
    (member : s ∈ remainderAfter range hit) :
    DrawnFrom range segments s := by
  unfold remainderAfter at member
  split at member
  · rename_i t isLast
    have inSegments := fromSegments (List.mem_of_getLast? isLast)
    split at member
    · rename_i cutOff
      rw [List.mem_singleton.mp member]
      exact ⟨Or.inr (Or.inr ⟨rfl, t, inSegments, cutOff.2⟩), Or.inr (Or.inl ⟨t, inSegments, rfl⟩),
        Or.inr ⟨t, inSegments, rfl⟩⟩
    · cases member
  · cases member

theorem drawnFrom_of_mem_paint
    (s : Segment)
    (member : s ∈ (paint range segments).toList) :
    DrawnFrom range segments s := by
  have hitSubset : overlapped range (segments.drop (entirelyBefore range segments).length) ⊆
      segments :=
    fun _ inHit => List.mem_of_mem_drop ((List.takeWhile_sublist _).subset inHit)
  rw [Cursor.toList, paint, List.reverse_reverse, List.mem_append, List.mem_append,
    List.mem_cons, List.mem_append] at member
  rcases member with (inBefore | isRemainder) | isFocus | isRemainder | inAfter
  · exact drawnFrom_of_mem ((List.takeWhile_sublist _).subset inBefore) range
  · exact drawnFrom_of_mem_remainderBefore hitSubset s isRemainder
  · rw [isFocus]
    exact drawnFrom_absorb hitSubset
  · exact drawnFrom_of_mem_remainderAfter hitSubset s isRemainder
  · exact drawnFrom_of_mem (List.mem_of_mem_drop (List.mem_of_mem_drop inAfter)) range

/-! ## Merging -/

namespace Cursor

variable {cursor : Cursor} {holds : Segment → Prop}

theorem forall_mem_joinBefore
    (joins : ∀ s t, holds s → holds t → holds { s with last := max s.last t.last })
    (all : ∀ s ∈ cursor.toList, holds s) :
    ∀ s ∈ (cursor.joinBefore deviation).toList, holds s := by
  unfold joinBefore
  split
  · exact all
  · rename_i near far split
    split
    · simp only [toList, split, List.reverse_cons, List.append_assoc, List.singleton_append,
        List.forall_mem_append, List.forall_mem_cons] at all ⊢
      have ⟨ofFar, ofNear, ofFocus, ofAfter⟩ := all
      exact ⟨ofFar, joins near cursor.focus ofNear ofFocus, ofAfter⟩
    · exact all

theorem forall_mem_joinAfter
    (joins : ∀ s t, holds s → holds t → holds { s with last := max s.last t.last })
    (all : ∀ s ∈ cursor.toList, holds s) :
    ∀ s ∈ (cursor.joinAfter deviation).toList, holds s := by
  unfold joinAfter
  split
  · exact all
  · rename_i near far split
    split
    · simp only [toList, split, List.forall_mem_append, List.forall_mem_cons] at all ⊢
      have ⟨ofBefore, ofFocus, ofNear, ofFar⟩ := all
      exact ⟨ofBefore, joins cursor.focus near ofFocus ofNear, ofFar⟩
    · exact all

theorem forall_mem_mergePasses
    (joins : ∀ s t, holds s → holds t → holds { s with last := max s.last t.last })
    (all : ∀ s ∈ cursor.toList, holds s)
    (passes : Nat) :
    ∀ s ∈ (mergePasses deviation passes cursor).toList, holds s := by
  induction passes generalizing cursor with
  | zero => exact all
  | succ passes inductionHypothesis =>
    have passed : ∀ s ∈ (cursor.mergePass deviation).toList, holds s :=
      forall_mem_joinAfter joins (forall_mem_joinBefore joins all)
    rw [mergePasses]
    split
    · exact inductionHypothesis passed
    · exact passed

end Cursor

/-! ## Insertion -/

theorem drawnFrom_of_mem_insertSegment
    {c : Coverage}
    (s : Segment)
    (member : s ∈ (c.insertSegment range).segments) :
    DrawnFrom range c.segments s :=
  Cursor.forall_mem_mergePasses (fun _ _ => DrawnFrom.join) drawnFrom_of_mem_paint _ s member

end UsageBilling.Coverage

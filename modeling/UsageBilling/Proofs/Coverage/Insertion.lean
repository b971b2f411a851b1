import UsageBilling.Coverage.Text
import UsageBilling.Proofs.Coverage.Merging

/-!
Contract: what an insertion does to the weight of every point.

Owns:
- kept coverage, and the fact that insertion and the reader of texts only make
  such coverage;
- the weights after an insertion: those of a painting whose small gaps are
  closed;
- the same for deviations below two, where there is no gap to close;
- insertion of a range that joins nothing.

Does not own: coverage made by several insertions.
-/

namespace UsageBilling.Coverage

variable {c : Coverage} {range : Segment}

/-- Coverage as insertion leaves it. -/
structure Kept (c : Coverage) : Prop where
  wellKept : WellKept c.deviation c.segments

theorem kept_empty
    (deviation : Nat) :
    (empty deviation).Kept :=
  ⟨wellKept_nil⟩

theorem Kept.ordered
    (kept : c.Kept) :
    Ordered c.segments :=
  kept.wellKept.ordered

@[simp]
theorem deviation_insertSegment : (c.insertSegment range).deviation = c.deviation :=
  rfl

/-- The cursor of an insertion, with what painting put into the coverage. -/
private theorem Kept.exists_cursor
    (kept : c.Kept)
    (inhabited : range.first ≤ range.last) :
    ∃ cursor : Cursor, cursor.Flanked c.deviation ∧
      (c.insertSegment range).segments = (cursor.coalesce c.deviation).toList ∧
      ∀ point next weight, point ≤ next ∧ next ≤ point + 1 →
        (Spans cursor.toList point next weight ↔
          (range.first ≤ point ∧ next ≤ range.last ∧ range.weight = weight) ∨
            (¬ (range.first ≤ point ∧ next ≤ range.last) ∧
              Spans c.segments point next weight ∧
              ((next < range.first ∨ range.last < point) ∨ weight = range.weight))) := by
  obtain ⟨left, hit, right, split, cut, painted⟩ := exists_cut range kept.ordered
  have keptSplit : WellKept c.deviation (left ++ (hit ++ right)) := split ▸ kept.wellKept
  refine ⟨_, cut.flanked keptSplit inhabited, ?_, ?_⟩
  · rw [insertSegment, painted]
  · intro point next weight near
    rw [split, ← cut.spans_iff inhabited near, Cursor.toList, List.reverse_reverse]

theorem Kept.insertSegment
    (kept : c.Kept)
    (inhabited : range.first ≤ range.last) :
    (c.insertSegment range).Kept := by
  obtain ⟨cursor, flanked, inserted, _⟩ := kept.exists_cursor inhabited
  constructor
  rw [inserted]
  exact flanked.wellKept_coalesce

/-- An insertion paints the range and closes the small gaps. -/
theorem Kept.weighs_insertSegment
    (kept : c.Kept)
    (inhabited : range.first ≤ range.last) :
    Weighs (c.insertSegment range).segments =
      Colouring.bridge c.deviation (Colouring.paint range (Weighs c.segments)) := by
  obtain ⟨cursor, flanked, inserted, painted⟩ := kept.exists_cursor inhabited
  have colours : Weighs cursor.toList = Colouring.paint range (Weighs c.segments) := by
    funext point weight
    apply propext
    rw [Weighs, painted point point weight ⟨Int.le_refl _, by omega⟩]
    by_cases within : Within range point
    · rw [Colouring.paint_of_within within]
      have inside : range.first ≤ point ∧ point ≤ range.last := within
      tauto
    · rw [Colouring.paint_of_not_within within]
      have outside : ¬ (range.first ≤ point ∧ point ≤ range.last) := within
      have apart : point < range.first ∨ range.last < point := by omega
      tauto
  funext point weight
  apply propext
  rw [inserted, flanked.weighs_coalesce_iff, colours]
  rfl

theorem Kept.weighs_insertSegment_of_within
    (kept : c.Kept)
    (inhabited : range.first ≤ range.last)
    {point : Int}
    (within : Within range point) :
    Weighs (c.insertSegment range).segments point range.weight := by
  rw [kept.weighs_insertSegment inhabited]
  exact Or.inl ((Colouring.paint_of_within within).mpr rfl)

theorem Kept.weighs_insertSegment_of_not_within
    (kept : c.Kept)
    (inhabited : range.first ≤ range.last)
    {point weight : Int}
    (outside : ¬ Within range point)
    (weighs : Weighs c.segments point weight) :
    Weighs (c.insertSegment range).segments point weight := by
  rw [kept.weighs_insertSegment inhabited]
  exact Or.inl ((Colouring.paint_of_not_within outside).mpr weighs)

/-- Without a deviation, neighbouring points are held by one segment after an
insertion exactly if both lie in the range, or were held by one segment before
that the range absorbs or does not touch. -/
theorem Kept.spans_insertSegment_of_no_deviation
    (kept : c.Kept)
    (none : c.deviation = 0)
    (inhabited : range.first ≤ range.last)
    {point next : Int}
    (near : point ≤ next ∧ next ≤ point + 1)
    (weight : Int) :
    Spans (c.insertSegment range).segments point next weight ↔
      (range.first ≤ point ∧ next ≤ range.last ∧ range.weight = weight) ∨
        (¬ (range.first ≤ point ∧ next ≤ range.last) ∧
          Spans c.segments point next weight ∧
          ((next < range.first ∨ range.last < point) ∨ weight = range.weight)) := by
  obtain ⟨cursor, flanked, inserted, painted⟩ := kept.exists_cursor inhabited
  rw [none] at flanked inserted
  rw [inserted, flanked.coalesce_of_no_deviation]
  exact painted point next weight near

/-- With a deviation below two an insertion paints the range and nothing else. -/
theorem Kept.weighs_insertSegment_of_le_one
    (kept : c.Kept)
    (small : c.deviation ≤ 1)
    (inhabited : range.first ≤ range.last)
    (point weight : Int) :
    Weighs (c.insertSegment range).segments point weight ↔
      if Within range point then range.weight = weight else Weighs c.segments point weight := by
  rw [kept.weighs_insertSegment inhabited, Colouring.bridge_eq_of_le_one small]
  rfl

/-- A range that neither overlaps nor joins anything is put in its place. -/
theorem insertSegment_of_wellKept
    {deviation : Nat}
    {left right : List Segment}
    (wellKept : WellKept deviation (left ++ range :: right)) :
    insertSegment ⟨deviation, left ++ right⟩ range = ⟨deviation, left ++ range :: right⟩ := by
  obtain ⟨_, orderedTail, below⟩ := (ordered_append_iff _ _).mp wellKept.ordered
  obtain ⟨inhabited, above, orderedRight⟩ := (ordered_cons_iff _ _).mp orderedTail
  obtain ⟨_, keptTail, separated⟩ := (wellKept_append_iff _ _).mp wellKept
  obtain ⟨_, separatedRight, _⟩ := (wellKept_cons_iff _ _).mp keptTail
  have before : entirelyBefore range (left ++ right) = left := by
    rw [entirelyBefore, List.takeWhile_append_of_pos]
    · cases right with
      | nil => simp
      | cons s rest =>
        have sAbove := above s (by simp)
        have sInhabited := orderedRight.inhabited s (by simp)
        have later : ¬ s.last < range.first := by omega
        simp [later]
    · intro s member
      exact decide_eq_true (below s member range (by simp))
  have nothingHit : overlapped range right = [] := by
    cases right with
    | nil => rfl
    | cons s rest =>
      have sAbove := above s (by simp)
      have beyond : ¬ s.first ≤ range.last := by omega
      simp [overlapped, beyond]
  have painted : paint range (left ++ right) = ⟨left.reverse, range, right⟩ := by
    simp [paint, before, nothingHit, absorb, remainderBefore, remainderAfter]
  rw [insertSegment]
  simp only [painted]
  rw [Cursor.coalesce_of_settled]
  · simp [Cursor.toList]
  · intro s nearest
    exact separated s (by simpa using nearest) range (by simp)
  · intro s nearest
    exact separatedRight s nearest

theorem insert_eq_ok
    (inhabited : range.first ≤ range.last) :
    c.insert range.first range.last range.weight = .ok (c.insertSegment range) := by
  rw [insert, if_neg (by omega)]

/-! ## Coverage read from a text -/

theorem inhabited_of_inOrder
    {segments : List Segment}
    {previousEnd : Option Int}
    (ordered : inOrder previousEnd segments = true) :
    ∀ s ∈ segments, s.first ≤ s.last := by
  induction segments generalizing previousEnd with
  | nil => simp
  | cons s rest inductionHypothesis =>
    simp only [inOrder, Bool.and_eq_true, decide_eq_true_eq] at ordered
    intro t member
    rcases List.mem_cons.mp member with rfl | inRest
    · exact ordered.1.1
    · exact inductionHypothesis ordered.2 t inRest

theorem Kept.foldl_insertSegment
    (segments : List Segment)
    (inhabited : ∀ s ∈ segments, s.first ≤ s.last)
    (kept : c.Kept) :
    (segments.foldl Coverage.insertSegment c).Kept ∧
      (segments.foldl Coverage.insertSegment c).deviation = c.deviation := by
  induction segments generalizing c with
  | nil => exact ⟨kept, rfl⟩
  | cons s rest inductionHypothesis =>
    simp only [List.mem_cons, forall_eq_or_imp] at inhabited
    exact inductionHypothesis inhabited.2 (kept.insertSegment inhabited.1)

/-- Whatever a text holds, the coverage read from it is kept. -/
theorem kept_ofText
    (text : String)
    (deviation : Nat) :
    (ofText text deviation).Kept ∧ (ofText text deviation).deviation = deviation := by
  have emptyKept : (empty deviation).Kept ∧ (empty deviation).deviation = deviation :=
    ⟨kept_empty deviation, rfl⟩
  rw [ofText]
  cases read : ofText? text deviation with
  | none => exact emptyKept
  | some c =>
    rw [Option.getD_some]
    unfold ofText? at read
    split at read
    · exact Option.some.inj read ▸ emptyKept
    · obtain ⟨segments, _, checked⟩ := Option.bind_eq_some_iff.mp read
      split at checked
      · rename_i ordered
        rw [← Option.some.inj checked]
        exact emptyKept.1.foldl_insertSegment segments (inhabited_of_inOrder ordered)
      · simp at checked

end UsageBilling.Coverage

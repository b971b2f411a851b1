import UsageBilling.Proofs.Coverage.Commutation

/-!
Contract: a sequence of insertions made twice.

Owns:
- insertions that treat all kept coverage alike: what is seen after them is made by
  them, or is kept by them if it was there before;
- with a deviation below two all insertions do so, one or many;
- a sequence of insertions made again changes nothing, down to the segments.

In between, coverage is damaged: an early range of the sequence paints over what a
late one has left, and the late one paints it back.

Does not own: larger deviations, where an insertion may close a gap that a later
one of the sequence opened.
-/

namespace UsageBilling.Coverage

variable {c : Coverage} {range : Segment} {ranges : List Segment} {deviation : Nat}
  {seen : Coverage → Prop}

/-- Whether insertions make something seen of coverage, keep it or take it away,
the same for all kept coverage of a deviation. -/
def Uniform (deviation : Nat) (seen : Coverage → Prop) (ranges : List Segment) : Prop :=
  ∃ made kept : Prop, ∀ c, c.Kept → c.deviation = deviation →
    (seen (ranges.foldl insertSegment c) ↔ made ∨ (kept ∧ seen c))

theorem uniform_cons
    (inhabited : range.first ≤ range.last)
    (head : Uniform deviation seen [range])
    (tail : Uniform deviation seen ranges) :
    Uniform deviation seen (range :: ranges) := by
  have ⟨made, keeps, effect⟩ := head
  have ⟨tailMade, tailKeeps, tailEffect⟩ := tail
  refine ⟨tailMade ∨ (tailKeeps ∧ made), tailKeeps ∧ keeps, ?_⟩
  intro c kept ofDeviation
  have first : seen (c.insertSegment range) ↔ made ∨ (keeps ∧ seen c) := effect c kept ofDeviation
  have later := tailEffect (c.insertSegment range) (kept.insertSegment inhabited) ofDeviation
  rw [List.foldl_cons, later, first]
  tauto

theorem uniform_of_each
    (inhabited : ∀ range ∈ ranges, range.first ≤ range.last)
    (each : ∀ range ∈ ranges, Uniform deviation seen [range]) :
    Uniform deviation seen ranges := by
  induction ranges with
  | nil => exact ⟨False, True, by simp⟩
  | cons range rest inductionHypothesis =>
    simp only [List.mem_cons, forall_eq_or_imp] at inhabited each
    exact uniform_cons inhabited.1 each.1 (inductionHypothesis inhabited.2 each.2)

/-- Such insertions do no more when they are made again. -/
theorem Uniform.again
    (uniform : Uniform deviation seen ranges)
    (kept : c.Kept)
    (ofDeviation : c.deviation = deviation)
    (inhabited : ∀ range ∈ ranges, range.first ≤ range.last) :
    seen (ranges.foldl insertSegment (ranges.foldl insertSegment c)) ↔
      seen (ranges.foldl insertSegment c) := by
  have ⟨onceKept, onceDeviation⟩ := kept.foldl_insertSegment ranges inhabited
  have ⟨made, keeps, effect⟩ := uniform
  have first := effect c kept ofDeviation
  have second := effect _ onceKept (onceDeviation.trans ofDeviation)
  tauto

/-! ## Insertions with a small deviation -/

theorem uniform_spans
    (inhabited : range.first ≤ range.last)
    {point next : Int}
    (near : point ≤ next ∧ next ≤ point + 1)
    (weight : Int) :
    Uniform 0 (fun c => Spans c.segments point next weight) [range] := by
  refine ⟨range.first ≤ point ∧ next ≤ range.last ∧ range.weight = weight,
    ¬ (range.first ≤ point ∧ next ≤ range.last) ∧
      ((next < range.first ∨ range.last < point) ∨ weight = range.weight), ?_⟩
  intro c kept ofDeviation
  apply (kept.spans_insertSegment_of_no_deviation ofDeviation inhabited near weight).trans
  apply or_congr_right
  rw [and_assoc, and_comm (a := Spans _ _ _ _)]

theorem uniform_weighs
    (small : deviation ≤ 1)
    (inhabited : range.first ≤ range.last)
    (point weight : Int) :
    Uniform deviation (fun c => Weighs c.segments point weight) [range] := by
  refine ⟨Within range point ∧ range.weight = weight, ¬ Within range point, ?_⟩
  intro c kept ofDeviation
  show Weighs (c.insertSegment range).segments point weight ↔ _
  rw [kept.weighs_insertSegment_of_le_one (ofDeviation ▸ small) inhabited]
  split
  · tauto
  · tauto

/-- With a deviation below two a sequence of insertions made again changes
nothing. -/
theorem Kept.foldl_insertSegment_again
    (kept : c.Kept)
    (small : c.deviation ≤ 1)
    (inhabited : ∀ range ∈ ranges, range.first ≤ range.last) :
    ranges.foldl Coverage.insertSegment (ranges.foldl Coverage.insertSegment c) =
      ranges.foldl Coverage.insertSegment c := by
  have ⟨onceKept, onceDeviation⟩ := kept.foldl_insertSegment ranges inhabited
  have ⟨twiceKept, twiceDeviation⟩ := onceKept.foldl_insertSegment ranges inhabited
  apply ext_of_segments twiceDeviation
  apply SameSpans.eq _ twiceKept.ordered onceKept.ordered
  by_cases none : c.deviation = 0
  · -- Touching segments of one weight stay apart, so that pairs of points tell them apart.
    intro point next weight lower upper
    have uniform := uniform_of_each inhabited fun range member =>
      uniform_spans (inhabited range member) ⟨lower, upper⟩ weight
    exact uniform.again kept none inhabited
  · apply twiceKept.sameSpans_of_weighs onceKept
    · rw [twiceDeviation, onceDeviation]
      exact none
    · rw [onceDeviation]
      exact none
    · intro point weight
      have uniform := uniform_of_each inhabited fun range member =>
        uniform_weighs small (inhabited range member) point weight
      exact uniform.again kept rfl inhabited

end UsageBilling.Coverage

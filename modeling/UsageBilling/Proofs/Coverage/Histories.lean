import UsageBilling.Proofs.Coverage.Calls
import UsageBilling.Proofs.Coverage.Replay

/-!
Contract: coverage and the history of calls that led to it.

Owns:
- calls as insertions of the ranges that are not inverted;
- a history made again changes nothing, exactly for deviations below two;
- coverage that is known by the weights of points, and its text with it, exactly for
  deviations from one on.

With no deviation, segments of one weight may touch, so two histories that give every point
the same weight may leave different segments. From a deviation of two on, a history made
again may close a gap that was open when it was made first. A deviation of one has both
properties.

Does not own: which points a history gives weights to.
-/

namespace UsageBilling.Coverage

variable {c c' : Coverage} {deviation : Nat}

/-! ## Calls as insertions -/

/-- The ranges that calls insert: those that are not inverted. -/
def accepted (calls : List Call) : List Segment :=
  (calls.map Call.range).filter fun range => range.first ≤ range.last

theorem inhabited_of_mem_accepted
    (calls : List Call) :
    ∀ range ∈ accepted calls, range.first ≤ range.last := by
  intro range member
  exact of_decide_eq_true (List.mem_filter.mp member).2

theorem foldl_perform_eq
    (calls : List Call) :
    calls.foldl (fun c call => (c.perform call).2) c =
      (accepted calls).foldl insertSegment c := by
  induction calls generalizing c with
  | nil => rfl
  | cons call rest inductionHypothesis =>
    rw [List.foldl_cons, inductionHypothesis]
    rcases Int.lt_or_le call.range.last call.range.first with inverted | inhabited
    · rw [perform_of_inverted call inverted]
      have refused : accepted (call :: rest) = accepted rest :=
        List.filter_cons_of_neg (by simpa using inverted)
      rw [refused]
    · rw [perform_of_inhabited call inhabited]
      have inserted : accepted (call :: rest) = call.range :: accepted rest :=
        List.filter_cons_of_pos (by simpa using inhabited)
      rw [inserted, List.foldl_cons]

theorem reached_append
    (deviation : Nat)
    (origin : Origin)
    (history calls : List Call) :
    reached deviation origin (history ++ calls) =
      (accepted calls).foldl insertSegment (reached deviation origin history) := by
  rw [← foldl_perform_eq, reached, List.foldl_append]
  rfl

/-! ## Histories made again -/

/-- A point between two others that is given up, and the last of them again. -/
def gapLeft : List Call :=
  [.addRange 0 0 1, .addRange 0 0 2, .addRange 2 2 1]

theorem reached_gapLeft
    (wide : 2 ≤ deviation) :
    reached deviation .fresh gapLeft = ⟨deviation, [⟨0, 0, 2⟩, ⟨2, 2, 1⟩]⟩ ∧
      reached deviation .fresh (gapLeft ++ gapLeft) =
        ⟨deviation, [⟨0, 0, 2⟩, ⟨1, 2, 1⟩]⟩ := by
  have wideInt : (2 : Int) ≤ deviation := by omega
  constructor <;>
    simp [gapLeft, reached, Origin.coverage, empty, perform, settled, insert, Call.range,
      insertSegment, paint, entirelyBefore, overlapped, absorb, remainderBefore, remainderAfter,
      Cursor.coalesce, Cursor.mergePasses, Cursor.mergePass, Cursor.joinBefore, Cursor.joinAfter,
      Cursor.neighbours, Cursor.toList, Segment.joins, Segment.gapTo, wideInt]

/-- Calls that are made again after whatever history change nothing exactly if the deviation
is below two. -/
theorem reached_again_iff
    (deviation : Nat) :
    (∀ (origin : Origin) (history calls : List Call),
        reached deviation origin (history ++ calls ++ calls) =
          reached deviation origin (history ++ calls)) ↔
      deviation ≤ 1 := by
  constructor
  · intro unchanged
    apply Nat.le_of_not_lt
    intro wide
    have ⟨once, twice⟩ := reached_gapLeft wide
    have again := unchanged .fresh [] gapLeft
    rw [List.nil_append, once, twice] at again
    simp at again
  · intro small origin history calls
    have ⟨kept, ofDeviation⟩ := kept_reached deviation origin history
    rw [reached_append, reached_append]
    apply kept.foldl_insertSegment_again _ (inhabited_of_mem_accepted calls)
    rw [ofDeviation]
    exact small

/-! ## Histories known by the weights they leave -/

/-- Where touching segments of one weight are joined, coverage is known by the weights of
points. -/
theorem Kept.eq_of_weightAt?_eq
    (kept : c.Kept)
    (kept' : c'.Kept)
    (sameDeviation : c.deviation = c'.deviation)
    (joins : c.deviation ≠ 0)
    (sameWeights : ∀ point, c.weightAt? point = c'.weightAt? point) :
    c = c' := by
  apply ext_of_segments sameDeviation
  apply SameSpans.eq _ kept.ordered kept'.ordered
  apply kept.sameSpans_of_weighs kept' joins (sameDeviation ▸ joins)
  intro point weight
  rw [← weightAt?_eq_some_iff kept.ordered, ← weightAt?_eq_some_iff kept'.ordered, sameWeights]

/-- Two ranges that touch give weights to the same points as one range over both. -/
theorem weightAt?_touching
    (point : Int) :
    (reached 0 .fresh [.addRange 0 9 1]).weightAt? point =
      (reached 0 .fresh [.addRange 0 4 1, .addRange 5 9 1]).weightAt? point := by
  have ordered := fun calls => (kept_reached 0 .fresh calls).1.ordered
  apply Option.ext
  intro weight
  rw [weightAt?_eq_some_iff (ordered _), weightAt?_eq_some_iff (ordered _),
    show (reached 0 .fresh [.addRange 0 9 1]).segments = [⟨0, 9, 1⟩] by decide,
    show (reached 0 .fresh [.addRange 0 4 1, .addRange 5 9 1]).segments =
      [⟨0, 4, 1⟩, ⟨5, 9, 1⟩] by decide]
  simp only [spans_cons, spans_nil, or_false]
  omega

/-- Histories leave the same coverage, and the same text, exactly if they give every point
the same weight or none; and this is so exactly if the deviation is not zero. -/
theorem reached_eq_iff_sameWeights_iff
    (deviation : Nat) :
    (∀ (origin origin' : Origin) (calls calls' : List Call),
        (reached deviation origin calls = reached deviation origin' calls' ↔
          ∀ point, (reached deviation origin calls).weightAt? point =
            (reached deviation origin' calls').weightAt? point) ∧
        ((reached deviation origin calls).toText = (reached deviation origin' calls').toText ↔
          ∀ point, (reached deviation origin calls).weightAt? point =
            (reached deviation origin' calls').weightAt? point)) ↔
      1 ≤ deviation := by
  constructor
  · intro known
    apply Nat.one_le_iff_ne_zero.mpr
    intro none
    have ⟨ofWeights, _⟩ := known .fresh .fresh [.addRange 0 9 1] [.addRange 0 4 1, .addRange 5 9 1]
    rw [none] at ofWeights
    exact absurd (ofWeights.mpr weightAt?_touching) (by decide)
  · intro touching origin origin' calls calls'
    have ⟨kept, ofDeviation⟩ := kept_reached deviation origin calls
    have ⟨kept', ofDeviation'⟩ := kept_reached deviation origin' calls'
    have sameDeviation := ofDeviation.trans ofDeviation'.symm
    have known := kept.eq_of_weightAt?_eq kept' sameDeviation (by omega)
    refine ⟨⟨fun same point => by rw [same], known⟩, ⟨fun sameText => ?_, fun sameWeights => ?_⟩⟩
    · intro point
      rw [ext_of_segments sameDeviation (segments_eq_of_toText_eq sameText)]
    · rw [known sameWeights]

end UsageBilling.Coverage

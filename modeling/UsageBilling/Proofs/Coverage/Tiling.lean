import UsageBilling.Proofs.Coverage.Clipping
import UsageBilling.Proofs.Coverage.Ends
import UsageBilling.Proofs.Coverage.Insertion

/-!
Contract: coverage made of whole tiles.

Owns:
- tiles: stretches of one width that are laid side by side from an origin;
- insertion of whole tiles leaves segments of whole tiles;
- a gap between such segments is a tile at least, so it stays open as long as the
  deviation is not greater than the width;
- what a sequence of insertions leaves of a tile: one segment with the weight of the
  last range that holds it, or nothing.

Segments of equal weight merge across tiles, and come apart again where a tile is read.

Does not own: what a tile stands for.
-/

namespace UsageBilling.Coverage

variable {origin width : Int} {c : Coverage} {range : Segment} {segments ranges : List Segment}
  {deviation : Nat}

/-- The number of the tile that a point lies in. -/
def tileOf (origin width point : Int) : Int :=
  (point - origin) / width

/-- Whether a segment is made of whole tiles. -/
structure Tiled (origin width : Int) (s : Segment) : Prop where
  first : width ∣ s.first - origin
  last : width ∣ s.last + 1 - origin

/-! ## Segments of whole tiles -/

/-- A segment of whole tiles holds a point exactly if it holds its tile. -/
theorem Tiled.within_congr
    {s : Segment}
    (tiled : Tiled origin width s)
    (positive : 0 < width)
    {point other : Int}
    (sameTile : tileOf origin width point = tileOf origin width other) :
    Within s point ↔ Within s other := by
  have ⟨begins, first⟩ := tiled.first
  have ⟨ends, last⟩ := tiled.last
  have ofTile : ∀ p, Within s p ↔
      begins ≤ tileOf origin width p ∧ tileOf origin width p < ends := by
    intro p
    rw [tileOf, Int.le_ediv_iff_mul_le positive, Int.ediv_lt_iff_lt_mul positive, Within,
      Int.mul_comm begins, Int.mul_comm ends, ← first, ← last]
    omega
  rw [ofTile, ofTile, sameTile]

/-- Insertion of whole tiles leaves whole tiles. -/
theorem tiled_insertSegment
    (rangeTiled : Tiled origin width range)
    (tiled : ∀ s ∈ c.segments, Tiled origin width s) :
    ∀ s ∈ (c.insertSegment range).segments, Tiled origin width s := by
  intro s member
  have ⟨first, last, _⟩ := drawnFrom_of_mem_insertSegment s member
  constructor
  · rcases first with ofRange | ⟨t, inSegments, same⟩ | ⟨afterRange, _⟩
    · rw [ofRange]
      exact rangeTiled.first
    · rw [same]
      exact (tiled t inSegments).first
    · rw [afterRange]
      exact rangeTiled.last
  · rcases last with ofRange | ⟨t, inSegments, same⟩ | ⟨beforeRange, _⟩
    · rw [ofRange]
      exact rangeTiled.last
    · rw [same]
      exact (tiled t inSegments).last
    · rw [beforeRange, Int.sub_add_cancel]
      exact rangeTiled.first

/-! ## Colourings by tiles -/

namespace Colouring

variable {colour : Colouring}

/-- Whether all points of a tile have the same weight. -/
def ByTiles (origin width : Int) (colour : Colouring) : Prop :=
  ∀ point other weight, tileOf origin width point = tileOf origin width other →
    colour point weight → colour other weight

theorem byTiles_weighs
    (positive : 0 < width)
    (tiled : ∀ s ∈ segments, Tiled origin width s) :
    ByTiles origin width (Weighs segments) := by
  intro point other weight sameTile ⟨s, member, lower, upper, ofWeight⟩
  have ⟨lower', upper'⟩ := ((tiled s member).within_congr positive sameTile).mp ⟨lower, upper⟩
  exact ⟨s, member, lower', upper', ofWeight⟩

theorem ByTiles.paint
    (byTiles : ByTiles origin width colour)
    (positive : 0 < width)
    (rangeTiled : Tiled origin width range) :
    ByTiles origin width (colour.paint range) := by
  intro point other weight sameTile painted
  have sameSide := rangeTiled.within_congr positive sameTile
  by_cases within : Within range point
  · exact (paint_of_within (sameSide.mp within)).mpr ((paint_of_within within).mp painted)
  · refine (paint_of_not_within fun inside => within (sameSide.mpr inside)).mpr ?_
    exact byTiles point other weight sameTile ((paint_of_not_within within).mp painted)

/-- Where neighbours lie in different tiles, a tile begins. -/
theorem dvd_of_tileOf_ne
    (positive : 0 < width)
    {point : Int}
    (differ : tileOf origin width point ≠ tileOf origin width (point + 1)) :
    width ∣ point + 1 - origin := by
  have within := Int.emod_nonneg (point - origin) (Int.ne_of_gt positive)
  have below := Int.emod_lt_of_pos (point - origin) positive
  have whole := Int.mul_ediv_add_emod (point - origin) width
  by_cases atEnd : (point - origin) % width = width - 1
  · refine ⟨tileOf origin width point + 1, ?_⟩
    rw [Int.mul_add, tileOf]
    omega
  · exfalso
    apply differ
    symm
    rw [tileOf, tileOf]
    apply (Int.ediv_eq_iff_of_pos positive).mpr
    rw [Int.mul_comm]
    omega

/-- An uncovered stretch between tiles is a tile at least. -/
theorem ByTiles.not_bridged
    (byTiles : ByTiles origin width colour)
    (positive : 0 < width)
    (narrow : deviation ≤ width)
    (point weight : Int) :
    ¬ Bridged deviation colour point weight := by
  intro ⟨before, after, lower, upper, gap⟩
  -- Covered and uncovered neighbours lie in different tiles, so the gap is made of whole ones.
  have begins : width ∣ before + 1 - origin := by
    apply dvd_of_tileOf_ne positive
    intro sameTile
    exact gap.uncovered (before + 1) (by omega) (by omega) weight
      (byTiles _ _ weight sameTile gap.weighsBefore)
  have ends : width ∣ after - 1 + 1 - origin := by
    apply dvd_of_tileOf_ne positive
    intro sameTile
    rw [Int.sub_add_cancel] at sameTile
    exact gap.uncovered (after - 1) (by omega) (by omega) weight
      (byTiles _ _ weight sameTile.symm gap.weighsAfter)
  have stretch := Int.le_of_dvd (by omega) (Int.dvd_sub ends begins)
  have gapNarrow := gap.narrow
  omega

end Colouring

/-! ## Insertion of whole tiles -/

/-- Coverage of whole tiles of which no gap is bridged. -/
structure KeptTiled (origin width : Int) (c : Coverage) : Prop where
  kept : c.Kept
  tiled : ∀ s ∈ c.segments, Tiled origin width s
  narrow : c.deviation ≤ width

theorem keptTiled_empty
    (narrow : deviation ≤ width)
    (origin : Int) :
    KeptTiled origin width (empty deviation) := by
  refine ⟨kept_empty deviation, ?_, narrow⟩
  intro s member
  cases member

theorem KeptTiled.insertSegment
    (keptTiled : KeptTiled origin width c)
    (inhabited : range.first ≤ range.last)
    (rangeTiled : Tiled origin width range) :
    KeptTiled origin width (c.insertSegment range) :=
  ⟨keptTiled.kept.insertSegment inhabited, tiled_insertSegment rangeTiled keptTiled.tiled,
    keptTiled.narrow⟩

/-- Then an insertion paints the range and nothing else. -/
theorem KeptTiled.weighs_insertSegment
    (keptTiled : KeptTiled origin width c)
    (positive : 0 < width)
    (inhabited : range.first ≤ range.last)
    (rangeTiled : Tiled origin width range) :
    Weighs (c.insertSegment range).segments = Colouring.paint range (Weighs c.segments) := by
  have byTiles := (Colouring.byTiles_weighs positive keptTiled.tiled).paint positive rangeTiled
  rw [keptTiled.kept.weighs_insertSegment inhabited]
  funext point weight
  exact propext (or_iff_left (byTiles.not_bridged positive keptTiled.narrow point weight))

/-- The last range that holds a point. -/
def lastHolding? (ranges : List Segment) (point : Int) : Option Segment :=
  (ranges.filter fun s => Within s point).getLast?

theorem lastHolding?_cons
    (s : Segment)
    (rest : List Segment)
    (point : Int) :
    lastHolding? (s :: rest) point =
      (lastHolding? rest point).or (if Within s point then some s else none) := by
  unfold lastHolding?
  rw [List.filter_cons]
  by_cases within : Within s point
  · rw [if_pos (decide_eq_true within), if_pos within, List.getLast?_cons, Option.or_some]
  · rw [if_neg (by simpa using within), if_neg within, Option.or_none]

/-- A sequence of insertions gives a point the weight of the last range that holds it. -/
theorem KeptTiled.foldl_insertSegment
    (keptTiled : KeptTiled origin width c)
    (positive : 0 < width)
    (inhabited : ∀ s ∈ ranges, s.first ≤ s.last)
    (rangesTiled : ∀ s ∈ ranges, Tiled origin width s) :
    KeptTiled origin width (ranges.foldl Coverage.insertSegment c) ∧
      ∀ point weight, Weighs (ranges.foldl Coverage.insertSegment c).segments point weight ↔
        match lastHolding? ranges point with
        | some s => s.weight = weight
        | none => Weighs c.segments point weight := by
  induction ranges generalizing c with
  | nil => exact ⟨keptTiled, fun _ _ => Iff.rfl⟩
  | cons s rest inductionHypothesis =>
    simp only [List.forall_mem_cons] at inhabited rangesTiled
    have ⟨restKept, restWeighs⟩ := inductionHypothesis
      (keptTiled.insertSegment inhabited.1 rangesTiled.1) inhabited.2 rangesTiled.2
    refine ⟨restKept, ?_⟩
    intro point weight
    have painted := keptTiled.weighs_insertSegment positive inhabited.1 rangesTiled.1
    rw [List.foldl_cons, restWeighs, painted, lastHolding?_cons]
    cases lastHolding? rest point with
    | some later => rfl
    | none =>
      rw [Option.none_or]
      by_cases within : Within s point
      · rw [if_pos within]
        exact Colouring.paint_of_within within
      · rw [if_neg within]
        exact Colouring.paint_of_not_within within

/-! ## Reading a tile -/

/-- Of two points where tiles begin, one that is less than a tile after the other is
not after it. -/
theorem le_of_dvd_of_lt
    {first second : Int}
    (firstBegins : width ∣ first - origin)
    (secondBegins : width ∣ second - origin)
    (near : first < second + width) :
    first ≤ second := by
  have apart := Int.dvd_sub firstBegins secondBegins
  apply Int.not_lt.mp
  intro after
  have := Int.le_of_dvd (by omega) apart
  omega

/-- Segments of whole tiles do not cut a tile. -/
theorem uncut_of_tiled
    (tiled : ∀ s ∈ segments, Tiled origin width s)
    {start : Int}
    (begins : width ∣ start - origin) :
    Uncut segments start (start + width - 1) := by
  have ends : width ∣ start + width - origin := by
    have sum := Int.dvd_add begins (Int.dvd_refl width)
    rwa [show start - origin + width = start + width - origin by omega] at sum
  intro s member enters leaves
  have first : s.first ≤ start := le_of_dvd_of_lt (tiled s member).first begins (by omega)
  have last : start + width ≤ s.last + 1 := le_of_dvd_of_lt ends (tiled s member).last (by omega)
  exact ⟨first, by omega⟩

/-- A tile is shown as one segment with the weight of the last range that holds it, or
not at all. -/
theorem inRange_foldl_insertSegment
    (narrow : deviation ≤ width)
    (positive : 0 < width)
    (inhabited : ∀ s ∈ ranges, s.first ≤ s.last)
    (rangesTiled : ∀ s ∈ ranges, Tiled origin width s)
    {start : Int}
    (begins : width ∣ start - origin) :
    (ranges.foldl Coverage.insertSegment (empty deviation)).inRange start (start + width - 1) =
      ((lastHolding? ranges start).map fun s =>
        ⟨start, start + width - 1, s.weight⟩).toList := by
  have ⟨keptTiled, weighs⟩ := (keptTiled_empty narrow origin).foldl_insertSegment positive
    inhabited rangesTiled
  have uncut := uncut_of_tiled keptTiled.tiled begins
  have filled : start ≤ start + width - 1 := by omega
  have ofStart := weighs start
  cases last : lastHolding? ranges start with
  | some s =>
    rw [last] at ofStart
    exact uncut.inRange_eq_singleton keptTiled.kept.ordered filled ((ofStart s.weight).mpr rfl)
  | none =>
    rw [last] at ofStart
    apply uncut.inRange_eq_nil keptTiled.kept.ordered filled
    intro weight covered
    exact spans_nil start start weight ((ofStart weight).mp covered)

end UsageBilling.Coverage

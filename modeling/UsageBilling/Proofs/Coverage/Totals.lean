import UsageBilling.Proofs.Coverage.Calls
import UsageBilling.Proofs.Coverage.Clipping

/-!
Contract: totals within 128 bits.

Owns:
- lengths and weights added up from the left, with every difference, product and partial
  sum checked against 128 bits;
- numbers that segments without overlaps give for their points: as long as no point gives
  more than 64 bits hold, no partial sum of them overflows;
- the totals of coverage that calls of 64 bits lead to, and of queries of it.

Segments of 64 bits without overlaps hold `2 ^ 64` points at most, and a weight is `-2 ^ 63`
at least, which makes the least possible total the least number of 128 bits.

Does not own: totals of segments that overlap.
-/

namespace UsageBilling

open Text

def int128Min : Int := -170141183460469231731687303715884105728

def int128Max : Int := 170141183460469231731687303715884105727

/-- How many numbers 64 bits hold: `2 ^ 64`. -/
def int64Count : Int := 18446744073709551616

/-- A computed number, unless 128 bits do not hold it. -/
def checkedInt128? (n : Int) : Option Int :=
  if int128Min ≤ n ∧ n ≤ int128Max then some n else none

/-- The number of points of a segment, unless a number overflows on the way. -/
def Segment.lengthChecked? (s : Segment) : Option Int := do
  let apart ← checkedInt128? (s.last - s.first)
  checkedInt128? (apart + 1)

/-- The weight of a segment for all of its points, unless a number overflows on the way. -/
def Segment.weightChecked? (s : Segment) : Option Int := do
  let length ← s.lengthChecked?
  checkedInt128? (length * s.weight)

namespace Coverage

variable {c : Coverage} {segments : List Segment} {low high : Int}

/-- The sum of a number that each segment gives, from the left, unless a partial sum
overflows. -/
def sumChecked? (number? : Segment → Option Int) (segments : List Segment) : Option Int :=
  segments.foldlM
    (fun total s => do
      let number ← number? s
      checkedInt128? (total + number)) 0

/-- No difference, product or partial sum overflows on the way to a total. -/
structure TotalsFit (segments : List Segment) : Prop where
  length : sumChecked? Segment.lengthChecked? segments = some (totalLength segments)
  weight : sumChecked? Segment.weightChecked? segments = some (totalWeight segments)

/-! ## One segment -/

theorem checkedInt128?_eq_some
    {n : Int}
    (lower : int128Min ≤ n)
    (upper : n ≤ int128Max) :
    checkedInt128? n = some n :=
  if_pos ⟨lower, upper⟩

theorem lengthChecked?_of_fits
    {s : Segment}
    (fits : Fits s) :
    s.lengthChecked? = some s.length := by
  have first := (fitsInt64_iff _).mp fits.first
  have last := (fitsInt64_iff _).mp fits.last
  simp only [int64Min, int64Max] at first last
  rw [Segment.lengthChecked?, checkedInt128?_eq_some (by rw [int128Min]; omega)
    (by rw [int128Max]; omega)]
  exact checkedInt128?_eq_some (by rw [int128Min]; omega) (by rw [int128Max]; omega)

/-- What a segment has of a number that lies between two bounds at each of its points. -/
structure PerPoint (low high : Int) (s : Segment) (number : Int) : Prop where
  lower : s.length * low ≤ number
  upper : number ≤ s.length * high

/-- Bounds for each point that the points of 64 bits do not take beyond 128 bits. -/
structure Bearable (low high : Int) : Prop where
  low_nonpos : low ≤ 0
  high_nonneg : 0 ≤ high
  lower : int128Min ≤ int64Count * low
  upper : int64Count * high ≤ int128Max

/-- A total of so many points fits, if each point bears a bearable number. -/
theorem Bearable.checkedInt128?_eq
    (bearable : Bearable low high)
    {count total : Int}
    (few : count ≤ int64Count)
    (lower : count * low ≤ total)
    (upper : total ≤ count * high) :
    checkedInt128? total = some total := by
  have least : int64Count * low ≤ count * low :=
    Int.mul_le_mul_of_nonpos_right few bearable.low_nonpos
  have most : count * high ≤ int64Count * high :=
    Int.mul_le_mul_of_nonneg_right few bearable.high_nonneg
  exact checkedInt128?_eq_some
    (Int.le_trans bearable.lower (Int.le_trans least lower))
    (Int.le_trans upper (Int.le_trans most bearable.upper))

theorem bearable_length : Bearable 0 1 :=
  ⟨by decide, by decide, by decide, by decide⟩

theorem bearable_weight : Bearable int64Min int64Max :=
  ⟨by decide, by decide, by decide, by decide⟩

theorem perPoint_length
    {s : Segment}
    (inhabited : s.first ≤ s.last) :
    PerPoint 0 1 s s.length := by
  constructor
  · rw [Int.mul_zero, Segment.length]
    omega
  · rw [Int.mul_one]

theorem perPoint_weight
    {s : Segment}
    (inhabited : s.first ≤ s.last)
    (fits : Fits s) :
    PerPoint int64Min int64Max s (s.length * s.weight) := by
  have ⟨least, most⟩ := (fitsInt64_iff _).mp fits.weight
  have nonneg : 0 ≤ s.length := by
    rw [Segment.length]
    omega
  exact ⟨Int.mul_le_mul_of_nonneg_left least nonneg, Int.mul_le_mul_of_nonneg_left most nonneg⟩

/-! ## Sums -/

/-- The points of the segments that a partial sum has gone through lie below the segments to
come, so there are at most `int64Count` of them with the points of the next one. -/
theorem foldlM_eq_some
    (bearable : Bearable low high)
    {number? : Segment → Option Int}
    {number : Segment → Int}
    (ordered : Ordered segments)
    (fits : AllFit segments)
    (given : ∀ s ∈ segments, number? s = some (number s))
    (perPoint : ∀ s ∈ segments, PerPoint low high s (number s))
    (count total : Int)
    (below : ∀ s ∈ segments, int64Min + count ≤ s.first)
    (lower : count * low ≤ total)
    (upper : total ≤ count * high) :
    segments.foldlM
        (fun total s => do
          let number ← number? s
          checkedInt128? (total + number)) total =
      some (total + segments.foldr (fun s sum => number s + sum) 0) := by
  induction segments generalizing count total with
  | nil =>
    rw [List.foldlM_nil, List.foldr_nil, Int.add_zero]
    rfl
  | cons s rest inductionHypothesis =>
    have ⟨inhabited, apart, restOrdered⟩ := (ordered_cons_iff s rest).mp ordered
    have ⟨atLeast, atMost⟩ := perPoint s List.mem_cons_self
    have last := ((fitsInt64_iff _).mp (fits s List.mem_cons_self).last).2
    have begins := below s List.mem_cons_self
    have moreLower : (count + s.length) * low ≤ total + number s := by
      rw [Int.add_mul]
      exact Int.add_le_add lower atLeast
    have moreUpper : total + number s ≤ (count + s.length) * high := by
      rw [Int.add_mul]
      exact Int.add_le_add upper atMost
    have few : count + s.length ≤ int64Count := by
      simp only [Segment.length, int64Min, int64Max, int64Count] at last begins ⊢
      omega
    have added := bearable.checkedInt128?_eq few moreLower moreUpper
    rw [List.foldlM_cons, given s List.mem_cons_self, List.foldr_cons, ← Int.add_assoc]
    dsimp only [bind, Option.bind]
    rw [added]
    apply inductionHypothesis restOrdered (fun t member => fits t (List.mem_cons_of_mem s member))
      (fun t member => given t (List.mem_cons_of_mem s member))
      (fun t member => perPoint t (List.mem_cons_of_mem s member)) _ _ _ moreLower moreUpper
    intro t member
    have beyond := apart t member
    simp only [Segment.length]
    omega

theorem Ordered.sumChecked?_eq
    (ordered : Ordered segments)
    (fits : AllFit segments)
    (bearable : Bearable low high)
    {number? : Segment → Option Int}
    {number : Segment → Int}
    (given : ∀ s ∈ segments, number? s = some (number s))
    (perPoint : ∀ s ∈ segments, PerPoint low high s (number s)) :
    sumChecked? number? segments = some (segments.foldr (fun s sum => number s + sum) 0) := by
  have least : ∀ s ∈ segments, int64Min + 0 ≤ s.first := by
    intro s member
    rw [Int.add_zero]
    exact ((fitsInt64_iff _).mp (fits s member).first).1
  have summed := foldlM_eq_some bearable ordered fits given perPoint 0 0
    least (by rw [Int.zero_mul]) (by rw [Int.zero_mul])
  rwa [Int.zero_add] at summed

/-- Segments of 64 bits that do not overlap have totals of 128 bits. -/
theorem Ordered.totalsFit
    (ordered : Ordered segments)
    (fits : AllFit segments) :
    TotalsFit segments := by
  constructor
  · exact ordered.sumChecked?_eq fits bearable_length
      (fun s member => lengthChecked?_of_fits (fits s member))
      (fun s member => perPoint_length (ordered.inhabited s member))
  · apply ordered.sumChecked?_eq fits bearable_weight
    · intro s member
      have perPoint := perPoint_weight (ordered.inhabited s member) (fits s member)
      have few : s.length ≤ int64Count := by
        have first := ((fitsInt64_iff _).mp (fits s member).first).1
        have last := ((fitsInt64_iff _).mp (fits s member).last).2
        simp only [Segment.length, int64Min, int64Max, int64Count] at first last ⊢
        omega
      rw [Segment.weightChecked?, lengthChecked?_of_fits (fits s member)]
      exact bearable_weight.checkedInt128?_eq few perPoint.lower perPoint.upper
    · exact fun s member => perPoint_weight (ordered.inhabited s member) (fits s member)

/-! ## Queries -/

theorem Ordered.drop
    (ordered : Ordered segments)
    (taken : Nat) :
    Ordered (segments.drop taken) := by
  have split := ordered
  rw [← List.take_append_drop taken segments, ordered_append_iff] at split
  exact split.2.1

/-- A clipped segment lies within a stored one. -/
theorem allFit_inRange
    (ordered : Ordered c.segments)
    (fits : AllFit c.segments)
    (low high : Int) :
    AllFit (c.inRange low high) := by
  rcases Int.lt_or_le high low with inverted | inhabited
  · rw [inRange_of_inverted c inverted]
    exact fun s member => absurd member List.not_mem_nil
  · intro s member
    have ⟨_, sInhabited, _⟩ := bounds_of_mem_inRange ordered inhabited s member
    have ⟨left, hit, right, split, _, clipped⟩ := inRange_eq_map_clip ordered inhabited
    rw [clipped] at member
    obtain ⟨t, inHit, rfl⟩ := List.mem_map.mp member
    have tFits := fits t (by simp [split, inHit])
    have begins : t.first ≤ (t.clip low high).first := Int.le_max_left t.first low
    have ends : (t.clip low high).last ≤ t.last := Int.min_le_left t.last high
    exact ⟨fitsInt64_of_between tFits.first tFits.last begins (Int.le_trans sInhabited ends),
      fitsInt64_of_between tFits.first tFits.last (Int.le_trans begins sInhabited) ends,
      tFits.weight⟩

/-- The totals of coverage that calls of 64 bits lead to fit in 128 bits at every step, and so
do those of every query, also of what a query has left once some segments were taken. -/
theorem totalsFit_of_reached
    (deviation : Nat)
    (origin : Origin)
    (calls : List Call)
    (callsFit : ∀ call ∈ calls, Fits call.range) :
    TotalsFit (reached deviation origin calls).segments ∧
      ∀ low high taken,
        TotalsFit (((reached deviation origin calls).inRange low high).drop taken) := by
  have ordered := (kept_reached deviation origin calls).1.ordered
  have fits := allFit_reached deviation origin callsFit
  refine ⟨ordered.totalsFit fits, ?_⟩
  intro low high taken
  have rangeFits := allFit_inRange ordered fits low high
  exact ((ordered.inRange low high).drop taken).totalsFit
    fun s member => rangeFits s (List.mem_of_mem_drop member)

/-- All points of 64 bits with the least weight come to the least number of 128 bits. -/
theorem totalsFit_at_limits :
    (∀ call ∈ [Call.addRange int64Min int64Max int64Min], Fits call.range) ∧
      TotalsFit (reached 0 .fresh [.addRange int64Min int64Max int64Min]).segments ∧
      (reached 0 .fresh [.addRange int64Min int64Max int64Min]).weight = int128Min := by
  have callsFit : ∀ call ∈ [Call.addRange int64Min int64Max int64Min], Fits call.range := by
    intro call member
    rw [List.mem_singleton.mp member]
    exact ⟨rfl, rfl, rfl⟩
  exact ⟨callsFit, (totalsFit_of_reached 0 .fresh _ callsFit).1, by decide⟩

end Coverage

end UsageBilling

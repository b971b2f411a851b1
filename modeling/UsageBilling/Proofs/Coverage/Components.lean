import Mathlib.Logic.Relation
import Mathlib.Order.Bounds.Basic
import UsageBilling.Proofs.Coverage.Calls
import UsageBilling.Proofs.Coverage.Ends
import UsageBilling.Proofs.Coverage.Commutation

/-!
Contract: ranges of one weight as connected components.

Owns:
- ranges that are linked: they overlap, or the gap between them is not wider than the
  deviation; ranges that are connected by links; the hull of a component;
- what one insertion among segments of its own weight does: every range stays in one
  segment, and every segment reaches from a range to one that is connected with it;
- the segments after any insertions of one weight: the hulls of the components, whatever
  the order of the ranges and however often each is inserted.

A range that arrives late may bridge two components, or lie in one that is there already.
The invariant does not mention the order: it is about the set of ranges seen so far.

Does not own: ranges of several weights, where a later one cuts an earlier one.
-/

namespace UsageBilling.Coverage

variable {c : Coverage} {range x y z s t : Segment} {ranges : Set Segment}
  {segments left hit right : List Segment} {deviation : Nat} {weight : Int}

/-! ## Connected ranges -/

/-- Whether two ranges have a point in common. -/
def Overlap (x y : Segment) : Prop :=
  x.first ≤ y.last ∧ y.first ≤ x.last

/-- Whether one range ends before another, across a gap that is not wider than the
deviation. -/
def Neighbours (deviation : Nat) (x next : Segment) : Prop :=
  x.last < next.first ∧ x.gapTo next ≤ deviation

def Linked (deviation : Nat) (x y : Segment) : Prop :=
  Overlap x y ∨ Neighbours deviation x y ∨ Neighbours deviation y x

/-- Whether links among some ranges lead from one to another. -/
def Connected (deviation : Nat) (ranges : Set Segment) : Segment → Segment → Prop :=
  Relation.ReflTransGen fun x y => x ∈ ranges ∧ y ∈ ranges ∧ Linked deviation x y

/-- Whether a segment reaches from the first to the last point of all ranges that are
connected with a range. -/
structure IsHull (deviation : Nat) (ranges : Set Segment) (range s : Segment) : Prop where
  first : IsLeast {point | ∃ x, Connected deviation ranges range x ∧ x.first = point} s.first
  last : IsGreatest {point | ∃ x, Connected deviation ranges range x ∧ x.last = point} s.last
  weight : s.weight = range.weight

theorem Linked.symm
    (linked : Linked deviation x y) :
    Linked deviation y x :=
  linked.imp And.symm Or.symm

/-- Two ranges are linked exactly if neither begins farther than the deviation after the
end of the other. -/
theorem linked_iff
    (xInhabited : x.first ≤ x.last)
    (yInhabited : y.first ≤ y.last) :
    Linked deviation x y ↔ y.first - x.last ≤ deviation ∧ x.first - y.last ≤ deviation := by
  simp only [Linked, Overlap, Neighbours, Segment.gapTo]
  omega

theorem Connected.symm
    (connected : Connected deviation ranges x y) :
    Connected deviation ranges y x := by
  induction connected with
  | refl => exact .refl
  | tail _ step inductionHypothesis =>
    have ⟨member, member', linked⟩ := step
    exact .head ⟨member', member, linked.symm⟩ inductionHypothesis

theorem Connected.of_linked
    (member : x ∈ ranges)
    (member' : y ∈ ranges)
    (linked : Linked deviation x y) :
    Connected deviation ranges x y :=
  .single ⟨member, member', linked⟩

theorem Connected.mono
    {more : Set Segment}
    (included : ranges ⊆ more)
    (connected : Connected deviation ranges x y) :
    Connected deviation more x y :=
  Relation.ReflTransGen.mono (fun _ _ ⟨member, member', linked⟩ =>
    ⟨included member, included member', linked⟩) _ _ connected

theorem IsHull.unique
    (sHull : IsHull deviation ranges range s)
    (tHull : IsHull deviation ranges range t) :
    s = t := by
  have sameFirst := sHull.first.unique tHull.first
  have sameLast := sHull.last.unique tHull.last
  have sameWeight := sHull.weight.trans tHull.weight.symm
  cases s
  cases t
  simp only at sameFirst sameLast sameWeight
  rw [sameFirst, sameLast, sameWeight]

/-- Links do not pass over a range: one that does not lie beyond either end of a chain of
links is linked with some member of the chain. -/
theorem Connected.exists_linked
    (connected : Connected deviation ranges x y)
    (inhabited : ∀ z ∈ ranges, z.first ≤ z.last)
    (member : x ∈ ranges)
    (rangeInhabited : range.first ≤ range.last)
    (starts : x.first - range.last ≤ deviation)
    (ends : range.first - y.last ≤ deviation) :
    ∃ z ∈ ranges, Connected deviation ranges x z ∧ Linked deviation z range := by
  induction connected using Relation.ReflTransGen.head_induction_on with
  | refl =>
    exact ⟨y, member, .refl, (linked_iff (inhabited y member) rangeInhabited).mpr ⟨ends, starts⟩⟩
  | @head x next step rest inductionHypothesis =>
    have ⟨_, nextMember, linked⟩ := step
    by_cases nextStarts : next.first - range.last ≤ deviation
    · obtain ⟨z, zMember, toZ, zLinked⟩ := inductionHypothesis nextMember nextStarts
      exact ⟨z, zMember, toZ.head step, zLinked⟩
    · -- The next of the chain lies beyond the range, so this one reaches up to it.
      have near := (linked_iff (inhabited x member) (inhabited next nextMember)).mp linked
      refine ⟨x, member, .refl, (linked_iff (inhabited x member) rangeInhabited).mpr ⟨?_, starts⟩⟩
      omega

/-! ## Segments that hold connected ranges -/

def Encloses (s range : Segment) : Prop :=
  s.first ≤ range.first ∧ range.last ≤ s.last

/-- Whether a segment begins with a range and ends with one that is connected with it. -/
def Spanned (deviation : Nat) (ranges : Set Segment) (s : Segment) : Prop :=
  ∃ x ∈ ranges, ∃ y ∈ ranges, Connected deviation ranges x y ∧ x.first = s.first ∧ y.last = s.last

/-- Coverage by ranges of one weight: each range lies in one segment, and the ends of a
segment are those of connected ranges. -/
structure Clustered (weight : Int) (ranges : Set Segment) (c : Coverage) : Prop where
  kept : c.Kept
  weighs : ∀ s ∈ c.segments, s.weight = weight
  inhabited : ∀ x ∈ ranges, x.first ≤ x.last
  enclosed : ∀ x ∈ ranges, ∃ s ∈ c.segments, Encloses s x
  spanned : ∀ s ∈ c.segments, Spanned c.deviation ranges s

theorem Spanned.mono
    {more : Set Segment}
    (included : ranges ⊆ more)
    (spanned : Spanned deviation ranges s) :
    Spanned deviation more s := by
  obtain ⟨x, xMember, y, yMember, connected, sameFirst, sameLast⟩ := spanned
  exact ⟨x, included xMember, y, included yMember, connected.mono included, sameFirst, sameLast⟩

/-- Segments of one weight are farther apart than the deviation, whether or not others lie
between them. -/
theorem WellKept.pairwise_of_weight
    (wellKept : WellKept deviation segments)
    (weighs : ∀ s ∈ segments, s.weight = weight) :
    segments.Pairwise fun s later => (deviation : Int) < s.gapTo later := by
  induction segments with
  | nil => exact List.Pairwise.nil
  | cons s rest inductionHypothesis =>
    obtain ⟨_, separated, keptRest⟩ := (wellKept_cons_iff s rest).mp wellKept
    simp only [List.forall_mem_cons] at weighs
    have apart := inductionHypothesis keptRest weighs.2
    refine List.pairwise_cons.mpr ⟨?_, apart⟩
    intro t member
    cases rest with
    | nil => cases member
    | cons next rest =>
      have nextWeight := (List.forall_mem_cons.mp weighs.2).1
      have near := (separated next rfl).2 (weighs.1.trans nextWeight.symm)
      rcases List.mem_cons.mp member with isNext | inRest
      · rw [isNext]
        exact near
      · have beyond := (List.pairwise_cons.mp apart).1 t inRest
        have nextInhabited := keptRest.ordered.inhabited next List.mem_cons_self
        simp only [Segment.gapTo] at near beyond ⊢
        omega

/-- Of two segments of one weight, one lies beyond the deviation after the other. -/
theorem WellKept.apart_of_weight
    (wellKept : WellKept deviation segments)
    (weighs : ∀ s ∈ segments, s.weight = weight)
    (sMember : s ∈ segments)
    (tMember : t ∈ segments)
    (differ : s ≠ t) :
    (deviation : Int) < s.gapTo t ∨ (deviation : Int) < t.gapTo s := by
  let Apart : Segment → Segment → Prop := fun s t =>
    s ≠ t → (deviation : Int) < s.gapTo t ∨ (deviation : Int) < t.gapTo s
  have symmetric : Std.Symm Apart := ⟨fun _ _ apart differ => (apart differ.symm).symm⟩
  have pairwise : segments.Pairwise Apart :=
    (wellKept.pairwise_of_weight weighs).imp fun beyond _ => Or.inl beyond
  exact pairwise.forall_of_forall (fun _ _ differ => absurd rfl differ) sMember tMember differ

namespace Clustered

/-- Two linked ranges lie in the same segment. -/
theorem encloses_of_linked
    (clustered : Clustered weight ranges c)
    (sMember : s ∈ c.segments)
    (encloses : Encloses s x)
    (xMember : x ∈ ranges)
    (yMember : y ∈ ranges)
    (linked : Linked c.deviation x y) :
    Encloses s y := by
  obtain ⟨t, tMember, tEncloses⟩ := clustered.enclosed y yMember
  by_cases same : s = t
  · exact same ▸ tEncloses
  · exfalso
    have near := (linked_iff (clustered.inhabited x xMember)
      (clustered.inhabited y yMember)).mp linked
    have apart := clustered.kept.wellKept.apart_of_weight clustered.weighs sMember tMember same
    simp only [Segment.gapTo] at apart
    simp only [Encloses] at encloses tEncloses
    omega

/-- All ranges that are connected with one in a segment lie in that segment. -/
theorem encloses_of_connected
    (clustered : Clustered weight ranges c)
    (sMember : s ∈ c.segments)
    (encloses : Encloses s x)
    (connected : Connected c.deviation ranges x y) :
    Encloses s y := by
  induction connected with
  | refl => exact encloses
  | tail _ step inductionHypothesis =>
    have ⟨member, member', linked⟩ := step
    exact clustered.encloses_of_linked sMember inductionHypothesis member member' linked

/-- A segment is the hull of the component of each range that lies in it. -/
theorem isHull_of_encloses
    (clustered : Clustered weight ranges c)
    (sameWeight : ∀ x ∈ ranges, x.weight = weight)
    (sMember : s ∈ c.segments)
    (member : range ∈ ranges)
    (encloses : Encloses s range) :
    IsHull c.deviation ranges range s := by
  obtain ⟨x, xMember, y, _, connected, sameFirst, sameLast⟩ := clustered.spanned s sMember
  have rangeInhabited := clustered.inhabited range member
  have ⟨begins, ends⟩ := encloses
  obtain ⟨z, zMember, toZ, linked⟩ := connected.exists_linked clustered.inhabited xMember
    rangeInhabited (by omega) (by omega)
  have toRange : Connected c.deviation ranges x range :=
    toZ.trans (Connected.of_linked zMember member linked)
  have fromRange := toRange.symm
  have within := fun other reaches =>
    clustered.encloses_of_connected (y := other) sMember encloses reaches
  refine ⟨⟨⟨x, fromRange, sameFirst⟩, ?_⟩, ⟨⟨y, fromRange.trans connected, sameLast⟩, ?_⟩, ?_⟩
  · rintro point ⟨other, reaches, rfl⟩
    exact (within other reaches).1
  · rintro point ⟨other, reaches, rfl⟩
    exact (within other reaches).2
  · exact (clustered.weighs s sMember).trans (sameWeight range member).symm

/-- The segments are the hulls of the components. -/
theorem mem_segments_iff
    (clustered : Clustered weight ranges c)
    (sameWeight : ∀ x ∈ ranges, x.weight = weight)
    (s : Segment) :
    s ∈ c.segments ↔ ∃ range ∈ ranges, IsHull c.deviation ranges range s := by
  constructor
  · intro sMember
    obtain ⟨x, xMember, y, _, connected, sameFirst, sameLast⟩ := clustered.spanned s sMember
    obtain ⟨t, tMember, tEncloses⟩ := clustered.enclosed x xMember
    have same : t = s := by
      have xInhabited := clustered.inhabited x xMember
      have sInhabited := clustered.kept.ordered.inhabited s sMember
      have ⟨begins, ends⟩ := tEncloses
      have tHolds : t.first ≤ s.first ∧ s.first ≤ t.last := ⟨by omega, by omega⟩
      exact clustered.kept.ordered.eq_of_holds tMember sMember tHolds
        ⟨Int.le_refl s.first, sInhabited⟩
    exact ⟨x, xMember, clustered.isHull_of_encloses sameWeight sMember xMember (same ▸ tEncloses)⟩
  · rintro ⟨range, member, isHull⟩
    obtain ⟨t, tMember, tEncloses⟩ := clustered.enclosed range member
    have tHull := clustered.isHull_of_encloses sameWeight tMember member tEncloses
    rw [isHull.unique tHull]
    exact tMember

end Clustered

/-! ## One insertion among segments of its weight -/

/-- What merging does to a list of segments on one side: nothing, or two neighbours of one
weight become one. -/
inductive Joined (deviation : Nat) : List Segment → List Segment → Prop where
  | none (segments : List Segment) : Joined deviation segments segments
  | pair {s t : Segment} (left right : List Segment)
      (neighbours : Neighbours deviation s t) (sameWeight : s.weight = t.weight) :
      Joined deviation (left ++ s :: t :: right) (left ++ ⟨s.first, t.last, t.weight⟩ :: right)

theorem Joined.forall_mem
    {holds : Segment → Prop}
    (joined : Joined deviation left right)
    (joins : ∀ s t, holds s → holds t → Neighbours deviation s t →
      holds ⟨s.first, t.last, t.weight⟩)
    (all : ∀ s ∈ left, holds s) :
    ∀ s ∈ right, holds s := by
  cases joined with
  | none => exact all
  | pair before after neighbours _ =>
    simp only [List.forall_mem_append, List.forall_mem_cons] at all ⊢
    have ⟨ofBefore, ofS, ofT, ofAfter⟩ := all
    exact ⟨ofBefore, joins _ _ ofS ofT neighbours, ofAfter⟩

theorem Joined.exists_encloses
    (joined : Joined deviation left right)
    (inhabited : ∀ s ∈ left, s.first ≤ s.last)
    (x : Segment)
    (enclosed : ∃ s ∈ left, Encloses s x) :
    ∃ s ∈ right, Encloses s x := by
  cases joined with
  | none => exact enclosed
  | @pair s t before after neighbours _ =>
    simp only [List.forall_mem_append, List.forall_mem_cons] at inhabited
    have ⟨_, sInhabited, tInhabited, _⟩ := inhabited
    have below := neighbours.1
    obtain ⟨u, member, begins, ends⟩ := enclosed
    simp only [List.mem_append, List.mem_cons] at member ⊢
    rcases member with inBefore | isS | isT | inAfter
    · exact ⟨u, Or.inl inBefore, begins, ends⟩
    · rw [isS] at begins ends
      exact ⟨_, Or.inr (Or.inl rfl), begins, by dsimp only; omega⟩
    · rw [isT] at begins ends
      exact ⟨_, Or.inr (Or.inl rfl), by dsimp only; omega, ends⟩
    · exact ⟨u, Or.inr (Or.inr inAfter), begins, ends⟩

namespace Cursor

variable {cursor : Cursor}

theorem Flanked.joined_joinBefore
    (flanked : cursor.Flanked deviation) :
    Joined deviation cursor.toList (cursor.joinBefore deviation).toList := by
  rcases flanked.joinBefore_cases with ⟨_, same⟩ | ⟨near, far, split, sameWeight, close, joined⟩
  · rw [same]
    exact .none _
  · have below := flanked.above near (by simp [split])
    have pair := Joined.pair far.reverse cursor.after ⟨below, close⟩ sameWeight
    rw [joined]
    simpa [toList, split] using pair

theorem Flanked.joined_joinAfter
    (flanked : cursor.Flanked deviation) :
    Joined deviation cursor.toList (cursor.joinAfter deviation).toList := by
  rcases flanked.joinAfter_cases with ⟨_, same⟩ | ⟨near, far, split, sameWeight, close, joined⟩
  · rw [same]
    exact .none _
  · have below := flanked.below near (by simp [split])
    have pair := Joined.pair cursor.before.reverse far ⟨below, close⟩ sameWeight
    rw [joined]
    simpa [toList, split, sameWeight] using pair

/-- Merging joins at most one neighbour on each side. -/
theorem Flanked.exists_joined_coalesce
    (flanked : cursor.Flanked deviation) :
    ∃ between, Ordered between ∧ Joined deviation cursor.toList between ∧
      Joined deviation between (cursor.coalesce deviation).toList := by
  have once := flanked.joinBefore.1
  rw [flanked.coalesce_eq_mergePass]
  exact ⟨_, once.ordered_toList, flanked.joined_joinBefore, once.joined_joinAfter⟩

end Cursor

/-- A range that carries the weight of all segments absorbs those it overlaps. -/
theorem encloses_absorb
    (ordered : Ordered hit)
    (sameWeight : ∀ s ∈ hit, s.weight = range.weight)
    (s : Segment)
    (member : s ∈ hit) :
    Encloses (absorb range hit) s := by
  constructor
  · cases hit with
    | nil => cases member
    | cons head rest =>
      obtain ⟨_, below, orderedRest⟩ := (ordered_cons_iff head rest).mp ordered
      have headWeight := sameWeight head List.mem_cons_self
      simp only [absorb, List.head?_cons, if_pos headWeight]
      rcases List.mem_cons.mp member with isHead | inRest
      · rw [isHead]
        exact Int.min_le_right _ _
      · have after := below s inRest
        have headInhabited := ordered.inhabited head List.mem_cons_self
        omega
  · rcases List.eq_nil_or_concat hit with none | ⟨earlier, tail, split⟩
    · rw [none] at member
      cases member
    · rw [List.concat_eq_append] at split
      rw [split] at ordered sameWeight member ⊢
      obtain ⟨_, _, below⟩ := (ordered_append_iff earlier [tail]).mp ordered
      have tailWeight := sameWeight tail (by simp)
      simp only [absorb, List.getLast?_append_cons, List.getLast?_singleton, if_pos tailWeight]
      rcases List.mem_append.mp member with inEarlier | isTail
      · have before := below s inEarlier tail (by simp)
        have tailInhabited := ordered.inhabited tail (by simp)
        omega
      · rw [List.mem_singleton.mp isTail]
        exact Int.le_max_right _ _

/-- What lies in a segment still does after a range has absorbed those it overlaps. -/
theorem Cut.exists_encloses_absorb
    (cut : Cut range left hit right)
    (hitWeight : ∀ s ∈ hit, s.weight = range.weight)
    (enclosed : ∃ s ∈ left ++ (hit ++ right), Encloses s x) :
    ∃ s ∈ left ++ absorb range hit :: right, Encloses s x := by
  obtain ⟨s, member, begins, ends⟩ := enclosed
  rw [List.mem_append, List.mem_append] at member
  rcases member with inLeft | inHit | inRight
  · exact ⟨s, by simp [inLeft], begins, ends⟩
  · have hitOrdered : Ordered hit :=
      ((ordered_append_iff hit right).mp ((ordered_append_iff left _).mp cut.ordered).2.1).1
    obtain ⟨absorbBegins, absorbEnds⟩ := encloses_absorb hitOrdered hitWeight s inHit
    exact ⟨absorb range hit, by simp, Int.le_trans absorbBegins begins,
      Int.le_trans ends absorbEnds⟩
  · exact ⟨s, by simp [inRight], begins, ends⟩

theorem remainders_of_same_weight
    (sameWeight : ∀ s ∈ hit, s.weight = range.weight) :
    remainderBefore range hit = [] ∧ remainderAfter range hit = [] := by
  constructor
  · unfold remainderBefore
    split
    · rename_i s isFirst
      exact if_neg fun cutOff => cutOff.1 (sameWeight s (List.mem_of_mem_head? isFirst))
    · rfl
  · unfold remainderAfter
    split
    · rename_i s isLast
      exact if_neg fun cutOff => cutOff.1 (sameWeight s (List.mem_of_getLast? isLast))
    · rfl

/-- A segment that joins two neighbours begins and ends with connected ranges. -/
theorem Spanned.join
    (sSpanned : Spanned deviation ranges s)
    (tSpanned : Spanned deviation ranges t)
    (neighbours : Neighbours deviation s t) :
    Spanned deviation ranges ⟨s.first, t.last, t.weight⟩ := by
  obtain ⟨x, xMember, y, yMember, toY, xFirst, yLast⟩ := sSpanned
  obtain ⟨x', xMember', y', yMember', toY', xFirst', yLast'⟩ := tSpanned
  have linked : Linked deviation y x' := by
    simp only [Linked, Neighbours, Segment.gapTo, yLast, xFirst']
    exact Or.inr (Or.inl neighbours)
  exact ⟨x, xMember, y', yMember',
    (toY.trans (Connected.of_linked yMember xMember' linked)).trans toY', xFirst, yLast'⟩

/-- The ranges at the ends of a segment are connected with a range that overlaps it. -/
theorem Spanned.connected_range
    (spanned : Spanned deviation ranges s)
    (inhabited : ∀ x ∈ ranges, x.first ≤ x.last)
    (rangeInhabited : range.first ≤ range.last)
    (overlap : range.first ≤ s.last ∧ s.first ≤ range.last) :
    ∃ x ∈ ranges, ∃ y ∈ ranges, x.first = s.first ∧ y.last = s.last ∧
      Connected deviation (ranges ∪ {range}) x range ∧
      Connected deviation (ranges ∪ {range}) range y := by
  obtain ⟨x, xMember, y, yMember, connected, xFirst, yLast⟩ := spanned
  obtain ⟨z, zMember, toZ, linked⟩ := connected.exists_linked inhabited xMember rangeInhabited
    (by omega) (by omega)
  have included : ranges ⊆ ranges ∪ {range} := Set.subset_union_left
  have toRange : Connected deviation (ranges ∪ {range}) x range :=
    (toZ.mono included).trans
      (Connected.of_linked (included zMember) (Or.inr rfl) linked)
  exact ⟨x, xMember, y, yMember, xFirst, yLast, toRange,
    toRange.symm.trans (connected.mono included)⟩

/-- What a range absorbs is connected with it. -/
theorem spanned_absorb
    (inhabited : ∀ x ∈ ranges, x.first ≤ x.last)
    (rangeInhabited : range.first ≤ range.last)
    (overlap : ∀ s ∈ hit, range.first ≤ s.last ∧ s.first ≤ range.last)
    (spanned : ∀ s ∈ hit, Spanned deviation ranges s) :
    Spanned deviation (ranges ∪ {range}) (absorb range hit) := by
  have drawn : DrawnFrom range hit (absorb range hit) := drawnFrom_absorb (List.Subset.refl hit)
  have ⟨first, last, _⟩ := drawn
  have grownFirst : (absorb range hit).first ≤ range.first := absorb_first_le
  have grownLast : range.last ≤ (absorb range hit).last := le_absorb_last
  have member : range ∈ ranges ∪ {range} := Or.inr rfl
  have included : ranges ⊆ ranges ∪ {range} := Set.subset_union_left
  obtain ⟨x, xMember, xFirst, toRange⟩ : ∃ x ∈ ranges ∪ {range},
      x.first = (absorb range hit).first ∧ Connected deviation (ranges ∪ {range}) x range := by
    rcases first with own | ⟨s, inHit, same⟩ | ⟨beyond, _⟩
    · exact ⟨range, member, own.symm, .refl⟩
    · obtain ⟨x, xMember, _, _, xFirst, _, toRange, _⟩ :=
        (spanned s inHit).connected_range inhabited rangeInhabited (overlap s inHit)
      exact ⟨x, included xMember, xFirst.trans same.symm, toRange⟩
    · omega
  obtain ⟨y, yMember, yLast, fromRange⟩ : ∃ y ∈ ranges ∪ {range},
      y.last = (absorb range hit).last ∧ Connected deviation (ranges ∪ {range}) range y := by
    rcases last with own | ⟨s, inHit, same⟩ | ⟨before, _⟩
    · exact ⟨range, member, own.symm, .refl⟩
    · obtain ⟨_, _, y, yMember, _, yLast, _, fromRange⟩ :=
        (spanned s inHit).connected_range inhabited rangeInhabited (overlap s inHit)
      exact ⟨y, included yMember, yLast.trans same.symm, fromRange⟩
    · omega
  exact ⟨x, xMember, y, yMember, toRange.trans fromRange, xFirst, yLast⟩

/-- An insertion among segments of its weight absorbs those it overlaps, and then joins at
most one neighbour on each side. -/
theorem Kept.exists_joined_of_weight
    (kept : c.Kept)
    (rangeInhabited : range.first ≤ range.last)
    (sameWeight : ∀ s ∈ c.segments, s.weight = range.weight) :
    ∃ left hit right between, c.segments = left ++ (hit ++ right) ∧ Cut range left hit right ∧
      Ordered (left ++ absorb range hit :: right) ∧ Ordered between ∧
      Joined c.deviation (left ++ absorb range hit :: right) between ∧
      Joined c.deviation between (c.insertSegment range).segments := by
  obtain ⟨left, hit, right, split, cut, painted⟩ := exists_cut range kept.ordered
  have wellKept : WellKept c.deviation (left ++ (hit ++ right)) := split ▸ kept.wellKept
  have flanked := cut.flanked wellKept rangeInhabited
  have hitWeight : ∀ s ∈ hit, s.weight = range.weight :=
    fun s inHit => sameWeight s (by simp [split, inHit])
  have ⟨noneBefore, noneAfter⟩ := remainders_of_same_weight hitWeight
  rw [noneBefore, noneAfter, List.append_nil, List.nil_append] at painted flanked
  obtain ⟨between, ordered, joinedBefore, joinedAfter⟩ := flanked.exists_joined_coalesce
  have list : (⟨left.reverse, absorb range hit, right⟩ : Cursor).toList =
      left ++ absorb range hit :: right := by
    rw [Cursor.toList, List.reverse_reverse]
  have paintedOrdered := flanked.ordered_toList
  rw [list] at joinedBefore paintedOrdered
  refine ⟨left, hit, right, between, split, cut, paintedOrdered, ordered, joinedBefore, ?_⟩
  rw [Coverage.insertSegment, painted]
  exact joinedAfter

/-- What every insertion of the weight keeps, the range counted among those seen. -/
theorem Clustered.insertSegment
    (clustered : Clustered weight ranges c)
    (rangeInhabited : range.first ≤ range.last)
    (ofWeight : range.weight = weight) :
    Clustered weight (ranges ∪ {range}) (c.insertSegment range) := by
  have sameWeight : ∀ s ∈ c.segments, s.weight = range.weight := fun s member =>
    (clustered.weighs s member).trans ofWeight.symm
  obtain ⟨left, hit, right, between, split, cut, paintedOrdered, ordered, joinedBefore,
    joinedAfter⟩ := clustered.kept.exists_joined_of_weight rangeInhabited sameWeight
  have included : ranges ⊆ ranges ∪ {range} := Set.subset_union_left
  refine ⟨clustered.kept.insertSegment rangeInhabited, ?weighs, ?inhabited, ?enclosed, ?spanned⟩
  case weighs =>
    intro s member
    rcases (drawnFrom_of_mem_insertSegment s member).weight with own | ⟨t, tMember, same⟩
    · exact own.trans ofWeight
    · exact same.trans (clustered.weighs t tMember)
  case inhabited =>
    intro x member
    rcases member with inRanges | isRange
    · exact clustered.inhabited x inRanges
    · rw [isRange]
      exact rangeInhabited
  case enclosed =>
    intro x member
    apply joinedAfter.exists_encloses ordered.inhabited
    apply joinedBefore.exists_encloses paintedOrdered.inhabited
    rcases member with inRanges | isRange
    · exact cut.exists_encloses_absorb (fun s inHit => sameWeight s (by simp [split, inHit]))
        (split ▸ clustered.enclosed x inRanges)
    · rw [isRange]
      exact ⟨absorb range hit, by simp, absorb_first_le, le_absorb_last⟩
  case spanned =>
    apply joinedAfter.forall_mem fun _ _ => Spanned.join
    apply joinedBefore.forall_mem fun _ _ => Spanned.join
    have spanned := clustered.spanned
    rw [split] at spanned
    simp only [List.forall_mem_append, List.forall_mem_cons] at spanned ⊢
    have ⟨ofLeft, ofHit, ofRight⟩ := spanned
    exact ⟨fun s inLeft => (ofLeft s inLeft).mono included,
      spanned_absorb clustered.inhabited rangeInhabited cut.overlap ofHit,
      fun s inRight => (ofRight s inRight).mono included⟩

/-! ## Any insertions of one weight -/

theorem clustered_empty
    (deviation : Nat)
    (weight : Int) :
    Clustered weight ∅ (empty deviation) := by
  refine ⟨kept_empty deviation, ?_, ?_, ?_, ?_⟩
  · intro s member
    cases member
  · exact fun x member => member.elim
  · exact fun x member => member.elim
  · intro s member
    cases member

/-- The ranges that calls insert. -/
def rangesOf (calls : List Call) : Set Segment :=
  {range | ∃ call ∈ calls, call.range = range}

/-- Whether calls insert ranges that are not inverted, all with one weight. -/
def OfWeight (weight : Int) (calls : List Call) : Prop :=
  ∀ call ∈ calls, call.range.first ≤ call.range.last ∧ call.range.weight = weight

theorem Clustered.foldl_perform
    {calls : List Call}
    (clustered : Clustered weight ranges c)
    (ofWeight : OfWeight weight calls) :
    Clustered weight (ranges ∪ rangesOf calls)
      (calls.foldl (fun c call => (c.perform call).2) c) := by
  induction calls generalizing c ranges with
  | nil =>
    have none : rangesOf [] = ∅ := by
      simp [rangesOf]
    rw [none, Set.union_empty]
    exact clustered
  | cons call rest inductionHypothesis =>
    have ⟨first, later⟩ := List.forall_mem_cons.mp ofWeight
    have together : ranges ∪ rangesOf (call :: rest) =
        ranges ∪ {call.range} ∪ rangesOf rest := by
      have split : rangesOf (call :: rest) = {call.range} ∪ rangesOf rest := by
        ext range
        simp [rangesOf, eq_comm]
      rw [split, Set.union_assoc]
    rw [together, List.foldl_cons, perform_of_inhabited call first.1]
    exact inductionHypothesis (clustered.insertSegment first.1 first.2) later

theorem clustered_reached
    {calls : List Call}
    (ofWeight : OfWeight weight calls)
    (deviation : Nat) :
    Clustered weight (rangesOf calls) (reached deviation .fresh calls) := by
  have clustered := (clustered_empty deviation weight).foldl_perform ofWeight
  rwa [Set.empty_union] at clustered

/-- Ordered lists with the same segments are equal. -/
theorem Ordered.eq_of_mem_iff
    (leftOrdered : Ordered left)
    (rightOrdered : Ordered right)
    (same : ∀ s, s ∈ left ↔ s ∈ right) :
    left = right := by
  apply SameSpans.eq _ leftOrdered rightOrdered
  intro point next weight _ _
  simp only [Spans, same]

/-- Insertions of one weight leave the hulls of the connected components of their ranges, in
ascending order. So neither the order of the insertions nor repetitions matter. -/
theorem components_of_one_weight
    (deviation : Nat)
    (weight : Int)
    {calls : List Call}
    (ofWeight : OfWeight weight calls) :
    (∀ s, s ∈ (reached deviation .fresh calls).segments ↔
        ∃ range ∈ rangesOf calls, IsHull deviation (rangesOf calls) range s) ∧
      Ordered (reached deviation .fresh calls).segments ∧
      ∀ others : List Call, rangesOf others = rangesOf calls →
        reached deviation .fresh others = reached deviation .fresh calls := by
  have membership : ∀ calls : List Call, OfWeight weight calls → ∀ s,
      s ∈ (reached deviation .fresh calls).segments ↔
        ∃ range ∈ rangesOf calls, IsHull deviation (rangesOf calls) range s := by
    intro calls ofWeight s
    have sameWeight : ∀ x ∈ rangesOf calls, x.weight = weight := by
      intro x member
      have ⟨call, inCalls, isRange⟩ := member
      exact isRange ▸ (ofWeight call inCalls).2
    have clustered := clustered_reached ofWeight deviation
    have ⟨_, sameDeviation⟩ := kept_reached deviation .fresh calls
    rw [clustered.mem_segments_iff sameWeight, sameDeviation]
  have ordered := fun calls => (kept_reached deviation .fresh calls).1.ordered
  refine ⟨membership calls ofWeight, ordered calls, ?_⟩
  intro others sameRanges
  have othersOfWeight : OfWeight weight others := by
    intro other member
    have inOthers : other.range ∈ rangesOf others := ⟨other, member, rfl⟩
    have ⟨call, inCalls, isRange⟩ := sameRanges ▸ inOthers
    exact isRange ▸ ofWeight call inCalls
  apply ext_of_segments
  · rw [(kept_reached deviation .fresh others).2, (kept_reached deviation .fresh calls).2]
  · apply (ordered others).eq_of_mem_iff (ordered calls)
    intro s
    rw [membership others othersOfWeight, membership calls ofWeight, sameRanges]

/-- Two ranges, one that is far from them, and one that bridges the first two. -/
def lateBridge : List Call :=
  [.addRange 0 4 3, .addRange 10 14 3, .addRange 30 40 3, .addRange 6 8 3]

/-- The bridge may come first, and again. -/
theorem components_lateBridge :
    OfWeight 3 lateBridge ∧
      rangesOf (.addRange 6 8 3 :: lateBridge.reverse) = rangesOf lateBridge ∧
      (∃ range ∈ rangesOf lateBridge, IsHull 2 (rangesOf lateBridge) range ⟨0, 14, 3⟩) ∧
      reached 2 .fresh (.addRange 6 8 3 :: lateBridge.reverse) =
        ⟨2, [⟨0, 14, 3⟩, ⟨30, 40, 3⟩]⟩ := by
  have ofWeight : OfWeight 3 lateBridge := by
    unfold OfWeight
    decide
  have sameRanges : rangesOf (.addRange 6 8 3 :: lateBridge.reverse) = rangesOf lateBridge := by
    ext range
    simp only [rangesOf, lateBridge, Set.mem_ofPred_eq, List.mem_cons, List.mem_reverse]
    constructor
    · rintro ⟨call, isBridge | member, ofCall⟩
      · exact ⟨call, by simp [isBridge], ofCall⟩
      · exact ⟨call, member, ofCall⟩
    · rintro ⟨call, member, ofCall⟩
      exact ⟨call, Or.inr member, ofCall⟩
  have ⟨hulls, _, anyOrder⟩ := components_of_one_weight 2 3 ofWeight
  refine ⟨ofWeight, sameRanges, (hulls ⟨0, 14, 3⟩).mp (by decide), ?_⟩
  rw [anyOrder _ sameRanges]
  decide

end UsageBilling.Coverage

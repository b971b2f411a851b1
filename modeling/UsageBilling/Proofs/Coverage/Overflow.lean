import UsageBilling.Proofs.Coverage.Ends
import UsageBilling.Proofs.Coverage.Text
import UsageBilling.Proofs.Traversal

/-!
Contract: insertion within 64 bits.

Owns:
- painting and insertion with every computed number checked against 64 bits;
- segments whose numbers 64 bits hold stay such segments when a range of such
  numbers is inserted, and the same for coverage read from a text;
- the checked insertion never stops short of the unchecked one.

Numbers are computed only where a segment is cut: the point before the range and
the point after it. All others are there before, and gaps are compared in more than
64 bits.

Does not own: the order of segments.
-/

namespace UsageBilling

open Text

namespace Text

/-- A computed number, unless 64 bits do not hold it. -/
def checkedInt64? (n : Int) : Option Int :=
  if fitsInt64 n then some n else none

/-- What lies between numbers of 64 bits is one. -/
theorem fitsInt64_of_between
    {low n high : Int}
    (lowFits : fitsInt64 low = true)
    (highFits : fitsInt64 high = true)
    (lower : low ≤ n)
    (upper : n ≤ high) :
    fitsInt64 n = true := by
  rw [fitsInt64_iff] at lowFits highFits ⊢
  omega

theorem checkedInt64?_of_fits
    {n : Int}
    (fits : fitsInt64 n = true) :
    checkedInt64? n = some n :=
  if_pos fits

theorem fitsInt64_of_readInt64?
    {cs : List Char}
    {n : Int}
    (read : readInt64? cs = some n) :
    fitsInt64 n = true := by
  have ofValue : ∀ value : Option Int,
      (value.bind fun n => if fitsInt64 n then some n else none) = some n →
        fitsInt64 n = true := by
    intro value checked
    have ⟨m, _, held⟩ := Option.bind_eq_some_iff.mp checked
    split at held
    · rename_i fits
      rwa [Option.some.inj held] at fits
    · cases held
  unfold readInt64? at read
  split at read
  · exact ofValue _ read
  · exact ofValue _ read
  · exact ofValue _ read

end Text

namespace Coverage

variable {c : Coverage} {range : Segment} {hit segments : List Segment}

/-! ## Insertion with checked numbers -/

def remainderBeforeChecked? (range : Segment) (hit : List Segment) : Option (List Segment) :=
  match hit.head? with
  | some s =>
    if s.weight ≠ range.weight ∧ s.first < range.first then do
      let last ← checkedInt64? (range.first - 1)
      pure [⟨s.first, last, s.weight⟩]
    else some []
  | none => some []

def remainderAfterChecked? (range : Segment) (hit : List Segment) : Option (List Segment) :=
  match hit.getLast? with
  | some s =>
    if s.weight ≠ range.weight ∧ range.last < s.last then do
      let first ← checkedInt64? (range.last + 1)
      pure [⟨first, s.last, s.weight⟩]
    else some []
  | none => some []

/-- The painted cursor, unless a number overflows on the way. -/
def paintChecked? (range : Segment) (segments : List Segment) : Option Cursor := do
  let before := entirelyBefore range segments
  let rest := segments.drop before.length
  let hit := overlapped range rest
  let cutBefore ← remainderBeforeChecked? range hit
  let cutAfter ← remainderAfterChecked? range hit
  pure ⟨(before ++ cutBefore).reverse, absorb range hit, cutAfter ++ rest.drop hit.length⟩

/-- Insertion, unless a number overflows on the way. -/
def insertChecked? (c : Coverage) (first last weight : Int) :
    Option (Except BillingError Coverage) :=
  if last < first then some (.error (.invertedRange first last))
  else do
    let cursor ← paintChecked? ⟨first, last, weight⟩ c.segments
    pure (.ok { c with segments := (cursor.coalesce c.deviation).toList })

/-- Whether 64 bits hold every number of every segment. -/
def AllFit (segments : List Segment) : Prop :=
  ∀ s ∈ segments, Fits s

/-! ## Cutting -/

/-- A segment that begins before the range also holds the point before the range. -/
theorem fitsInt64_pointBefore
    {s : Segment}
    (rangeFits : Fits range)
    (sFits : Fits s)
    (cutOff : s.first < range.first) :
    fitsInt64 (range.first - 1) = true :=
  fitsInt64_of_between sFits.first rangeFits.first (by omega) (by omega)

/-- A segment that ends after the range also holds the point after the range. -/
theorem fitsInt64_pointAfter
    {s : Segment}
    (rangeFits : Fits range)
    (sFits : Fits s)
    (cutOff : range.last < s.last) :
    fitsInt64 (range.last + 1) = true :=
  fitsInt64_of_between rangeFits.last sFits.last (by omega) (by omega)

theorem remainderBeforeChecked?_eq
    (rangeFits : Fits range)
    (hitFits : AllFit hit) :
    remainderBeforeChecked? range hit = some (remainderBefore range hit) := by
  cases hit with
  | nil => rfl
  | cons s rest =>
    have sFits := hitFits s (by simp)
    simp only [remainderBeforeChecked?, remainderBefore, List.head?_cons]
    split
    · rename_i cutOff
      rw [checkedInt64?_of_fits (fitsInt64_pointBefore rangeFits sFits cutOff.2)]
      rfl
    · rfl

theorem remainderAfterChecked?_eq
    (rangeFits : Fits range)
    (hitFits : AllFit hit) :
    remainderAfterChecked? range hit = some (remainderAfter range hit) := by
  unfold remainderAfterChecked? remainderAfter
  cases isLast : hit.getLast? with
  | none => rfl
  | some s =>
    have sFits := hitFits s (List.mem_of_getLast? isLast)
    dsimp only
    split
    · rename_i cutOff
      rw [checkedInt64?_of_fits (fitsInt64_pointAfter rangeFits sFits cutOff.2)]
      rfl
    · rfl

/-! ## Insertion -/

theorem paintChecked?_eq
    (rangeFits : Fits range)
    (fits : AllFit segments) :
    paintChecked? range segments = some (paint range segments) := by
  have hitFits : AllFit
      (overlapped range (segments.drop (entirelyBefore range segments).length)) :=
    fun s member => fits s (List.mem_of_mem_drop ((List.takeWhile_sublist _).subset member))
  simp only [paintChecked?, remainderBeforeChecked?_eq rangeFits hitFits,
    remainderAfterChecked?_eq rangeFits hitFits]
  rfl

/-- Inserting a range of 64 bits keeps all numbers within 64 bits. -/
theorem allFit_insertSegment
    (rangeFits : Fits range)
    (fits : AllFit c.segments) :
    AllFit (c.insertSegment range).segments := by
  intro s member
  have ⟨first, last, weight⟩ := drawnFrom_of_mem_insertSegment s member
  refine ⟨?_, ?_, ?_⟩
  · rcases first with ofRange | ⟨t, inSegments, same⟩ | ⟨afterRange, t, inSegments, cutOff⟩
    · rw [ofRange]
      exact rangeFits.first
    · rw [same]
      exact (fits t inSegments).first
    · rw [afterRange]
      exact fitsInt64_pointAfter rangeFits (fits t inSegments) cutOff
  · rcases last with ofRange | ⟨t, inSegments, same⟩ | ⟨beforeRange, t, inSegments, cutOff⟩
    · rw [ofRange]
      exact rangeFits.last
    · rw [same]
      exact (fits t inSegments).last
    · rw [beforeRange]
      exact fitsInt64_pointBefore rangeFits (fits t inSegments) cutOff
  · rcases weight with ofRange | ⟨t, inSegments, same⟩
    · rw [ofRange]
      exact rangeFits.weight
    · rw [same]
      exact (fits t inSegments).weight

/-- Where 64 bits hold all numbers, no insertion overflows. -/
theorem insertChecked?_eq
    {first last weight : Int}
    (rangeFits : Fits ⟨first, last, weight⟩)
    (fits : AllFit c.segments) :
    c.insertChecked? first last weight = some (c.insert first last weight) := by
  unfold insertChecked? insert
  split
  · rfl
  · rw [paintChecked?_eq rangeFits fits]
    rfl

/-! ## Texts -/

theorem fits_of_segmentOfEntry?
    {entry : List Char}
    {s : Segment}
    (read : segmentOfEntry? entry = some s) :
    Fits s := by
  unfold segmentOfEntry? at read
  split at read
  · have ⟨first, firstRead, rest⟩ := Option.bind_eq_some_iff.mp read
    have ⟨last, lastRead, rest⟩ := Option.bind_eq_some_iff.mp rest
    have ⟨weight, weightRead, made⟩ := Option.bind_eq_some_iff.mp rest
    rw [← Option.some.inj made]
    exact ⟨fitsInt64_of_readInt64? firstRead, fitsInt64_of_readInt64? lastRead,
      fitsInt64_of_readInt64? weightRead⟩
  · cases read

theorem allFit_of_mapM
    {entries : List (List Char)}
    (read : entries.mapM segmentOfEntry? = some segments) :
    AllFit segments := by
  intro s member
  have ⟨entry, _, entryRead⟩ :=
    exists_of_mem_forall₂ ((mapM_eq_some_iff _ _ _).mp read) member
  exact fits_of_segmentOfEntry? entryRead

theorem allFit_foldl_insertSegment
    (added : List Segment)
    (addedFit : AllFit added)
    (fits : AllFit c.segments) :
    AllFit (added.foldl Coverage.insertSegment c).segments := by
  induction added generalizing c with
  | nil => exact fits
  | cons s rest inductionHypothesis =>
    apply inductionHypothesis
    · exact fun t member => addedFit t (List.mem_cons_of_mem s member)
    · exact allFit_insertSegment (addedFit s List.mem_cons_self) fits

theorem allFit_empty
    (deviation : Nat) :
    AllFit (empty deviation).segments := by
  intro s member
  cases member

/-- Whatever a text holds, the coverage read from it is within 64 bits. -/
theorem allFit_ofText
    (text : String)
    (deviation : Nat) :
    AllFit (ofText text deviation).segments := by
  rw [ofText]
  cases read : ofText? text deviation with
  | none => exact allFit_empty deviation
  | some c =>
    rw [Option.getD_some]
    unfold ofText? at read
    split at read
    · rw [← Option.some.inj read]
      exact allFit_empty deviation
    · obtain ⟨segments, entries, checked⟩ := Option.bind_eq_some_iff.mp read
      split at checked
      · rw [← Option.some.inj checked]
        exact allFit_foldl_insertSegment segments (allFit_of_mapM entries) (allFit_empty deviation)
      · cases checked

end Coverage

end UsageBilling

import Mathlib
import UsageBilling.Proofs.Coverage.Insertion
import UsageBilling.Proofs.Text.Integer

/-!
Contract: written coverage is read back.

Owns:
- splitting at a mark as the inverse of joining parts without it;
- an entry is read back if 64 bits hold its numbers, and so is the coverage it
  belongs to;
- different segments are written differently, whatever their numbers.

Does not own: texts that were not written.
-/

namespace UsageBilling

open Text

namespace Coverage

variable {mark : Char} {cs : List Char}

/-! ## Splitting -/

theorem splitAtMark_of_not_mem
    (free : mark ∉ cs) :
    splitAtMark mark cs = [cs] := by
  induction cs with
  | nil => rfl
  | cons c rest inductionHypothesis =>
    simp only [List.mem_cons, not_or] at free
    obtain ⟨differ, restFree⟩ := free
    rw [splitAtMark, if_neg (Ne.symm differ), inductionHypothesis restFree]

theorem splitAtMark_append
    (free : mark ∉ cs)
    (rest : List Char) :
    splitAtMark mark (cs ++ mark :: rest) = cs :: splitAtMark mark rest := by
  induction cs with
  | nil => simp [splitAtMark]
  | cons c others inductionHypothesis =>
    simp only [List.mem_cons, not_or] at free
    obtain ⟨differ, othersFree⟩ := free
    rw [List.cons_append, splitAtMark, if_neg (Ne.symm differ), inductionHypothesis othersFree]

/-- Parts joined by a mark that none of them has are told apart again. -/
theorem splitAtMark_intercalate
    {parts : List (List Char)}
    (some : parts ≠ [])
    (free : ∀ part ∈ parts, mark ∉ part) :
    splitAtMark mark ([mark].intercalate parts) = parts := by
  induction parts with
  | nil => exact absurd rfl some
  | cons part rest inductionHypothesis =>
    simp only [List.mem_cons, forall_eq_or_imp] at free
    cases rest with
    | nil =>
      rw [List.intercalate_singleton]
      exact splitAtMark_of_not_mem free.1
    | cons next others =>
      rw [List.intercalate_cons_cons, List.append_assoc, List.singleton_append,
        splitAtMark_append free.1, inductionHypothesis (List.cons_ne_nil _ _) free.2]

/-! ## Entries -/

def parts (s : Segment) : List (List Char) :=
  [(toString s.first).toList, (toString s.last).toList, (toString s.weight).toList]

theorem toList_toText_segment
    (s : Segment) :
    s.toText.toList = [':'].intercalate (parts s) := by
  simp [Segment.toText, parts, List.intercalate]

theorem mem_parts
    {s : Segment}
    {part : List Char}
    (ofEntry : part ∈ parts s)
    {c : Char}
    (member : c ∈ part) :
    c = '-' ∨ c.isDigit = true := by
  simp only [parts, List.mem_cons, List.not_mem_nil, or_false] at ofEntry
  rcases ofEntry with rfl | rfl | rfl
  · exact mem_toString member
  · exact mem_toString member
  · exact mem_toString member

theorem splitAtMark_toText_segment
    (s : Segment) :
    splitAtMark ':' s.toText.toList = parts s := by
  rw [toList_toText_segment]
  apply splitAtMark_intercalate (List.cons_ne_nil _ _)
  intro part ofEntry member
  rcases mem_parts ofEntry member with isMinus | isDigit
  · exact absurd isMinus (by decide)
  · exact absurd isDigit (by decide)

theorem mem_toText_segment
    {s : Segment}
    {c : Char}
    (member : c ∈ s.toText.toList) :
    c = ':' ∨ c = '-' ∨ c.isDigit = true := by
  rw [toList_toText_segment, parts, List.intercalate_cons_cons, List.intercalate_cons_cons,
    List.intercalate_singleton] at member
  simp only [List.mem_append, List.mem_singleton] at member
  rcases member with (inFirst | isColon) | (inLast | isColon) | inWeight
  · exact Or.inr (mem_toString inFirst)
  · exact Or.inl isColon
  · exact Or.inr (mem_toString inLast)
  · exact Or.inl isColon
  · exact Or.inr (mem_toString inWeight)

theorem isBlank_of_mem_toText_segment
    {s : Segment}
    {c : Char}
    (member : c ∈ s.toText.toList) :
    isBlank c = false := by
  rcases mem_toText_segment member with rfl | rfl | isDigit
  · rfl
  · rfl
  · exact isBlank_of_isDigit isDigit

/-- Whether 64 bits hold each number of a segment. -/
structure Fits (s : Segment) : Prop where
  first : fitsInt64 s.first = true
  last : fitsInt64 s.last = true
  weight : fitsInt64 s.weight = true

theorem Fits.read_toText
    {s : Segment}
    (fits : Fits s) :
    segmentOfEntry? s.toText.toList = some s := by
  have trimmed : trimChars s.toText.toList = s.toText.toList :=
    trimChars_of_no_blanks fun c => isBlank_of_mem_toText_segment
  unfold segmentOfEntry?
  rw [trimmed, splitAtMark_toText_segment]
  simp only [parts, readInt64?_toString fits.first, readInt64?_toString fits.last,
    readInt64?_toString fits.weight, Option.bind_eq_bind, Option.bind_some]

theorem mapM_read_toText
    {segments : List Segment}
    (fits : ∀ s ∈ segments, Fits s) :
    (segments.map fun s => s.toText.toList).mapM segmentOfEntry? = some segments := by
  induction segments with
  | nil => rfl
  | cons s rest inductionHypothesis =>
    simp only [List.mem_cons, forall_eq_or_imp] at fits
    rw [List.map_cons, List.mapM_cons, fits.1.read_toText, inductionHypothesis fits.2]
    rfl

/-- Different segments are written differently, whatever their numbers. -/
theorem toText_segment_injective :
    Function.Injective fun s : Segment => s.toText.toList := by
  intro s t same
  have sameParts : parts s = parts t := by
    rw [← splitAtMark_toText_segment, ← splitAtMark_toText_segment]
    exact congrArg (splitAtMark ':') same
  simp only [parts, List.cons.injEq, and_true, String.toList_inj, Int.toString_eq_repr,
    Int.repr_inj] at sameParts
  obtain ⟨first, last, weight⟩ := sameParts
  cases s
  cases t
  simp only [Segment.mk.injEq]
  exact ⟨first, last, weight⟩

/-! ## Coverage -/

theorem toList_toText
    (c : Coverage) :
    c.toText.toList = [';'].intercalate (c.segments.map fun s => s.toText.toList) := by
  rw [toText, String.toList_intercalate, List.map_map]
  rfl

theorem splitAtMark_toText
    {c : Coverage}
    (some : c.segments ≠ []) :
    splitAtMark ';' c.toText.toList = c.segments.map fun s => s.toText.toList := by
  rw [toList_toText]
  apply splitAtMark_intercalate
  · simpa using some
  · intro entry ofSegment member
    obtain ⟨s, _, rfl⟩ := List.mem_map.mp ofSegment
    rcases mem_toText_segment member with isColon | isMinus | isDigit
    · exact absurd isColon (by decide)
    · exact absurd isMinus (by decide)
    · exact absurd isDigit (by decide)

theorem inOrder_of_ordered
    {segments : List Segment}
    (ordered : Ordered segments)
    {previousEnd : Option Int}
    (above : ∀ s ∈ segments, ∀ e ∈ previousEnd, e < s.first) :
    inOrder previousEnd segments = true := by
  induction segments generalizing previousEnd with
  | nil => rfl
  | cons s rest inductionHypothesis =>
    obtain ⟨inhabited, below, orderedRest⟩ := (ordered_cons_iff _ _).mp ordered
    have restInOrder : inOrder (some s.last) rest = true :=
      inductionHypothesis orderedRest (by simpa using below)
    have sAbove : previousEnd.all (fun e => decide (e < s.first)) = true := by
      cases previousEnd with
      | none => rfl
      | some e => simpa using above s (by simp) e rfl
    simp only [inOrder, inhabited, sAbove, restInOrder, decide_true, Bool.and_self]

theorem foldl_insertSegment_of_wellKept
    {deviation : Nat}
    {left right : List Segment}
    (wellKept : WellKept deviation (left ++ right)) :
    right.foldl insertSegment ⟨deviation, left⟩ = ⟨deviation, left ++ right⟩ := by
  induction right generalizing left with
  | nil => simp
  | cons s rest inductionHypothesis =>
    have split : left ++ s :: rest = (left ++ [s]) ++ rest := by simp
    rw [split] at wellKept ⊢
    have upToS := ((wellKept_append_iff _ _).mp wellKept).1
    have inserted := insertSegment_of_wellKept upToS
    rw [List.append_nil] at inserted
    rw [List.foldl_cons, inserted]
    exact inductionHypothesis wellKept

theorem isBlankText_toText
    {c : Coverage}
    (some : c.segments ≠ []) :
    isBlankText c.toText = false := by
  obtain ⟨s, rest, segments⟩ := List.exists_cons_of_ne_nil some
  have colon : ':' ∈ c.toText.toList := by
    have inEntry : ':' ∈ s.toText.toList := by
      simp [Segment.toText]
    rw [toList_toText, segments, List.map_cons]
    cases rest with
    | nil => simpa using inEntry
    | cons t others =>
      rw [List.map_cons, List.intercalate_cons_cons, List.append_assoc]
      exact List.mem_append_left _ inEntry
  exact List.all_eq_false.mpr ⟨':', colon, by decide⟩

/-- Reading back inserts the segments of kept coverage one by one, whatever the
deviation. -/
theorem Kept.ofText_toText_eq_foldl
    {c : Coverage}
    (kept : c.Kept)
    (fits : ∀ s ∈ c.segments, Fits s)
    (deviation : Nat) :
    ofText c.toText deviation = c.segments.foldl Coverage.insertSegment (empty deviation) := by
  by_cases none : c.segments = []
  · have written : c.toText = "" := by
      rw [toText, none]
      rfl
    rw [written, none]
    rfl
  · have entries : (splitAtMark ';' c.toText.toList).mapM segmentOfEntry? = some c.segments := by
      rw [splitAtMark_toText none]
      exact mapM_read_toText fits
    have ordered : inOrder Option.none c.segments = true :=
      inOrder_of_ordered kept.ordered (by simp)
    rw [ofText, ofText?, isBlankText_toText none]
    simp only [entries, Option.bind_eq_bind, Option.bind_some, ordered, Bool.false_eq_true,
      if_false, if_true, Option.getD_some]

/-- Kept coverage whose numbers 64 bits hold is read back. -/
theorem Kept.ofText_toText
    {c : Coverage}
    (kept : c.Kept)
    (fits : ∀ s ∈ c.segments, Fits s) :
    ofText c.toText c.deviation = c := by
  have wellKept : WellKept c.deviation ([] ++ c.segments) := kept.wellKept
  rw [kept.ofText_toText_eq_foldl fits]
  exact foldl_insertSegment_of_wellKept wellKept

/-- Coverage with different segments is written differently, whatever their
numbers. -/
theorem segments_eq_of_toText_eq
    {c c' : Coverage}
    (same : c.toText = c'.toText) :
    c.segments = c'.segments := by
  by_cases none : c.segments = []
  · by_cases none' : c'.segments = []
    · rw [none, none']
    · have notBlank := isBlankText_toText none'
      rw [← same, toText, none] at notBlank
      exact absurd notBlank (by decide)
  · by_cases none' : c'.segments = []
    · have notBlank := isBlankText_toText none
      rw [same, toText, none'] at notBlank
      exact absurd notBlank (by decide)
    · have sameEntries := splitAtMark_toText none
      rw [same, splitAtMark_toText none'] at sameEntries
      exact (List.map_injective_iff.mpr toText_segment_injective sameEntries).symm

end Coverage

end UsageBilling

import UsageBilling.Proofs.Coverage.Calls
import UsageBilling.Proofs.Coverage.Commutation
import UsageBilling.Proofs.Traversal

/-!
Contract: any text read as coverage.

Owns:
- what an entry of a text stands for, and the faults that entries can have;
- a text with a fault covers nothing, and every other text something;
- written coverage read with another deviation: what was covered, and the gaps
  between neighbours of one weight that are not wider than that deviation;
- reading and writing in turn.

Does not own: where texts come from.
-/

namespace UsageBilling

open Text

namespace Text

/-! ## Integers of a text -/

theorem isDigit_of_digit?
    {c : Char}
    {value : Nat}
    (read : digit? c = some value) :
    c.isDigit = true := by
  unfold digit? at read
  split at read
  · rename_i bounds
    rw [isDigit_iff]
    simpa using bounds
  · cases read

theorem isDigit_of_natural?
    {cs : List Char}
    {value : Nat}
    (read : natural? cs = some value) :
    ∀ c ∈ cs, c.isDigit = true := by
  have ofFold : ∀ (cs : List Char) (start value : Nat),
      cs.foldlM (fun value c => (digit? c).map (10 * value + ·)) start = some value →
        ∀ c ∈ cs, c.isDigit = true := by
    intro cs
    induction cs with
    | nil =>
      intro start value _ c member
      cases member
    | cons head rest inductionHypothesis =>
      intro start value folded c member
      rw [List.foldlM_cons, Option.bind_eq_bind, Option.bind_eq_some_iff] at folded
      have ⟨next, first, later⟩ := folded
      have ⟨digit, ofHead, _⟩ := Option.map_eq_some_iff.mp first
      rcases List.mem_cons.mp member with isHead | inRest
      · exact isHead ▸ isDigit_of_digit? ofHead
      · exact inductionHypothesis next value later c inRest
  unfold natural? at read
  split at read
  · cases read
  · exact ofFold cs 0 value read

/-- An integer of a text has digits after at most one sign. -/
theorem mem_of_readInt64?
    {cs : List Char}
    {n : Int}
    (read : readInt64? cs = some n)
    {c : Char}
    (member : c ∈ cs) :
    c = '-' ∨ c = '+' ∨ c.isDigit = true := by
  have signed : ∀ (sign : Char) (digits : List Char) (value : Nat),
      natural? digits = some value → c ∈ sign :: digits → c = sign ∨ c.isDigit = true := by
    intro sign digits value ofDigits inSigned
    exact (List.mem_cons.mp inSigned).imp id fun inDigits =>
      isDigit_of_natural? ofDigits c inDigits
  unfold readInt64? at read
  split at read
  · have ⟨_, ofText, _⟩ := Option.bind_eq_some_iff.mp read
    have ⟨value, ofDigits, _⟩ := Option.map_eq_some_iff.mp ofText
    have ⟨digits, isNatural, _⟩ := Option.bind_eq_some_iff.mp ofDigits
    exact (signed _ _ digits isNatural member).imp id Or.inr
  · have ⟨_, ofText, _⟩ := Option.bind_eq_some_iff.mp read
    have ⟨value, ofDigits, _⟩ := Option.map_eq_some_iff.mp ofText
    exact Or.inr (signed _ _ value ofDigits member)
  · have ⟨_, ofText, _⟩ := Option.bind_eq_some_iff.mp read
    have ⟨value, ofDigits, _⟩ := Option.map_eq_some_iff.mp ofText
    exact Or.inr (Or.inr (isDigit_of_natural? ofDigits c member))

theorem colon_not_mem_of_readInt64?
    {cs : List Char}
    {n : Int}
    (read : readInt64? cs = some n) :
    ':' ∉ cs := by
  intro member
  rcases mem_of_readInt64? read member with isMinus | isPlus | isDigit
  · exact absurd isMinus (by decide)
  · exact absurd isPlus (by decide)
  · exact absurd isDigit (by decide)

end Text

namespace Coverage

variable {c : Coverage} {segments left : List Segment} {deviation : Nat} {point weight : Int}
  {mark : Char} {cs entry : List Char} {s t : Segment}

/-! ## Parts of a text -/

theorem splitAtMark_ne_nil
    (mark : Char)
    (cs : List Char) :
    splitAtMark mark cs ≠ [] := by
  cases cs with
  | nil => exact List.cons_ne_nil _ _
  | cons c rest =>
    rw [splitAtMark]
    split
    · exact List.cons_ne_nil _ _
    · split
      · exact List.cons_ne_nil _ _
      · exact List.cons_ne_nil _ _

/-- The parts of a text have no mark, and with marks between them they are the
text again. -/
theorem splitAtMark_parts
    (mark : Char)
    (cs : List Char) :
    (∀ part ∈ splitAtMark mark cs, mark ∉ part) ∧
      [mark].intercalate (splitAtMark mark cs) = cs := by
  induction cs with
  | nil => simp [splitAtMark]
  | cons c rest inductionHypothesis =>
    obtain ⟨free, joined⟩ := inductionHypothesis
    cases parts : splitAtMark mark rest with
    | nil => exact absurd parts (splitAtMark_ne_nil mark rest)
    | cons part others =>
      rw [parts] at free joined
      rw [splitAtMark, parts]
      by_cases isMark : c = mark
      · rw [if_pos isMark, List.intercalate_cons_cons, joined, isMark]
        refine ⟨?_, rfl⟩
        intro other member
        rcases List.mem_cons.mp member with isEmpty | inParts
        · rw [isEmpty]
          exact List.not_mem_nil
        · exact free other inParts
      · rw [if_neg isMark]
        simp only [List.mem_cons, forall_eq_or_imp, not_or] at free ⊢
        refine ⟨⟨⟨Ne.symm isMark, free.1⟩, free.2⟩, ?_⟩
        cases others with
        | nil =>
          rw [List.intercalate_singleton] at joined ⊢
          rw [joined]
        | cons next others =>
          rw [List.intercalate_cons_cons] at joined ⊢
          rw [List.cons_append, List.cons_append, joined]

/-! ## Entries -/

/-- Whether an entry stands for a segment: three integers of 64 bits with colons
between them, and blanks around the whole. -/
def ReadsAs (entry : List Char) (s : Segment) : Prop :=
  ∃ first last weight, trimChars entry = first ++ ':' :: (last ++ ':' :: weight) ∧
    readInt64? first = some s.first ∧ readInt64? last = some s.last ∧
    readInt64? weight = some s.weight

theorem segmentOfEntry?_eq_some_iff
    (entry : List Char)
    (s : Segment) :
    segmentOfEntry? entry = some s ↔ ReadsAs entry s := by
  constructor
  · intro read
    unfold segmentOfEntry? at read
    split at read
    · rename_i first last weight parts
      have ⟨_, joined⟩ := splitAtMark_parts ':' (trimChars entry)
      rw [parts, List.intercalate_cons_cons, List.intercalate_cons_cons,
        List.intercalate_singleton] at joined
      simp only [Option.bind_eq_bind, Option.bind_eq_some_iff, Option.some.injEq] at read
      have ⟨firstValue, ofFirst, lastValue, ofLast, weightValue, ofWeight, made⟩ := read
      rw [← made]
      exact ⟨first, last, weight, by rw [← joined]; simp, ofFirst, ofLast, ofWeight⟩
    · cases read
  · intro ⟨first, last, weight, written, ofFirst, ofLast, ofWeight⟩
    have parts : splitAtMark ':' (trimChars entry) = [first, last, weight] := by
      rw [written, splitAtMark_append (colon_not_mem_of_readInt64? ofFirst),
        splitAtMark_append (colon_not_mem_of_readInt64? ofLast),
        splitAtMark_of_not_mem (colon_not_mem_of_readInt64? ofWeight)]
    unfold segmentOfEntry?
    rw [parts]
    simp only [ofFirst, ofLast, ofWeight, Option.bind_eq_bind, Option.bind_some]

/-- The entries of a text: what stands between its semicolons. -/
structure Divides (entries : List (List Char)) (text : String) : Prop where
  some : entries ≠ []
  free : ∀ entry ∈ entries, ';' ∉ entry
  joined : text.toList = [';'].intercalate entries

/-- What can be wrong with entries: one does not stand for a segment, one stands
for a segment that ends before it begins, or one begins at or before the end of the
entry before it. -/
inductive Faulty (entries : List (List Char)) : Prop where
  | unread {entry : List Char} (member : entry ∈ entries)
      (unread : ∀ s, ¬ ReadsAs entry s)
  | inverted {entry : List Char} {s : Segment} (member : entry ∈ entries)
      (reads : ReadsAs entry s) (inverted : s.last < s.first)
  | crowded {before after : List (List Char)} {entry next : List Char} {s t : Segment}
      (placed : entries = before ++ entry :: next :: after) (reads : ReadsAs entry s)
      (readsNext : ReadsAs next t) (early : t.first ≤ s.last)

theorem exists_divides
    (text : String) :
    ∃ entries, Divides entries text := by
  have ⟨free, joined⟩ := splitAtMark_parts ';' text.toList
  exact ⟨_, splitAtMark_ne_nil ';' text.toList, free, joined.symm⟩

theorem Divides.splitAtMark_eq
    {entries : List (List Char)}
    {text : String}
    (divides : Divides entries text) :
    splitAtMark ';' text.toList = entries := by
  rw [divides.joined]
  exact splitAtMark_intercalate divides.some divides.free

theorem inOrder_iff_isChain
    (previousEnd : Option Int)
    (segments : List Segment) :
    inOrder previousEnd segments = true ↔
      (∀ s ∈ segments, s.first ≤ s.last) ∧
        segments.IsChain (fun s next => s.last < next.first) ∧
        ∀ e ∈ previousEnd, ∀ s ∈ segments.head?, e < s.first := by
  induction segments generalizing previousEnd with
  | nil => simp [inOrder]
  | cons s rest inductionHypothesis =>
    rw [inOrder, Bool.and_eq_true, Bool.and_eq_true, inductionHypothesis, List.isChain_cons]
    simp only [decide_eq_true_eq, List.mem_cons, forall_eq_or_imp, List.head?_cons,
      Option.mem_def, Option.some.injEq, forall_eq']
    have above : (previousEnd.all fun e => decide (e < s.first)) = true ↔
        ∀ e, previousEnd = some e → e < s.first := by
      cases previousEnd <;> simp
    rw [above]
    tauto

/-! ## Faults -/

theorem ReadsAs.unique
    (reads : ReadsAs entry s)
    (readsToo : ReadsAs entry t) :
    s = t := by
  rw [← segmentOfEntry?_eq_some_iff] at reads readsToo
  exact Option.some.inj (reads.symm.trans readsToo)

/-- The segments that entries stand for, if each stands for one. -/
theorem mapM_segmentOfEntry?_eq_some_iff
    (entries : List (List Char))
    (segments : List Segment) :
    entries.mapM segmentOfEntry? = some segments ↔ List.Forall₂ ReadsAs entries segments := by
  simp only [mapM_eq_some_iff, segmentOfEntry?_eq_some_iff]

theorem not_faulty_of_inOrder
    {entries : List (List Char)}
    (reads : List.Forall₂ ReadsAs entries segments)
    (ordered : inOrder none segments = true) :
    ¬ Faulty entries := by
  have ⟨inhabited, ascending, _⟩ := (inOrder_iff_isChain none segments).mp ordered
  intro faulty
  cases faulty with
  | unread member unread =>
    have ⟨s, _, readsEntry⟩ := exists_of_mem_forall₂ reads.flip member
    exact unread s readsEntry
  | inverted member readsEntry inverted =>
    have ⟨s, inSegments, readsToo⟩ := exists_of_mem_forall₂ reads.flip member
    have notInverted := inhabited s inSegments
    rw [← readsEntry.unique readsToo] at notInverted
    omega
  | crowded placed readsEntry readsNext early =>
    rw [placed] at reads
    have ⟨left, s, t, right, split, readsToo, readsNextToo⟩ := exists_neighbours_of_forall₂ reads
    have below := List.isChain_iff_forall_rel_of_append_cons_cons.mp ascending split
    rw [← readsEntry.unique readsToo, ← readsNext.unique readsNextToo] at below
    omega

theorem exists_inOrder_of_not_faulty
    {entries : List (List Char)}
    (faultless : ¬ Faulty entries) :
    ∃ segments, List.Forall₂ ReadsAs entries segments ∧ inOrder none segments = true := by
  have ⟨segments, read⟩ : ∃ segments, entries.mapM segmentOfEntry? = some segments := by
    apply exists_mapM_eq_some
    intro entry member
    simp only [segmentOfEntry?_eq_some_iff]
    by_contra unread
    exact faultless (.unread member (not_exists.mp unread))
  have reads := (mapM_segmentOfEntry?_eq_some_iff entries segments).mp read
  refine ⟨segments, reads, (inOrder_iff_isChain none segments).mpr ⟨?_, ?_, ?_⟩⟩
  · intro s member
    have ⟨entry, inEntries, readsEntry⟩ := exists_of_mem_forall₂ reads member
    exact Int.not_lt.mp fun inverted => faultless (.inverted inEntries readsEntry inverted)
  · apply List.isChain_iff_forall_rel_of_append_cons_cons.mpr
    intro s t left right split
    rw [split] at reads
    have ⟨before, entry, next, after, placed, readsEntry, readsNext⟩ :=
      exists_neighbours_of_forall₂ reads.flip
    exact Int.not_le.mp fun early => faultless (.crowded placed readsEntry readsNext early)
  · intro e isPrevious
    cases isPrevious

/-! ## Texts -/

theorem mem_of_mem_trimChars
    {c : Char}
    (member : c ∈ trimChars cs) :
    c ∈ cs := by
  have reversed := List.mem_reverse.mp member
  have inStart := (List.dropWhile_suffix isBlank).subset reversed
  exact (List.dropWhile_suffix isBlank).subset (List.mem_reverse.mp inStart)

/-- A blank text has an entry that does not stand for a segment. -/
theorem faulty_of_blank
    {entries : List (List Char)}
    {text : String}
    (divides : Divides entries text)
    (blank : isBlankText text = true) :
    Faulty entries := by
  have ⟨entry, rest, isFirst⟩ := List.exists_cons_of_ne_nil divides.some
  have member : entry ∈ entries := by
    rw [isFirst]
    exact List.mem_cons_self
  apply Faulty.unread member
  intro s ⟨first, last, weight, written, _⟩
  have inEntry : ':' ∈ entry := by
    apply mem_of_mem_trimChars
    rw [written]
    exact List.mem_append_right _ List.mem_cons_self
  have inText : ':' ∈ text.toList := by
    rw [divides.joined, isFirst]
    cases rest with
    | nil => rwa [List.intercalate_singleton]
    | cons next others =>
      rw [List.intercalate_cons_cons, List.append_assoc]
      exact List.mem_append_left _ inEntry
  have isBlank : isBlank ':' = true := List.all_eq_true.mp blank ':' inText
  exact absurd isBlank (by decide)

theorem ofText_of_faulty
    {entries : List (List Char)}
    {text : String}
    (divides : Divides entries text)
    (faulty : Faulty entries) :
    ofText text deviation = empty deviation := by
  rw [ofText, ofText?, divides.splitAtMark_eq]
  split
  · rfl
  · cases read : entries.mapM segmentOfEntry? with
    | none => rfl
    | some segments =>
      have reads := (mapM_segmentOfEntry?_eq_some_iff entries segments).mp read
      have disordered : ¬ inOrder none segments = true := fun ordered =>
        not_faulty_of_inOrder reads ordered faulty
      simp only [Option.bind_eq_bind, Option.bind_some, if_neg disordered, Option.getD_none]

theorem ofText_of_inOrder
    {entries : List (List Char)}
    {text : String}
    (divides : Divides entries text)
    (reads : List.Forall₂ ReadsAs entries segments)
    (ordered : inOrder none segments = true) :
    ofText text deviation = segments.foldl insertSegment (empty deviation) := by
  have read := (mapM_segmentOfEntry?_eq_some_iff entries segments).mpr reads
  have written : ¬ isBlankText text = true := fun blank =>
    not_faulty_of_inOrder reads ordered (faulty_of_blank divides blank)
  rw [ofText, ofText?, divides.splitAtMark_eq, if_neg written, read]
  simp only [Option.bind_eq_bind, Option.bind_some, if_pos ordered, Option.getD_some]

/-- Inserting segments, of which there is one, covers something. -/
theorem foldl_insertSegment_ne_empty
    (inhabited : ∀ s ∈ segments, s.first ≤ s.last)
    (some : segments ≠ []) :
    segments.foldl insertSegment (empty deviation) ≠ empty deviation := by
  intro isEmpty
  have ⟨others, s, split⟩ := List.eq_nil_or_concat segments |>.resolve_left some
  rw [split, List.concat_eq_append] at inhabited
  rw [split, List.concat_eq_append, List.foldl_append, List.foldl_cons, List.foldl_nil] at isEmpty
  have ⟨kept, _⟩ := (kept_empty deviation).foldl_insertSegment others fun t member =>
    inhabited t (List.mem_append_left _ member)
  have sInhabited := inhabited s (List.mem_append_right _ List.mem_cons_self)
  have weighs := kept.weighs_insertSegment_of_within sInhabited ⟨Int.le_refl _, sInhabited⟩
  rw [isEmpty] at weighs
  exact spans_nil _ _ _ weighs

/-- A text covers nothing exactly if it has a fault. -/
theorem ofText_eq_empty_iff
    {entries : List (List Char)}
    {text : String}
    (divides : Divides entries text)
    (deviation : Nat) :
    ofText text deviation = empty deviation ↔ Faulty entries := by
  constructor
  · intro isEmpty
    by_contra faultless
    have ⟨segments, reads, ordered⟩ := exists_inOrder_of_not_faulty faultless
    rw [ofText_of_inOrder divides reads ordered] at isEmpty
    apply foldl_insertSegment_ne_empty (inhabited_of_inOrder ordered) ?_ isEmpty
    intro none
    rw [none, List.forall₂_nil_right_iff] at reads
    exact divides.some reads
  · exact ofText_of_faulty divides

/-! ## Another deviation -/

/-- Whether a point lies between two neighbours among segments that have one
weight and are not farther apart than a deviation. -/
def FillsGap (deviation : Nat) (segments : List Segment) (point weight : Int) : Prop :=
  ∃ before s t after, segments = before ++ s :: t :: after ∧ s.weight = weight ∧
    t.weight = weight ∧ s.gapTo t ≤ (deviation : Int) ∧ s.last < point ∧ point < t.first

theorem lt_of_weighs_or_fillsGap
    (ordered : Ordered segments)
    {bound : Int}
    (below : ∀ s ∈ segments, s.last < bound)
    (covered : Weighs segments point weight ∨ FillsGap deviation segments point weight) :
    point < bound := by
  rcases covered with ⟨s, member, _, upper, _⟩ | ⟨before, s, t, after, split, _, _, _, _, upper⟩
  · have := below s member
    omega
  · have member : t ∈ segments := by
      rw [split]
      simp
    have := below t member
    have := ordered.inhabited t member
    omega

/-- The gaps between the segments before the last, and the gap before the last. -/
theorem fillsGap_append_singleton_iff
    (segments : List Segment)
    (next : Segment) :
    FillsGap deviation (segments ++ [next]) point weight ↔
      FillsGap deviation segments point weight ∨
        ∃ before s, segments = before ++ [s] ∧ s.weight = weight ∧ next.weight = weight ∧
          s.gapTo next ≤ (deviation : Int) ∧ s.last < point ∧ point < next.first := by
  constructor
  · intro ⟨before, s, t, after, split, sWeight, tWeight, narrow, lower, upper⟩
    rcases List.eq_nil_or_concat after with none | ⟨others, last, some⟩
    · have ends : segments ++ [next] = (before ++ [s]) ++ [t] := by
        rw [split, none]
        simp
      have ⟨isBefore, isNext⟩ := List.append_inj' ends rfl
      have isNext : next = t := List.head_eq_of_cons_eq isNext
      rw [isNext]
      exact Or.inr ⟨before, s, isBefore, sWeight, tWeight, narrow, lower, upper⟩
    · have ends : segments ++ [next] = (before ++ s :: t :: others) ++ [last] := by
        rw [split, some]
        simp
      have isBefore := List.append_inj_left' ends rfl
      exact Or.inl ⟨before, s, t, others, isBefore, sWeight, tWeight, narrow, lower, upper⟩
  · intro fills
    rcases fills with ⟨before, s, t, after, split, gap⟩ | ⟨before, s, split, gap⟩
    · exact ⟨before, s, t, after ++ [next], by rw [split]; simp, gap⟩
    · exact ⟨before, s, next, [], by rw [split]; simp, gap⟩

/-- Inserting a segment after all that is covered paints it, and fills the gap
before it if the deviation bridges that gap. -/
theorem Kept.weighs_insertSegment_after
    (kept : c.Kept)
    (inhabited : s.first ≤ s.last)
    (after : ∀ point weight, Weighs c.segments point weight → point < s.first)
    (point weight : Int) :
    Weighs (c.insertSegment s).segments point weight ↔
      Weighs c.segments point weight ∨ (Within s point ∧ s.weight = weight) ∨
        ∃ last, Weighs c.segments last weight ∧ s.weight = weight ∧
          s.first - last ≤ c.deviation ∧ last < point ∧ point < s.first ∧
          ∀ between weight, Weighs c.segments between weight → between ≤ last := by
  rw [kept.weighs_insertSegment inhabited]
  constructor
  · intro weighs
    rcases weighs with painted | ⟨left, right, lower, upper, gap⟩
    · by_cases within : Within s point
      · exact Or.inr (Or.inl ⟨within, (Colouring.paint_of_within within).mp painted⟩)
      · exact Or.inl ((Colouring.paint_of_not_within within).mp painted)
    · have ⟨sWeight, atEnd⟩ := kept.gapless.ends_of_gap_paint (by omega) gap
      -- Nothing is covered after the segment, so that the gap is the one before it.
      have atFirst : right = s.first := by
        rcases atEnd with atLast | atFirst
        · have beyond : ¬ Within s right := by
            simp only [Within]
            omega
          have := after right weight ((Colouring.paint_of_not_within beyond).mp gap.weighsAfter)
          omega
        · exact atFirst
      have ahead : ∀ p, p < s.first → ¬ Within s p := by
        simp only [Within]
        omega
      have leftAhead := ahead left (by omega)
      have narrow := gap.narrow
      refine Or.inr (Or.inr ⟨left, (Colouring.paint_of_not_within leftAhead).mp gap.weighsBefore,
        sWeight, by omega, lower, by omega, ?_⟩)
      intro between other weighs
      have early := after between other weighs
      apply Int.not_lt.mp
      intro inside
      exact gap.uncovered between inside (by omega) other
        ((Colouring.paint_of_not_within (ahead between early)).mpr weighs)
  · intro weighs
    rcases weighs with weighs | ⟨within, sWeight⟩ |
      ⟨last, weighs, sWeight, narrow, lower, upper, greatest⟩
    · have early := after point weight weighs
      have outside : ¬ Within s point := by
        simp only [Within]
        omega
      exact Or.inl ((Colouring.paint_of_not_within outside).mpr weighs)
    · exact Or.inl ((Colouring.paint_of_within within).mpr sWeight)
    · have ahead : ∀ p, p < s.first → ¬ Within s p := by
        simp only [Within]
        omega
      refine Or.inr ⟨last, s.first, lower, upper, narrow,
        (Colouring.paint_of_not_within (ahead last (by omega))).mpr weighs,
        (Colouring.paint_of_within ⟨Int.le_refl _, inhabited⟩).mpr sWeight, ?_⟩
      intro between above below other painted
      have := greatest between other
        ((Colouring.paint_of_not_within (ahead between below)).mp painted)
      omega

/-- The last point covered, if the gaps between segments are filled, is the end of
the last segment. -/
theorem Kept.greatest_iff
    (kept : c.Kept)
    (ordered : Ordered segments)
    (covers : ∀ point weight, Weighs c.segments point weight ↔
      Weighs segments point weight ∨ FillsGap deviation segments point weight)
    (last weight : Int) :
    Weighs c.segments last weight ∧
        (∀ between other, Weighs c.segments between other → between ≤ last) ↔
      ∃ before s, segments = before ++ [s] ∧ s.weight = weight ∧ s.last = last := by
  have atEnd : ∀ before s, segments = before ++ [s] →
      Weighs c.segments s.last s.weight ∧
        ∀ between other, Weighs c.segments between other → between ≤ s.last := by
    intro before s split
    have member : s ∈ segments := by
      rw [split]
      simp
    refine ⟨(covers s.last s.weight).mpr (Or.inl ⟨s, member, ordered.inhabited s member,
      Int.le_refl _, rfl⟩), ?_⟩
    intro between other weighs
    apply Int.le_of_lt_add_one
    apply lt_of_weighs_or_fillsGap ordered ?_ ((covers between other).mp weighs)
    intro t inSegments
    rw [split] at ordered inSegments
    rcases List.mem_append.mp inSegments with inBefore | isLast
    · have ⟨_, lastOrdered, below⟩ := (ordered_append_iff before [s]).mp ordered
      have := below t inBefore s List.mem_cons_self
      have := lastOrdered.inhabited s List.mem_cons_self
      omega
    · rw [List.mem_singleton.mp isLast]
      omega
  constructor
  · intro ⟨weighs, greatest⟩
    have some : segments ≠ [] := by
      intro none
      have covered := (covers last weight).mp weighs
      rw [none] at covered
      simp [FillsGap] at covered
    have ⟨before, s, split⟩ := (List.eq_nil_or_concat segments).resolve_left some
    rw [List.concat_eq_append] at split
    have ⟨ofEnd, atMost⟩ := atEnd before s split
    have sameEnd : s.last = last :=
      Int.le_antisymm (greatest s.last s.weight ofEnd) (atMost last weight weighs)
    rw [sameEnd] at ofEnd
    exact ⟨before, s, split, kept.functional last _ _ ofEnd weighs, sameEnd⟩
  · intro ⟨before, s, split, sWeight, sLast⟩
    rw [← sWeight, ← sLast]
    exact atEnd before s split

/-- Inserting ordered segments covers what they cover, and fills the gaps between
them that the deviation bridges. -/
theorem weighs_foldl_insertSegment_iff
    (ordered : Ordered segments)
    (point weight : Int) :
    Weighs (segments.foldl insertSegment (empty deviation)).segments point weight ↔
      Weighs segments point weight ∨ FillsGap deviation segments point weight := by
  induction segments using List.reverseRecOn generalizing point weight with
  | nil => simp [FillsGap, empty]
  | append_singleton others next inductionHypothesis =>
    obtain ⟨othersOrdered, nextOrdered, below⟩ := (ordered_append_iff others [next]).mp ordered
    have nextInhabited := nextOrdered.inhabited next List.mem_cons_self
    have belowNext : ∀ s ∈ others, s.last < next.first := fun s member =>
      below s member next List.mem_cons_self
    obtain ⟨kept, sameDeviation⟩ :=
      (kept_empty deviation).foldl_insertSegment others othersOrdered.inhabited
    have covers := inductionHypothesis othersOrdered
    have early : ∀ p w, Weighs (others.foldl insertSegment (empty deviation)).segments p w →
        p < next.first := fun p w weighs =>
      lt_of_weighs_or_fillsGap othersOrdered belowNext ((covers p w).mp weighs)
    have atNext : Weighs (others ++ [next]) point weight ↔
        Weighs others point weight ∨ (Within next point ∧ next.weight = weight) := by
      simp only [Weighs, spans_append, spans_cons, spans_nil, or_false, Within, and_assoc]
    rw [List.foldl_append, List.foldl_cons, List.foldl_nil,
      kept.weighs_insertSegment_after nextInhabited early, sameDeviation, atNext,
      fillsGap_append_singleton_iff, covers]
    have beforeNext := kept.greatest_iff othersOrdered covers
    constructor
    · intro covered
      rcases covered with (weighs | fills) | painted |
        ⟨last, weighs, nextWeight, narrow, lower, upper, greatest⟩
      · exact Or.inl (Or.inl weighs)
      · exact Or.inr (Or.inl fills)
      · exact Or.inl (Or.inr painted)
      · obtain ⟨before, s, split, sWeight, sLast⟩ := (beforeNext last weight).mp ⟨weighs, greatest⟩
        rw [← sLast] at narrow lower
        exact Or.inr (Or.inr ⟨before, s, split, sWeight, nextWeight, narrow, lower, upper⟩)
    · intro covered
      rcases covered with (weighs | painted) | fills |
        ⟨before, s, split, sWeight, nextWeight, narrow, lower, upper⟩
      · exact Or.inl (Or.inl weighs)
      · exact Or.inr (Or.inl painted)
      · exact Or.inl (Or.inr fills)
      · obtain ⟨weighs, greatest⟩ :=
          (beforeNext s.last weight).mpr ⟨before, s, split, sWeight, rfl⟩
        exact Or.inr (Or.inr ⟨s.last, weighs, nextWeight, narrow, lower, upper, greatest⟩)

/-! ## Reading and writing -/

/-- What is written of kept coverage and read with a deviation: what was covered
and the gaps that the deviation bridges, with their weights. -/
theorem Kept.weightAt?_ofText_toText_iff
    (kept : c.Kept)
    (fits : ∀ s ∈ c.segments, Fits s)
    (deviation : Nat)
    (point weight : Int) :
    (ofText c.toText deviation).weightAt? point = some weight ↔
      c.weightAt? point = some weight ∨ FillsGap deviation c.segments point weight := by
  rw [weightAt?_eq_some_iff (kept_ofText c.toText deviation).1.ordered,
    weightAt?_eq_some_iff kept.ordered, kept.ofText_toText_eq_foldl fits]
  exact weighs_foldl_insertSegment_iff kept.ordered point weight

/-- Coverage that calls of 64 bits have reached is written and read back as it is;
read with another deviation it has the gaps filled that this one bridges. A text
with a fault covers nothing and any other text something, and what a text covers is
written and read back as it is. -/
theorem ofText_toText_of_reached
    (deviation : Nat)
    (origin : Origin)
    (calls : List Call)
    (callsFit : ∀ call ∈ calls, Fits call.range) :
    ofText (reached deviation origin calls).toText deviation = reached deviation origin calls ∧
      (∀ other point weight,
        (ofText (reached deviation origin calls).toText other).weightAt? point = some weight ↔
          (reached deviation origin calls).weightAt? point = some weight ∨
            FillsGap other (reached deviation origin calls).segments point weight) ∧
      (∀ text, (∃ entries, Divides entries text) ∧ ∀ entries, Divides entries text →
        (ofText text deviation = empty deviation ↔ Faulty entries)) ∧
      ∀ text, ofText (ofText text deviation).toText deviation = ofText text deviation := by
  have ⟨kept, sameDeviation⟩ := kept_reached deviation origin calls
  have fits := allFit_reached deviation origin callsFit
  refine ⟨?_, kept.weightAt?_ofText_toText_iff fits, ?_, ?_⟩
  · have readBack := kept.ofText_toText fits
    rwa [sameDeviation] at readBack
  · exact fun text =>
      ⟨exists_divides text, fun entries divides => ofText_eq_empty_iff divides deviation⟩
  · intro text
    have ⟨textKept, ofDeviation⟩ := kept_ofText text deviation
    have readBack := textKept.ofText_toText (allFit_ofText text deviation)
    rwa [ofDeviation] at readBack

/-- Two segments of one weight with the gap 10 to 19 between them, read with a
deviation that bridges it; and a text with an entry that ends before it begins. -/
theorem readBack_with_wider_deviation :
    (∀ call ∈ [Call.addRange 20 29 7], Fits call.range) ∧
      (ofText (reached 1 (.text "0:9:7") [.addRange 20 29 7]).toText 11).weightAt? 15 = some 7 ∧
      ofText "0:9:7;29:20:7" 1 = empty 1 := by
  have callsFit : ∀ call ∈ [Call.addRange 20 29 7], Fits call.range := by
    intro call member
    rw [List.mem_singleton.mp member]
    exact ⟨rfl, rfl, rfl⟩
  have ⟨_, others, texts, _⟩ := ofText_toText_of_reached 1 (.text "0:9:7") _ callsFit
  refine ⟨callsFit, ?_, ?_⟩
  · apply (others 11 15 7).mpr
    exact Or.inr ⟨[], ⟨0, 9, 7⟩, ⟨20, 29, 7⟩, [], by cbv, by decide, by decide, by decide,
      by decide, by decide⟩
  · apply ((texts _).2 ["0:9:7".toList, "29:20:7".toList]
      ⟨by simp, by decide, by decide⟩).mpr
    have inverted : ReadsAs "29:20:7".toList ⟨29, 20, 7⟩ :=
      (segmentOfEntry?_eq_some_iff _ _).mp (by cbv)
    exact Faulty.inverted (by simp) inverted (by decide)

end Coverage

end UsageBilling

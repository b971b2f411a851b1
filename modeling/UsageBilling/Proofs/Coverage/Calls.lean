import UsageBilling.Proofs.Coverage.Overflow

/-!
Contract: coverage made by calls.

Owns:
- calls that insert a range, and what each leaves behind;
- coverage reached from an empty one or from any text by any sequence of calls;
- such coverage is well kept with the deviation it began with, and within 64
  bits if the calls are;
- a call fails only for a range that ends before it begins, and computes no
  number that 64 bits do not hold.

Does not own: the weights of points.
-/

namespace UsageBilling.Coverage

open Text

variable {deviation : Nat} {c : Coverage}

/-- What coverage is asked for: to insert a range, with the weight of usage that
is only counted or with another. -/
inductive Call where
  | add (first last : Int)
  | addRange (first last weight : Int)
deriving DecidableEq, Repr

def Call.range : Call → Segment
  | add first last => ⟨first, last, unitWeight⟩
  | addRange first last weight => ⟨first, last, weight⟩

/-- What a call answers, and the coverage it leaves. A call that fails leaves the
coverage it found. -/
def settled (c : Coverage) : Except BillingError Coverage → Except BillingError Unit × Coverage
  | .ok after => (.ok (), after)
  | .error error => (.error error, c)

def perform (c : Coverage) (call : Call) : Except BillingError Unit × Coverage :=
  c.settled (c.insert call.range.first call.range.last call.range.weight)

/-- The same, unless a number overflows on the way. -/
def performChecked? (c : Coverage) (call : Call) :
    Option (Except BillingError Unit × Coverage) :=
  (c.insertChecked? call.range.first call.range.last call.range.weight).map c.settled

/-- Where coverage comes from. -/
inductive Origin where
  | fresh
  | text (content : String)
deriving DecidableEq, Repr

def Origin.coverage (deviation : Nat) : Origin → Coverage
  | fresh => empty deviation
  | text content => ofText content deviation

/-- The coverage that a sequence of calls leaves. -/
def reached (deviation : Nat) (origin : Origin) (calls : List Call) : Coverage :=
  calls.foldl (fun c call => (c.perform call).2) (origin.coverage deviation)

/-! ## One call -/

theorem perform_of_inverted
    (call : Call)
    (inverted : call.range.last < call.range.first) :
    c.perform call = (.error (.invertedRange call.range.first call.range.last), c) := by
  rw [perform, insert, if_pos inverted]
  rfl

theorem perform_of_inhabited
    (call : Call)
    (inhabited : call.range.first ≤ call.range.last) :
    c.perform call = (.ok (), c.insertSegment call.range) := by
  rw [perform, insert_eq_ok inhabited]
  rfl

/-- What every call keeps: well-kept segments, and the deviation. -/
theorem Kept.perform
    (kept : c.Kept)
    (call : Call) :
    (c.perform call).2.Kept ∧ (c.perform call).2.deviation = c.deviation := by
  rcases Int.lt_or_le call.range.last call.range.first with inverted | inhabited
  · rw [perform_of_inverted call inverted]
    exact ⟨kept, rfl⟩
  · rw [perform_of_inhabited call inhabited]
    exact ⟨kept.insertSegment inhabited, rfl⟩

theorem allFit_perform
    (call : Call)
    (callFits : Fits call.range)
    (fits : AllFit c.segments) :
    AllFit (c.perform call).2.segments := by
  rcases Int.lt_or_le call.range.last call.range.first with inverted | inhabited
  · rw [perform_of_inverted call inverted]
    exact fits
  · rw [perform_of_inhabited call inhabited]
    exact allFit_insertSegment callFits fits

theorem performChecked?_eq
    (call : Call)
    (callFits : Fits call.range)
    (fits : AllFit c.segments) :
    c.performChecked? call = some (c.perform call) := by
  have inserted : c.insertChecked? call.range.first call.range.last call.range.weight =
      some (c.insert call.range.first call.range.last call.range.weight) :=
    insertChecked?_eq callFits fits
  rw [performChecked?, inserted]
  rfl

/-! ## Sequences of calls -/

theorem kept_origin
    (deviation : Nat)
    (origin : Origin) :
    (origin.coverage deviation).Kept ∧ (origin.coverage deviation).deviation = deviation := by
  cases origin with
  | fresh => exact ⟨kept_empty deviation, rfl⟩
  | text content => exact kept_ofText content deviation

theorem allFit_origin
    (deviation : Nat)
    (origin : Origin) :
    AllFit (origin.coverage deviation).segments := by
  cases origin with
  | fresh => exact allFit_empty deviation
  | text content => exact allFit_ofText content deviation

theorem Kept.foldl_perform
    (kept : c.Kept)
    (calls : List Call) :
    (calls.foldl (fun c call => (c.perform call).2) c).Kept ∧
      (calls.foldl (fun c call => (c.perform call).2) c).deviation = c.deviation := by
  induction calls generalizing c with
  | nil => exact ⟨kept, rfl⟩
  | cons call rest inductionHypothesis =>
    have ⟨nextKept, nextDeviation⟩ := kept.perform call
    have ⟨restKept, restDeviation⟩ := inductionHypothesis nextKept
    exact ⟨restKept, restDeviation.trans nextDeviation⟩

theorem kept_reached
    (deviation : Nat)
    (origin : Origin)
    (calls : List Call) :
    (reached deviation origin calls).Kept ∧
      (reached deviation origin calls).deviation = deviation := by
  have ⟨originKept, originDeviation⟩ := kept_origin deviation origin
  have ⟨reachedKept, sameDeviation⟩ := originKept.foldl_perform calls
  exact ⟨reachedKept, sameDeviation.trans originDeviation⟩

theorem allFit_foldl_perform
    (calls : List Call)
    (callsFit : ∀ call ∈ calls, Fits call.range)
    (fits : AllFit c.segments) :
    AllFit (calls.foldl (fun c call => (c.perform call).2) c).segments := by
  induction calls generalizing c with
  | nil => exact fits
  | cons call rest inductionHypothesis =>
    apply inductionHypothesis
    · exact fun other member => callsFit other (List.mem_cons_of_mem call member)
    · exact allFit_perform call (callsFit call List.mem_cons_self) fits

theorem allFit_reached
    (deviation : Nat)
    (origin : Origin)
    {calls : List Call}
    (callsFit : ∀ call ∈ calls, Fits call.range) :
    AllFit (reached deviation origin calls).segments :=
  allFit_foldl_perform calls callsFit (allFit_origin deviation origin)

/-- What a call comes to: no number overflows, an inverted range is refused and
changes nothing, and any other range is accepted. -/
structure Answers (c : Coverage) (call : Call) : Prop where
  withoutOverflow : c.performChecked? call = some (c.perform call)
  refused : call.range.last < call.range.first →
    c.perform call = (.error (.invertedRange call.range.first call.range.last), c)
  accepted : call.range.first ≤ call.range.last → (c.perform call).1 = .ok ()

theorem answers_of_fits
    (call : Call)
    (callFits : Fits call.range)
    (fits : AllFit c.segments) :
    Answers c call := by
  refine ⟨performChecked?_eq call callFits fits, perform_of_inverted call, ?_⟩
  intro inhabited
  rw [perform_of_inhabited call inhabited]

/-- Coverage reached by calls of 64 bits has segments that are not inverted, are
in order, and are joined where the deviation asks for it; and each further call
is answered. -/
theorem wellKept_reached_and_answers
    (deviation : Nat)
    (origin : Origin)
    (calls : List Call)
    (callsFit : ∀ call ∈ calls, Fits call.range) :
    WellKept deviation (reached deviation origin calls).segments ∧
      ∀ call : Call, Fits call.range → Answers (reached deviation origin calls) call := by
  have ⟨kept, sameDeviation⟩ := kept_reached deviation origin calls
  have wellKept := kept.wellKept
  rw [sameDeviation] at wellKept
  refine ⟨wellKept, ?_⟩
  intro call callFits
  exact answers_of_fits call callFits (allFit_reached deviation origin callsFit)

/-- A text with two segments, a call that reaches down to the least number of 64
bits and one that is refused; the next call reaches up to the largest. -/
theorem answers_at_limits :
    (∀ call ∈ [Call.addRange int64Min 5 3, Call.add 7 6], Fits call.range) ∧
      Fits (Call.addRange 3 int64Max 7).range ∧
      Answers (reached 1 (.text "0:9:7;20:20:7") [.addRange int64Min 5 3, .add 7 6])
        (.addRange 3 int64Max 7) := by
  have callsFit : ∀ call ∈ [Call.addRange int64Min 5 3, Call.add 7 6], Fits call.range := by
    intro call member
    simp only [List.mem_cons, List.not_mem_nil, or_false] at member
    rcases member with first | second
    · rw [first]
      exact ⟨rfl, rfl, rfl⟩
    · rw [second]
      exact ⟨rfl, rfl, rfl⟩
  have lastFits : Fits (Call.addRange 3 int64Max 7).range := ⟨rfl, rfl, rfl⟩
  have reachedAll := wellKept_reached_and_answers 1 (.text "0:9:7;20:20:7") _ callsFit
  exact ⟨callsFit, lastFits, reachedAll.2 _ lastFits⟩

end UsageBilling.Coverage

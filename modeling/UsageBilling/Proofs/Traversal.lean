import Mathlib.Data.List.Forall2

/-!
Contract: traversals of lists by steps that may fail.

Owns:
- a traversal that succeeds as a relation between inputs and results, one by one;
- traversals succeed if every step does;
- what such a relation says of members, of neighbours and of the order of a list.

Does not own: what the steps do.
-/

namespace UsageBilling

/-! ## Steps that fail with an error -/

theorem mapM_eq_ok_iff
    {ε α β : Type}
    (step : α → Except ε β)
    (inputs : List α)
    (results : List β) :
    inputs.mapM step = .ok results ↔
      List.Forall₂ (fun input result => step input = .ok result) inputs results := by
  induction inputs generalizing results with
  | nil => cases results <;> simp [pure, Except.pure]
  | cons input rest inductionHypothesis =>
    rw [List.mapM_cons, List.forall₂_cons_left_iff]
    cases head : step input with
    | error error => simp [bind, Except.bind]
    | ok result =>
      cases tail : rest.mapM step with
      | error error => simp [bind, Except.bind, ← inductionHypothesis, tail]
      | ok later =>
        simp [bind, Except.bind, pure, Except.pure, ← inductionHypothesis, tail, eq_comm]

theorem forM_eq_ok_iff
    {ε α : Type}
    (step : α → Except ε Unit)
    (inputs : List α) :
    inputs.forM step = .ok () ↔ ∀ input ∈ inputs, step input = .ok () := by
  induction inputs with
  | nil => simp [pure, Except.pure]
  | cons input rest inductionHypothesis =>
    rw [List.forall_mem_cons, ← inductionHypothesis]
    show (do
      step input
      rest.forM step) = .ok () ↔ _
    cases step input with
    | error error => simp [bind, Except.bind]
    | ok _ => simp [bind, Except.bind]

theorem exists_mapM_eq_ok
    {ε α β : Type}
    {step : α → Except ε β}
    {inputs : List α}
    (succeeds : ∀ input ∈ inputs, ∃ result, step input = .ok result) :
    ∃ results, inputs.mapM step = .ok results := by
  induction inputs with
  | nil => exact ⟨[], rfl⟩
  | cons input rest inductionHypothesis =>
    simp only [List.mem_cons, forall_eq_or_imp] at succeeds
    obtain ⟨result, head⟩ := succeeds.1
    obtain ⟨later, tail⟩ := inductionHypothesis succeeds.2
    exact ⟨result :: later, by simp [List.mapM_cons, head, tail, bind, Except.bind, pure,
      Except.pure]⟩

/-! ## Steps that give nothing -/

theorem mapM_eq_some_iff
    {α β : Type}
    (step : α → Option β)
    (inputs : List α)
    (results : List β) :
    inputs.mapM step = some results ↔
      List.Forall₂ (fun input result => step input = some result) inputs results := by
  induction inputs generalizing results with
  | nil => cases results <;> simp
  | cons input rest inductionHypothesis =>
    rw [List.mapM_cons, List.forall₂_cons_left_iff]
    simp only [Option.bind_eq_bind, Option.bind_eq_some_iff, Option.pure_def, Option.some.injEq,
      inductionHypothesis]
    constructor
    · intro ⟨result, head, later, tail, made⟩
      exact ⟨result, later, head, tail, made.symm⟩
    · intro ⟨result, later, head, tail, made⟩
      exact ⟨result, head, later, tail, made.symm⟩

theorem exists_mapM_eq_some
    {α β : Type}
    {step : α → Option β}
    {inputs : List α}
    (succeeds : ∀ input ∈ inputs, ∃ result, step input = some result) :
    ∃ results, inputs.mapM step = some results := by
  induction inputs with
  | nil => exact ⟨[], rfl⟩
  | cons input rest inductionHypothesis =>
    simp only [List.mem_cons, forall_eq_or_imp] at succeeds
    have ⟨result, head⟩ := succeeds.1
    have ⟨later, tail⟩ := inductionHypothesis succeeds.2
    exact ⟨result :: later, by simp [List.mapM_cons, head, tail]⟩

/-! ## Members and neighbours -/

theorem exists_of_mem_forall₂
    {α β : Type}
    {related : α → β → Prop}
    {inputs : List α}
    {results : List β}
    (pairs : List.Forall₂ related inputs results)
    {result : β}
    (member : result ∈ results) :
    ∃ input ∈ inputs, related input result := by
  induction pairs with
  | nil => simp at member
  | @cons input head inputs results paired _ inductionHypothesis =>
    rcases List.mem_cons.mp member with rfl | inRest
    · exact ⟨input, by simp, paired⟩
    · obtain ⟨other, found, paired⟩ := inductionHypothesis inRest
      exact ⟨other, by simp [found], paired⟩

/-- An order of one list is carried over to the other. -/
theorem pairwise_of_forall₂
    {α β : Type}
    {related : α → β → Prop}
    {before : α → α → Prop}
    {imageBefore : β → β → Prop}
    {inputs : List α}
    {results : List β}
    (pairs : List.Forall₂ related inputs results)
    (carries : ∀ a b x y, related a x → related b y → before a b → imageBefore x y)
    (ordered : inputs.Pairwise before) :
    results.Pairwise imageBefore := by
  induction pairs with
  | nil => exact List.Pairwise.nil
  | @cons input head inputs results paired rest inductionHypothesis =>
    have ⟨first, restOrdered⟩ := List.pairwise_cons.mp ordered
    apply List.Pairwise.cons _ (inductionHypothesis restOrdered)
    intro result member
    have ⟨other, found, otherPaired⟩ := exists_of_mem_forall₂ rest member
    exact carries input other head result paired otherPaired (first other found)

/-- Neighbours of one list are related to neighbours of the other. -/
theorem exists_neighbours_of_forall₂
    {α β : Type}
    {related : α → β → Prop}
    {before after : List α}
    {a b : α}
    {images : List β}
    (pairs : List.Forall₂ related (before ++ a :: b :: after) images) :
    ∃ before' x y after', images = before' ++ x :: y :: after' ∧ related a x ∧ related b y := by
  have tail := (List.forall₂_drop_append images before (a :: b :: after) pairs.flip).flip
  have ⟨x, later, ofFirst, rest, isTail⟩ := List.forall₂_cons_left_iff.mp tail
  have ⟨y, others, ofSecond, _, isLater⟩ := List.forall₂_cons_left_iff.mp rest
  refine ⟨images.take before.length, x, y, others, ?_, ofFirst, ofSecond⟩
  rw [← isLater, ← isTail, List.take_append_drop]

end UsageBilling

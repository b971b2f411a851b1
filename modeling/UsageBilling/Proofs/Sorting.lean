import Mathlib.Data.List.Sort

/-!
Contract: sorting by a comparison.

Owns:
- a list whose elements the comparison tells apart is sorted in one way only,
  whatever order it comes in;
- elements that are tied with each other keep their order;
- a sorted list without repetitions increases strictly.

Does not own: any particular comparison.
-/

namespace UsageBilling

variable {α : Type} {comparison : α → α → Ordering} [Std.TransCmp comparison]
  {atMost : α → α → Bool} {left right : List α}

theorem pairwise_mergeSort_of_isLE
    (decides : ∀ a b, atMost a b = (comparison a b).isLE)
    (list : List α) :
    (list.mergeSort atMost).Pairwise (fun a b => atMost a b = true) := by
  apply List.pairwise_mergeSort
  · intro a b c ab bc
    rw [decides] at ab bc ⊢
    exact Std.TransCmp.isLE_trans ab bc
  · intro a b
    have swapped : comparison a b = (comparison b a).swap := Std.OrientedCmp.eq_swap
    rw [decides, decides, swapped]
    cases comparison b a <;> rfl

/-- Sorting forgets the order of elements that the comparison tells apart. -/
theorem mergeSort_eq_of_perm
    (decides : ∀ a b, atMost a b = (comparison a b).isLE)
    (permuted : left.Perm right)
    (toldApart : ∀ a ∈ left, ∀ b ∈ left, comparison a b = .eq → a = b) :
    left.mergeSort atMost = right.mergeSort atMost := by
  have sameElements : (left.mergeSort atMost).Perm (right.mergeSort atMost) :=
    (List.mergeSort_perm left _).trans (permuted.trans (List.mergeSort_perm right _).symm)
  apply List.Perm.eq_of_pairwise _ (pairwise_mergeSort_of_isLE decides left)
    (pairwise_mergeSort_of_isLE decides right) sameElements
  intro a b aMember bMember ab ba
  rw [decides] at ab ba
  exact toldApart a ((List.mergeSort_perm left _).mem_iff.mp aMember) b
    ((List.mergeSort_perm left _).mem_iff.mp (sameElements.mem_iff.mpr bMember))
    (Std.OrientedCmp.isLE_antisymm ab ba)

/-- Sorting leaves tied elements in the order they were in. -/
theorem filter_mergeSort_of_tied
    (transitive : ∀ a b c, atMost a b = true → atMost b c = true → atMost a c = true)
    (total : ∀ a b, (atMost a b || atMost b a) = true)
    {tied : α → Bool}
    (ties : ∀ a b, tied a = true → tied b = true → atMost a b = true)
    (list : List α) :
    (list.mergeSort atMost).filter tied = list.filter tied := by
  have inOrder : (list.filter tied).Pairwise fun a b => atMost a b = true := by
    apply List.pairwise_of_forall_mem_list
    intro a aMember b bMember
    exact ties a b (List.mem_filter.mp aMember).2 (List.mem_filter.mp bMember).2
  have kept := (List.sublist_mergeSort transitive total inOrder List.filter_sublist).filter tied
  rw [List.filter_filter] at kept
  simp only [Bool.and_self] at kept
  exact (kept.eq_of_length
    ((List.mergeSort_perm list atMost).filter tied).length_eq.symm).symm

theorem pairwise_lt_eraseDups
    {β : Type}
    [BEq β] [LawfulBEq β] [LE β] [LT β] [Std.IsLinearOrder β] [Std.LawfulOrderLT β]
    {list : List β}
    (sorted : list.Pairwise (· ≤ ·)) :
    list.eraseDups.Pairwise (· < ·) := by
  induction length : list.length using Nat.strong_induction_on generalizing list with
  | _ n inductionHypothesis =>
    cases list with
    | nil => exact List.Pairwise.nil
    | cons first rest =>
      have ⟨least, restSorted⟩ := List.pairwise_cons.mp sorted
      rw [List.eraseDups_cons]
      apply List.Pairwise.cons
      · intro other member
        have ⟨inRest, differs⟩ := List.mem_filter.mp (List.mem_eraseDups.mp member)
        apply Std.lt_of_le_of_ne (least other inRest)
        intro same
        simp [same] at differs
      · apply inductionHypothesis _ _ (restSorted.filter _) rfl
        have shorter := List.length_filter_le (fun other => !other == first) rest
        simp only [List.length_cons] at length
        omega

end UsageBilling

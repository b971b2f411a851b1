import Mathlib.Data.List.Nodup
import UsageBilling.Proofs.Decimal.Addition
import UsageBilling.Proofs.Rating.Lines

/-!
Contract: lines grouped into subtotals.

Owns:
- the subtotals of lines added in order: one for each tariff, in the order of
  their first lines, each with the lines of its tariff in order and their sum.

Does not own: the tariff of a line, or the order in which lines are added.
-/

namespace UsageBilling.Rating

variable {tariff : String} {line : RatedUsage} {lines : List RatedUsage}
  {tariffOf : RatedUsage → String} {subtotals extended : List TariffSubtotal}

/-- The first line of each subtotal. -/
def firstLines (subtotals : List TariffSubtotal) : List RatedUsage :=
  subtotals.filterMap fun held => held.lines.head?

/-- Whether a subtotal has the lines of its tariff, of which there is one at least,
and their sum. -/
structure Collects (tariffOf : RatedUsage → String) (lines : List RatedUsage)
    (held : TariffSubtotal) : Prop where
  ofTariff : held.lines = lines.filter fun line => tariffOf line = held.tariff
  inhabited : held.lines ≠ []
  sum : Decimal.sum? (held.lines.map RatedUsage.cost) = some held.subtotal

/-- Whether subtotals are those of lines added in order. -/
structure Grouped (tariffOf : RatedUsage → String) (lines : List RatedUsage)
    (subtotals : List TariffSubtotal) : Prop where
  distinct : (subtotals.map TariffSubtotal.tariff).Nodup
  complete : ∀ line ∈ lines, tariffOf line ∈ subtotals.map TariffSubtotal.tariff
  collects : ∀ held ∈ subtotals, Collects tariffOf lines held
  inOrder : (firstLines subtotals).Sublist lines

theorem grouped_nil
    (tariffOf : RatedUsage → String) :
    Grouped tariffOf [] [] := by
  refine ⟨List.nodup_nil, ?_, ?_, List.Sublist.refl _⟩
  · intro line member
    cases member
  · intro held member
    cases member

/-- A line of another tariff does not matter. -/
theorem Collects.append_other
    {held : TariffSubtotal}
    (collects : Collects tariffOf lines held)
    (other : held.tariff ≠ tariffOf line) :
    Collects tariffOf (lines ++ [line]) held := by
  refine ⟨?_, collects.inhabited, collects.sum⟩
  rw [List.filter_append, ← collects.ofTariff]
  simp [Ne.symm other]

theorem Collects.append_own
    {held : TariffSubtotal}
    {sum : Decimal}
    (collects : Collects tariffOf lines held)
    (own : held.tariff = tariffOf line)
    (added : held.subtotal.add? line.cost = some sum) :
    Collects tariffOf (lines ++ [line]) ⟨tariffOf line, held.lines ++ [line], sum⟩ := by
  constructor
  · show held.lines ++ [line] = _
    rw [List.filter_append, collects.ofTariff, own]
    simp
  · show held.lines ++ [line] ≠ []
    exact List.append_ne_nil_of_right_ne_nil _ (List.cons_ne_nil _ _)
  · show Decimal.sum? ((held.lines ++ [line]).map RatedUsage.cost) = some sum
    rw [List.map_append, List.map_singleton, Decimal.sum?_append_singleton collects.sum, added]

theorem collects_first
    {sum : Decimal}
    (first : ∀ other ∈ lines, tariffOf other ≠ tariffOf line)
    (added : Decimal.zero.add? line.cost = some sum) :
    Collects tariffOf (lines ++ [line]) ⟨tariffOf line, [line], sum⟩ := by
  constructor
  · show [line] = _
    have others : (lines.filter fun other => tariffOf other = tariffOf line) = [] := by
      rw [List.filter_eq_nil_iff]
      intro other member
      rw [decide_eq_true_eq]
      exact first other member
    rw [List.filter_append, others]
    simp
  · exact List.cons_ne_nil _ _
  · show Decimal.sum? ([] ++ [line.cost]) = some sum
    rw [Decimal.sum?_append_singleton rfl, added]

theorem Grouped.joined
    {before after : List TariffSubtotal}
    {held : TariffSubtotal}
    {sum : Decimal}
    (grouped : Grouped tariffOf lines (before ++ held :: after))
    (own : held.tariff = tariffOf line)
    (added : held.subtotal.add? line.cost = some sum) :
    Grouped tariffOf (lines ++ [line])
      (before ++ ⟨tariffOf line, held.lines ++ [line], sum⟩ :: after) := by
  have heldCollects := grouped.collects held (by simp)
  have sameTariffs : (before ++ (⟨tariffOf line, held.lines ++ [line], sum⟩ :: after)).map
      TariffSubtotal.tariff = (before ++ held :: after).map TariffSubtotal.tariff := by
    simp [own]
  have sameFirst : firstLines (before ++ (⟨tariffOf line, held.lines ++ [line], sum⟩ :: after)) =
      firstLines (before ++ held :: after) := by
    have unchanged : (held.lines ++ [line]).head? = held.lines.head? :=
      List.head?_append_of_ne_nil _ heldCollects.inhabited
    simp [firstLines, List.filterMap_append, List.filterMap_cons, unchanged]
  constructor
  · rw [sameTariffs]
    exact grouped.distinct
  · rw [sameTariffs]
    intro other member
    rcases List.mem_append.mp member with old | new
    · exact grouped.complete other old
    · rw [List.mem_singleton.mp new, ← own]
      exact List.mem_map_of_mem (by simp)
  · intro other member
    -- Tariffs are distinct, so the line is of no other subtotal's tariff.
    have distinct := grouped.distinct
    rw [List.map_append, List.map_cons] at distinct
    have ⟨fresh, _⟩ := List.nodup_cons.mp (List.nodup_middle.mp distinct)
    have ofOther : ∀ each ∈ before ++ after, Collects tariffOf (lines ++ [line]) each := by
      intro each inRest
      have inSubtotals : each ∈ before ++ held :: after :=
        List.perm_middle.mem_iff.mpr (List.mem_cons_of_mem held inRest)
      apply (grouped.collects each inSubtotals).append_other
      intro same
      apply fresh
      rw [← List.map_append, own, ← same]
      exact List.mem_map_of_mem inRest
    rcases List.mem_cons.mp (List.perm_middle.mem_iff.mp member) with replaced | inRest
    · rw [replaced]
      exact heldCollects.append_own own added
    · exact ofOther other inRest
  · rw [sameFirst]
    exact grouped.inOrder.trans (List.sublist_append_left lines [line])

theorem Grouped.begun
    {sum : Decimal}
    (grouped : Grouped tariffOf lines subtotals)
    (others : ∀ held ∈ subtotals, held.tariff ≠ tariffOf line)
    (added : Decimal.zero.add? line.cost = some sum) :
    Grouped tariffOf (lines ++ [line]) (subtotals ++ [⟨tariffOf line, [line], sum⟩]) := by
  have first : ∀ other ∈ lines, tariffOf other ≠ tariffOf line := by
    intro other member same
    have ⟨held, inSubtotals, ofTariff⟩ := List.mem_map.mp (grouped.complete other member)
    exact others held inSubtotals (ofTariff.trans same)
  constructor
  · rw [List.map_append, List.map_singleton]
    apply grouped.distinct.append (List.nodup_singleton _)
    intro tariff inSubtotals isNew
    have ⟨held, member, ofTariff⟩ := List.mem_map.mp inSubtotals
    exact others held member (ofTariff.trans (List.mem_singleton.mp isNew))
  · intro other member
    rw [List.map_append]
    rcases List.mem_append.mp member with old | new
    · exact List.mem_append_left _ (grouped.complete other old)
    · rw [List.mem_singleton.mp new]
      exact List.mem_append_right _ (List.mem_singleton.mpr rfl)
  · intro held member
    rcases List.mem_append.mp member with old | new
    · exact (grouped.collects held old).append_other (others held old)
    · rw [List.mem_singleton.mp new]
      exact collects_first first added
  · have appended : firstLines (subtotals ++ [⟨tariffOf line, [line], sum⟩]) =
        firstLines subtotals ++ [line] := by
      simp [firstLines]
    rw [appended]
    exact grouped.inOrder.append (List.Sublist.refl [line])

/-- Adding a line keeps subtotals those of the lines added. -/
theorem Grouped.addLine
    (grouped : Grouped tariffOf lines subtotals)
    (added : Rating.addLine (tariffOf line) line subtotals = .ok extended) :
    Grouped tariffOf (lines ++ [line]) extended := by
  cases lineAdded_of_addLine added with
  | joined before after held sum own summed => exact grouped.joined own summed
  | begun _ sum others summed => exact grouped.begun others summed

end UsageBilling.Rating

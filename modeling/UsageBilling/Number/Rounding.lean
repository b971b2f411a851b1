/-!
Contract: rounding of a ratio of naturals to the nearest natural.

Owns:
- which of its two neighbours a half goes to;
- the nearest natural.

Does not own: signs, or the number of digits that are rounded to.
-/

namespace UsageBilling

/-- Where a half goes: to the even one of its neighbours, or to the upper. -/
inductive HalfRule where
  | toEven
  | up
deriving DecidableEq, Repr

namespace HalfRule

/-- The neighbour that the rule takes for a half above `floor`. -/
def ofHalf (rule : HalfRule) (floor : Nat) : Nat :=
  match rule with
  | .toEven => floor + floor % 2
  | .up => floor + 1

/-- `numerator / denominator` rounded to the nearest natural; a half goes as
the rule says. -/
def round (rule : HalfRule) (numerator denominator : Nat) : Nat :=
  let floor := numerator / denominator
  let twiceRemainder := 2 * (numerator % denominator)
  if twiceRemainder < denominator then floor
  else if denominator < twiceRemainder then floor + 1
  else rule.ofHalf floor

@[simp]
theorem round_one
    (rule : HalfRule)
    (n : Nat) :
    rule.round n 1 = n := by
  simp [round, Nat.mod_one]

end HalfRule

end UsageBilling

/-!
Contract: the powers of two and of ten that number formats are built on.

Owns:
- both powers as naturals, with the small laws that arithmetic on scales needs.

Does not own: powers with negative exponents. A format that has them puts the
power on the other side of a ratio.
-/

namespace UsageBilling.Power

def ofTen (exponent : Nat) : Nat :=
  Nat.pow 10 exponent

def ofTwo (exponent : Nat) : Nat :=
  Nat.pow 2 exponent

@[simp]
theorem ofTen_zero : ofTen 0 = 1 :=
  rfl

theorem ofTen_succ
    (exponent : Nat) :
    ofTen (exponent + 1) = ofTen exponent * 10 :=
  rfl

theorem ofTen_add
    (left right : Nat) :
    ofTen (left + right) = ofTen left * ofTen right :=
  Nat.pow_add 10 left right

theorem ofTen_pos
    (exponent : Nat) :
    0 < ofTen exponent :=
  Nat.pow_pos (by decide)

theorem ten_le_ofTen
    {exponent : Nat}
    (positive : exponent ≠ 0) :
    10 ≤ ofTen exponent :=
  Nat.le_self_pow positive 10

end UsageBilling.Power

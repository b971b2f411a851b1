import UsageBilling.Text.Blank
import UsageBilling.Text.Integer

/-!
Contract: a written integer is read back.

Owns:
- the integers of 64 bits, by their bounds;
- the characters of a written integer: digits after at most a minus sign;
- a written natural is read back, and so is an integer of 64 bits.

Does not own: texts that no integer is written as.
-/

namespace UsageBilling.Text

theorem fitsInt64_iff
    (n : Int) :
    fitsInt64 n = true ↔ int64Min ≤ n ∧ n ≤ int64Max := by
  simp [fitsInt64]

theorem isDigit_iff
    (c : Char) :
    c.isDigit = true ↔ '0' ≤ c ∧ c ≤ '9' := by
  simp [Char.isDigit, Char.le_def]

theorem isBlank_of_isDigit
    {c : Char}
    (isDigit : c.isDigit = true) :
    isBlank c = false := by
  obtain ⟨lower, upper⟩ := (isDigit_iff c).mp isDigit
  have lowerNat : 48 ≤ c.toNat := lower
  have upperNat : c.toNat ≤ 57 := upper
  simp only [isBlank, Bool.or_eq_false_iff, Bool.and_eq_false_iff, beq_eq_false_iff_ne,
    decide_eq_false_iff_not]
  omega

theorem digit?_of_isDigit
    {c : Char}
    (isDigit : c.isDigit = true) :
    digit? c = some (c.toNat - '0'.toNat) := by
  obtain ⟨lower, upper⟩ := (isDigit_iff c).mp isDigit
  simp [digit?, lower, upper]

theorem foldlM_digit?
    {cs : List Char}
    (digits : ∀ c ∈ cs, c.isDigit = true)
    (value : Nat) :
    cs.foldlM (fun value c => (digit? c).map (10 * value + ·)) value =
      some (Nat.ofDigitChars 10 cs value) := by
  induction cs generalizing value with
  | nil => rfl
  | cons c rest inductionHypothesis =>
    simp only [List.mem_cons, forall_eq_or_imp] at digits
    rw [List.foldlM_cons, digit?_of_isDigit digits.1, Nat.ofDigitChars_cons]
    exact inductionHypothesis digits.2 _

/-- A written natural is read back. -/
theorem natural?_toDigits
    (n : Nat) :
    natural? (Nat.toDigits 10 n) = some n := by
  have digits : ∀ c ∈ Nat.toDigits 10 n, c.isDigit = true := fun c member =>
    Nat.isDigit_of_mem_toDigits (by decide) (by decide) member
  have notEmpty : (Nat.toDigits 10 n).isEmpty = false := by
    simp
  rw [natural?, notEmpty, foldlM_digit? digits, Nat.ofDigitChars_ten_toDigits]
  rfl

theorem trimChars_of_no_blanks
    {cs : List Char}
    (noBlanks : ∀ c ∈ cs, isBlank c = false) :
    trimChars cs = cs := by
  have kept : ∀ cs : List Char, (∀ c ∈ cs, isBlank c = false) → trimStart cs = cs := by
    intro cs noBlanks
    cases cs with
    | nil => rfl
    | cons c rest => rw [trimStart, List.dropWhile_cons_of_neg (by simp [noBlanks c])]
  rw [trimChars, kept cs noBlanks, kept cs.reverse (by simpa using noBlanks), List.reverse_reverse]

/-! ## Integers -/

theorem toList_toString
    (n : Int) :
    (toString n).toList =
      if n < 0 then '-' :: Nat.toDigits 10 n.natAbs else Nat.toDigits 10 n.natAbs := by
  rw [Int.toString_eq_repr, Int.repr_eq_if]
  by_cases negative : n < 0
  · have magnitude : (-n).toNat = n.natAbs := by omega
    rw [if_neg (by omega), if_pos negative, String.toList_append, Nat.toList_repr, magnitude]
    rfl
  · have magnitude : n.toNat = n.natAbs := by omega
    rw [if_pos (by omega), if_neg negative, Nat.toList_repr, magnitude]

theorem mem_toString
    {n : Int}
    {c : Char}
    (member : c ∈ (toString n).toList) :
    c = '-' ∨ c.isDigit = true := by
  have ofDigits : c ∈ Nat.toDigits 10 n.natAbs → c.isDigit = true :=
    Nat.isDigit_of_mem_toDigits (by decide) (by decide)
  rw [toList_toString] at member
  split at member
  · exact (List.mem_cons.mp member).imp id ofDigits
  · exact Or.inr (ofDigits member)

/-- A written integer of 64 bits is read back. -/
theorem readInt64?_toString
    {n : Int}
    (fits : fitsInt64 n = true) :
    readInt64? (toString n).toList = some n := by
  have digits : ∀ c ∈ Nat.toDigits 10 n.natAbs, c.isDigit = true := fun c member =>
    Nat.isDigit_of_mem_toDigits (by decide) (by decide) member
  have read := natural?_toDigits n.natAbs
  rw [toList_toString]
  split
  · rename_i negative
    have value : -(n.natAbs : Int) = n := by omega
    simp only [readInt64?, read, Option.bind_eq_bind, Option.bind_some, Option.pure_def,
      Option.map_some, value, fits, if_true]
  · rename_i notNegative
    have value : (n.natAbs : Int) = n := by omega
    cases written : Nat.toDigits 10 n.natAbs with
    | nil => exact absurd written Nat.toDigits_ne_nil
    | cons c rest =>
      rw [written] at digits read
      have isDigit := digits c (by simp)
      have notMinus : c ≠ '-' := by
        rintro rfl
        exact absurd isDigit (by decide)
      have notPlus : c ≠ '+' := by
        rintro rfl
        exact absurd isDigit (by decide)
      unfold readInt64?
      split
      · rename_i sameText
        exact absurd (List.cons.inj sameText).1 notMinus
      · rename_i sameText
        exact absurd (List.cons.inj sameText).1 notPlus
      · simp only [read, Option.bind_eq_bind, Option.bind_some, Option.map_some,
          Int.ofNat_eq_natCast, value, fits, if_true]

end UsageBilling.Text

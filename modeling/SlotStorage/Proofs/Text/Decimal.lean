import SlotStorage.Proofs.Text.Reading

/-!
# Decimal digits

A number is written in decimal digits, at least one, and with a zero in front
only if it is zero.  So the rule of readers that a longer row of digits does
not start with a zero never cuts a written number short.
-/

namespace SlotStorage.Decimal

theorem isDigit_of_mem {number : Nat} {char : Char}
    (member : char ∈ Nat.toDigits 10 number) : char.isDigit = true :=
  Nat.isDigit_of_mem_toDigits (by decide) (by decide) member

theorem exists_toDigits_eq_cons (number : Nat) :
    ∃ first others, Nat.toDigits 10 number = first :: others ∧
      first.isDigit = true := by
  obtain ⟨first, others, digits⟩ := List.exists_cons_of_ne_nil
    (show Nat.toDigits 10 number ≠ [] from Nat.toDigits_ne_nil)
  have member : first ∈ Nat.toDigits 10 number := by simp [digits]
  exact ⟨first, others, digits, isDigit_of_mem member⟩

theorem digitChar_ne_zero :
    ∀ digit < 10, digit ≠ 0 → Nat.digitChar digit ≠ '0' := by
  decide

/-- The first digit of a number other than zero is not zero. -/
theorem exists_toDigits_eq_cons_of_ne_zero {number : Nat}
    (positive : number ≠ 0) :
    ∃ first others, Nat.toDigits 10 number = first :: others ∧
      first ≠ '0' := by
  -- Division by ten keeps the first digit, down to a number of one digit.
  induction number using Nat.strongRecOn with
  | _ number induction =>
      by_cases small : number < 10
      · exact ⟨_, [], Nat.toDigits_of_lt_base small,
          digitChar_ne_zero number small positive⟩
      · obtain ⟨first, others, digits, nonzero⟩ :=
          induction (number / 10) (by omega) (by omega)
        refine ⟨first, others ++ [Nat.digitChar (number % 10)], ?_, nonzero⟩
        rw [Nat.toDigits_of_base_le (by decide) (by omega), digits]
        rfl

/-- An integer is written as the digits of its size, after a minus if it is
negative. -/
theorem toList_toString (number : Int) :
    (toString number).toList =
      (if number < 0 then ['-'] else []) ++ Nat.toDigits 10 number.natAbs := by
  have digits (size : Nat) : size.repr.toList = Nat.toDigits 10 size := by
    simp [Nat.repr_eq_ofList_toDigits]
  rw [Int.toString_eq_repr, Int.repr_eq_if]
  by_cases negative : number < 0
  · have size : (-number).toNat = number.natAbs := by omega
    rw [if_neg (by omega), if_pos negative, size, String.toList_append, digits]
    rfl
  · have size : number.toNat = number.natAbs := by omega
    rw [if_pos (by omega), if_neg negative, size, digits]
    rfl

/-- An integer does not start with a character that is no digit, except for
the minus. -/
theorem exists_toString_eq_cons (number : Int) :
    ∃ first others, (toString number).toList = first :: others ∧
      ∀ other : Char, other.isDigit = false → other ≠ '-' → first ≠ other := by
  rw [toList_toString]
  by_cases negative : number < 0
  · rw [if_pos negative]
    exact ⟨'-', _, rfl, fun other _ noMinus => noMinus.symm⟩
  · rw [if_neg negative]
    obtain ⟨first, others, digits, isDigit⟩ :=
      exists_toDigits_eq_cons number.natAbs
    exact ⟨first, others, digits, fun other noDigit _ =>
      Reader.ne_of_condition isDigit noDigit⟩

end SlotStorage.Decimal

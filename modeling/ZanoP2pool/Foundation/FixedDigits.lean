import Mathlib

namespace Foundation

/-!
# Digits of a fixed width

A number below a power of the base has one list of digits of that length, most
significant digit first.
-/

/-- The digits of a value, padded by zeros in front. -/
def fixedDigits (base width value : Nat) : List Nat :=
  (Nat.digitsAppend base width value).reverse

/-- The value of digits, read from the most significant one. -/
def digitsValue (base : Nat) (digits : List Nat) : Nat :=
  digits.foldl (fun value digit => value * base + digit) 0

theorem digitsValue_eq_ofDigits
    (base : Nat)
    (digits : List Nat) :
    digitsValue base digits = Nat.ofDigits base digits.reverse := by
  rw [Nat.ofDigits_eq_foldr, List.foldr_reverse, digitsValue]
  congr 1
  funext value digit
  simp only [Nat.cast_id]
  ring

theorem digitsValue_lt
    {base : Nat}
    {digits : List Nat}
    (several : 1 < base)
    (small : ∀ digit ∈ digits, digit < base) :
    digitsValue base digits < base ^ digits.length := by
  rw [digitsValue_eq_ofDigits, ← List.length_reverse]
  exact Nat.ofDigits_lt_base_pow_length several fun digit member =>
    small digit (List.mem_reverse.mp member)

theorem length_fixedDigits
    {base width value : Nat}
    (several : 1 < base)
    (fits : value < base ^ width) :
    (fixedDigits base width value).length = width := by
  rw [fixedDigits, List.length_reverse, Nat.length_digitsAppend several _ fits]

theorem lt_of_mem_fixedDigits
    {base width value digit : Nat}
    (several : 1 < base)
    (member : digit ∈ fixedDigits base width value) :
    digit < base :=
  Nat.lt_of_mem_digitsAppend several width digit (List.mem_reverse.mp member)

/-- A value that fits is the value of its digits. -/
theorem digitsValue_fixedDigits
    {base width value : Nat}
    (several : 1 < base)
    (fits : value < base ^ width) :
    digitsValue base (fixedDigits base width value) = value := by
  rw [digitsValue_eq_ofDigits, fixedDigits, List.reverse_reverse]
  exact (Nat.setInvOn_digitsAppend_ofDigits several width).2 fits

/-- Digits are those of their value. -/
theorem fixedDigits_digitsValue
    {base : Nat}
    {digits : List Nat}
    (several : 1 < base)
    (small : ∀ digit ∈ digits, digit < base) :
    fixedDigits base digits.length (digitsValue base digits) = digits := by
  have inverse :=
    (Nat.setInvOn_digitsAppend_ofDigits several digits.length).1
      ⟨List.length_reverse, fun digit member =>
        small digit (List.mem_reverse.mp member)⟩
  rw [fixedDigits, digitsValue_eq_ofDigits, inverse, List.reverse_reverse]

end Foundation

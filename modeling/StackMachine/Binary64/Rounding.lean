import StackMachine.Binary64.Basic

/-!
# Rounding to nearest, halves to even

One rule serves every place where an exact quantity has to give way to a
representable one. `roundDiv num den` is the natural number nearest to the
quotient `num / den`, and of two equally near ones the even one. Printing uses
it on a decimal grid; `nearestPattern` uses it on the grid of the doubles.

The doubles are not evenly spaced, but within a binade they are. So
`nearestPattern` first looks how large the quotient is, which settles the
spacing, and then rounds once. A carry out of the fraction needs no care: the
next pattern is the first one of the next binade, which is exactly where the
carry belongs.
-/

namespace StackMachine

/-- The natural number nearest to `num / den`; a half goes to the even
neighbour. -/
def roundDiv (num den : Nat) : Nat :=
  if 2 * (num % den) < den ∨ 2 * (num % den) = den ∧ num / den % 2 = 0 then
    num / den
  else
    num / den + 1

/-- Rounding moves down or up to the next whole number. -/
theorem roundDiv_eq_or (num den : Nat) :
    roundDiv num den = num / den ∨ roundDiv num den = num / den + 1 := by
  unfold roundDiv
  split
  · exact Or.inl rfl
  · exact Or.inr rfl

/-- **Rounding is within half a step**, said without fractions: the rounded
multiple of `den` is at most half of `den` away from `num`. -/
theorem roundDiv_within_half (num : Nat) {den : Nat} (h : 0 < den) :
    2 * (roundDiv num den * den) ≤ 2 * num + den
      ∧ 2 * num ≤ 2 * (roundDiv num den * den) + den := by
  have hmod := Nat.mod_lt num h
  have hdiv := Nat.div_add_mod num den
  rw [Nat.mul_comm] at hdiv
  unfold roundDiv
  split
  · rename_i hc
    constructor <;> omega
  · rename_i hc
    rw [Nat.add_mul, Nat.one_mul]
    constructor <;> omega

/-- A multiple of the step stays where it is. -/
@[simp] theorem roundDiv_mul (n : Nat) {den : Nat} (h : 0 < den) :
    roundDiv (n * den) den = n := by
  simp [roundDiv, Nat.mul_mod_left, Nat.mul_div_cancel _ h, h]

namespace Binary64

/-- **The pattern nearest to a quantity** of `num / den` units. The quotient's
bit length fixes the spacing `2 ^ shift` of the doubles around it; a quantity
from the midpoint above the greatest finite double on has the pattern of
infinity. -/
def nearestPattern (num den : Nat) : Nat :=
  -- Below `2 ^ 53` units the doubles are the whole units, and the shift is zero.
  let shift := (num / den).log2 - 52
  min (shift * binadeSize + roundDiv num (den * Nat.pow 2 shift)) infinityPattern

/-- The nearest pattern is that of a number. -/
theorem nearestPattern_le (num den : Nat) :
    nearestPattern num den ≤ infinityPattern :=
  Nat.min_le_right _ _

end Binary64

end StackMachine

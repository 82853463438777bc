import StackMachine.Binary64.Rounding

/-!
# Arithmetic and order on doubles

Every operation computes its exact result in integers and rounds it once with
`nearestPattern`. What is left to say per operation is what it does where the
exact result is no number: infinities that cancel, an infinity times a zero, a
zero over a zero.

The order compares exact values. A pattern that is no number stands in no
relation to anything, itself included, and the two zeros are equal.
-/

namespace StackMachine

namespace Binary64

/-- The number with its sign bit turned over. -/
def neg (x : Binary64) : Binary64 := ofPattern (!x.isNegative) x.pattern

/-- The sum, rounded once. An exact zero is negative only when both summands
are negative zeros. -/
def add (x y : Binary64) : Binary64 :=
  if x.isNaN || y.isNaN then nan
  else if x.isInfinite then
    if y.isInfinite && x.isNegative != y.isNegative then nan else x
  else if y.isInfinite then y
  else
    let sum := x.toInt + y.toInt
    if sum = 0 then zero (x.isNegative && y.isNegative)
    else ofPattern (decide (sum < 0)) (nearestPattern sum.natAbs 1)

/-- The difference: the sum with the second number negated. -/
def sub (x y : Binary64) : Binary64 := add x (neg y)

/-- The product, rounded once. -/
def mul (x y : Binary64) : Binary64 :=
  let negative := x.isNegative != y.isNegative
  if x.isNaN || y.isNaN then nan
  else if x.isInfinite || y.isInfinite then
    if x.isZero || y.isZero then nan else infinity negative
  else ofPattern negative (nearestPattern (x.units * y.units) unitsPerOne)

/-- The quotient, rounded once. A number over a zero is infinite, and a zero
over a zero is no number. -/
def div (x y : Binary64) : Binary64 :=
  let negative := x.isNegative != y.isNegative
  if x.isNaN || y.isNaN then nan
  else if x.isInfinite then
    if y.isInfinite then nan else infinity negative
  else if y.isInfinite then zero negative
  else if y.isZero then
    if x.isZero then nan else infinity negative
  else ofPattern negative (nearestPattern (x.units * unitsPerOne) y.units)

/-- Equality of values: the zeros are equal, and what is no number equals
nothing. -/
def equals (x y : Binary64) : Bool :=
  !x.isNaN && !y.isNaN && decide (x.toInt = y.toInt)

/-- Strictly smaller in value. -/
def less (x y : Binary64) : Bool :=
  !x.isNaN && !y.isNaN && decide (x.toInt < y.toInt)

/-- At most as large in value. -/
def lessEqual (x y : Binary64) : Bool :=
  !x.isNaN && !y.isNaN && decide (x.toInt ≤ y.toInt)

/-! ## Small laws -/

@[simp] theorem pattern_neg (x : Binary64) : x.neg.pattern = x.pattern :=
  pattern_ofPattern _ x.pattern_lt

@[simp] theorem isNegative_neg (x : Binary64) : x.neg.isNegative = !x.isNegative :=
  isNegative_ofPattern _ x.pattern_lt

/-- **Negation undoes itself**, on every pattern. -/
@[simp] theorem neg_neg (x : Binary64) : x.neg.neg = x := by
  rw [neg, isNegative_neg, pattern_neg, Bool.not_not]
  exact ofPattern_isNegative_pattern x

/-- Equality of values is symmetric. -/
theorem equals_comm (x y : Binary64) : x.equals y = y.equals x := by
  simp only [equals, eq_comm, Bool.and_comm]

/-- A number equals itself exactly when it is a number. -/
@[simp] theorem equals_self (x : Binary64) : x.equals x = !x.isNaN := by
  simp [equals]

/-- At most as large means smaller or equal. -/
theorem lessEqual_eq (x y : Binary64) : x.lessEqual y = (x.less y || x.equals y) := by
  rw [Bool.eq_iff_iff]
  simp only [lessEqual, less, equals, Bool.and_eq_true, Bool.or_eq_true, decide_eq_true_eq]
  constructor
  · rintro ⟨hn, hle⟩
    rcases Int.lt_or_eq_of_le hle with h | h
    · exact Or.inl ⟨hn, h⟩
    · exact Or.inr ⟨hn, h⟩
  · rintro (⟨hn, h⟩ | ⟨hn, h⟩)
    · exact ⟨hn, Int.le_of_lt h⟩
    · exact ⟨hn, Int.le_of_eq h⟩

end Binary64

end StackMachine

import StackMachine.Binary64.Rounding

/-!
# Decimal text

Natural numbers as runs of digits, and quantities with a fixed number of places
behind the point. A quantity is a quotient of natural numbers; it is rounded once,
to the nearest multiple of the last place, and the multiple is then cut into its
whole and its fractional digits. No digit is produced from an inexact number.
-/

namespace StackMachine

namespace Decimal

/-- The digits of a natural number, without superfluous leading zeros. -/
def digits (n : Nat) : List Char := Nat.toDigits 10 n

/-- The text of a natural number. -/
def text (n : Nat) : String := String.ofList (digits n)

/-- The digits of `n` set right in a column of `width` characters, filled up
with `fill`. A longer number takes the room it needs. -/
def column (fill : Char) (width n : Nat) : String :=
  String.ofList ((digits n).leftpad width fill)

/-- **The quantity `num / den` with a fixed number of places**, rounded to the
nearest, halves to even. -/
def fixed (places num den : Nat) : String :=
  let one := Nat.pow 10 places
  let scaled := roundDiv (num * one) den
  text (scaled / one) ++ "." ++ column '0' places (scaled % one)

/-- The number that a run of digits denotes. -/
def value (ds : List Char) : Nat := Nat.ofDigitChars 10 ds 0

/-- **Reading the digits of a number gives the number back.** -/
@[simp] theorem value_digits (n : Nat) : value (digits n) = n :=
  Nat.ofDigitChars_toDigits (by decide) (by decide)

/-- A column is as wide as asked, or as its number. -/
theorem length_column (fill : Char) (width n : Nat) :
    (column fill width n).toList.length = max width (digits n).length := by
  simp [column, List.leftpad]
  omega

end Decimal

end StackMachine

import StackMachine.Decimal.Numeral
import StackMachine.Value

/-!
# Literals

The operand of an instruction that loads a constant is a literal: one of the words
`nil`, `true` and `false`, in small letters, or a number. A number is read as a double
is, but only if it looks like one: it has a digit, and nothing in it but digits, points,
signs and marks of an exponent. So infinity is no literal, and neither is what is no
number.
-/

namespace StackMachine

/-- Whether a character can be part of a number that is a literal. -/
def Numeral.isPart (c : Char) : Bool :=
  c.isDigit || c == '.' || c == '-' || c == '+' || c == 'e' || c == 'E'

/-- **The value a literal denotes**, or nothing if the word is no literal. -/
def Value.ofLiteral? (word : String) : Option Value :=
  match word with
  | "nil" => some .nil
  | "true" => some (.bool true)
  | "false" => some (.bool false)
  | _ =>
    if word.toList.all Numeral.isPart && word.toList.any Char.isDigit then
      (Binary64.read? word.toList).map .number
    else none

end StackMachine

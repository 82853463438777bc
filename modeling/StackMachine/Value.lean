import StackMachine.Binary64.Arithmetic
import StackMachine.Decimal.Fixed

/-!
# Values

The machine knows three kinds of value: nil, the two truth values, and numbers.
A value acts as a condition through `isFalsey`, and that is the only way in which a
kind is taken for another: equality (`equals`) never crosses kinds.

Two notions of sameness live side by side. `=` is identity, and tells the two zeros
apart; `equals` is the machine's equality, for which the zeros are one number and a
pattern that is no number differs from itself.
-/

namespace StackMachine

/-- **A value of the machine.** -/
inductive Value where
  /-- The absence of a value. -/
  | nil
  /-- A truth value. -/
  | bool (b : Bool)
  /-- A double. -/
  | number (x : Binary64)
  deriving DecidableEq, Inhabited

namespace Value

/-- Whether the value is nil. -/
def isNil : Value → Bool
  | nil => true
  | _ => false

/-- Whether the value is a truth value. -/
def isBool : Value → Bool
  | bool _ => true
  | _ => false

/-- Whether the value is a number. -/
def isNumber : Value → Bool
  | number _ => true
  | _ => false

/-- The truth value, of a value that is one. -/
def bool? : Value → Option Bool
  | bool b => some b
  | _ => none

/-- The number, of a value that is one. -/
def number? : Value → Option Binary64
  | number x => some x
  | _ => none

/-- The value with its number replaced; nothing for a value that is no number, as
its kind would change. -/
def setNumber? (x : Binary64) : Value → Option Value
  | number _ => some (number x)
  | _ => none

/-- Nil and false count as false. Everything else counts as true, zero and what is
no number included. -/
def isFalsey : Value → Bool
  | nil => true
  | bool b => !b
  | number _ => false

/-- The name of the value's kind. -/
def kindName : Value → String
  | nil => "nil"
  | bool _ => "bool"
  | number _ => "number"

/-- The machine's equality: within a kind only, and on numbers by value. -/
def equals : Value → Value → Bool
  | nil, nil => true
  | bool a, bool b => a == b
  | number x, number y => x.equals y
  | _, _ => false

/-- How many places behind the point a number is shown with. -/
def places : Nat := 6

/-- The text of a number: six places, never an exponent, and a minus sign whenever
the sign bit is set. -/
def numberText (x : Binary64) : String :=
  if x.isNaN then "nan"
  else
    let sign := if x.isNegative then "-" else ""
    if x.isInfinite then sign ++ "inf"
    else sign ++ Decimal.fixed places x.units Binary64.unitsPerOne

/-- The text of a value. -/
def text : Value → String
  | nil => "nil"
  | bool true => "true"
  | bool false => "false"
  | number x => numberText x

/-! ## Kinds -/

@[simp] theorem isNumber_number (x : Binary64) : (number x).isNumber = true := rfl

@[simp] theorem isNumber_nil : nil.isNumber = false := rfl

@[simp] theorem isNumber_bool (b : Bool) : (bool b).isNumber = false := rfl

/-- A number is what carries one. -/
theorem isNumber_iff {v : Value} : v.isNumber = true ↔ ∃ x, v = number x := by
  cases v <;> simp

/-- Replacing works on numbers only. -/
theorem isSome_setNumber? (x : Binary64) (v : Value) :
    (v.setNumber? x).isSome = v.isNumber := by
  cases v <;> rfl

/-- Equal values are of one kind. -/
theorem kindName_eq_of_equals {v w : Value} (h : v.equals w = true) :
    v.kindName = w.kindName := by
  cases v <;> cases w <;> simp_all [equals, kindName]

/-- The machine's equality is symmetric. -/
theorem equals_comm (v w : Value) : v.equals w = w.equals v := by
  cases v <;> cases w <;> simp [equals, Bool.beq_comm, Binary64.equals_comm]

end Value

end StackMachine

import StackMachine.Opcode
import StackMachine.Value

/-!
# What instructions do to values

Twenty-two instructions do seven kinds of thing. `Effect` names the kinds, each with
the operation on values that tells its members apart, and `Opcode.effect` sorts the
instructions into them. How an effect plays out on a stack that may be too shallow or
hold values of the wrong kind is the same for all members of a kind, and is told once
by the step of the machine.

Operations on two values take the left operand first. On the stack the right operand
lies on top.
-/

namespace StackMachine

/-- **What an instruction does.** -/
inductive Effect where
  /-- Hands back the top value and ends the run. -/
  | finish
  /-- Pushes the number that the operand byte names. -/
  | load
  /-- Pushes a value. -/
  | push (v : Value)
  /-- Changes the number on top. -/
  | onNumber (f : Binary64 → Binary64)
  /-- Replaces the top value. -/
  | onValue (f : Value → Value)
  /-- Replaces the two values on top by one, whatever their kinds. -/
  | onValues (f : Value → Value → Value)
  /-- Replaces the two numbers on top by one value. -/
  | onNumbers (f : Binary64 → Binary64 → Value)

/-- Combines the truth of two values. -/
def Value.logical (f : Bool → Bool → Bool) (left right : Value) : Value :=
  .bool (f (!left.isFalsey) (!right.isFalsey))

/-- What each instruction does. -/
def Opcode.effect : Opcode → Effect
  | ret => .finish
  | constant => .load
  | pushTrue => .push (.bool true)
  | pushFalse => .push (.bool false)
  | pushNil => .push .nil
  | negate => .onNumber fun x => x.neg
  | increment => .onNumber fun x => x.add .one
  | decrement => .onNumber fun x => x.sub .one
  | not => .onValue fun v => .bool v.isFalsey
  | and => .onValues (Value.logical fun a b => a && b)
  | or => .onValues (Value.logical fun a b => a || b)
  | xor => .onValues (Value.logical fun a b => a != b)
  | equal => .onValues fun a b => .bool (a.equals b)
  | notEqual => .onValues fun a b => .bool (!a.equals b)
  | greaterEqual => .onNumbers fun x y => .bool (y.lessEqual x)
  | greater => .onNumbers fun x y => .bool (y.less x)
  | lessEqual => .onNumbers fun x y => .bool (x.lessEqual y)
  | less => .onNumbers fun x y => .bool (x.less y)
  | add => .onNumbers fun x y => .number (x.add y)
  | subtract => .onNumbers fun x y => .number (x.sub y)
  | multiply => .onNumbers fun x y => .number (x.mul y)
  | divide => .onNumbers fun x y => .number (x.div y)

/-- How many values an effect takes from the stack. -/
def Effect.inputs : Effect → Nat
  | load | push _ => 0
  | finish | onNumber _ | onValue _ => 1
  | onValues _ | onNumbers _ => 2

/-- **The table of inputs is right**: an instruction takes as many values as its effect
does. -/
theorem Opcode.inputs_effect (op : Opcode) : op.effect.inputs = op.inputs := by
  cases op <;> rfl

end StackMachine

import StackMachine.Value

/-!
# The operand stack

The values an instruction works on lie on a stack. Next to them the stack keeps an
account of its room: a push that finds the stack full first doubles the capacity, and
the doublings are counted. Nothing ever gives room back, not even emptying the stack.

The values are a list with the top in front, because everything addresses values from
the top. Their number is kept beside them (`depth`), so that a push need not count them
to know whether there is room. Where the stack is shown, it is shown from the bottom
(`contents`).

Reaching below the bottom is no error of a program but a defect of its chunk. It is
an outcome of its own, `Underflow`, that no operation hides.
-/

namespace StackMachine

/-- Reaching below the bottom of a stack. -/
inductive Underflow where
  /-- There is no value at all. -/
  | empty
  /-- There are values, but not as far down as was asked for. -/
  | tooDeep (distance depth : Nat)
  deriving DecidableEq, Inhabited

/-- How an underflow reads. -/
def Underflow.message : Underflow → String
  | empty => "stack is empty"
  | tooDeep distance depth =>
    "peek distance " ++ Decimal.text distance ++ " exceeds stack depth " ++
      Decimal.text depth

/-- **A stack of values** with an account of its room. -/
structure OperandStack where
  /-- The values, the top one first. -/
  values : List Value
  /-- How many values the stack holds. -/
  depth : Nat
  /-- How many values there is room for. -/
  capacity : Nat
  /-- How often the room has been doubled. -/
  growths : Nat
  /-- The number kept is the number of values. -/
  depth_eq : depth = values.length
  deriving DecidableEq

namespace OperandStack

/-- The room of a stack for which none was asked. -/
def defaultCapacity : Nat := 256

/-- The empty stack with the given room, but with room for one value at least. -/
def ofCapacity (capacity : Nat) : OperandStack :=
  { values := [], depth := 0, capacity := max capacity 1, growths := 0, depth_eq := rfl }

instance : Inhabited OperandStack := ⟨ofCapacity defaultCapacity⟩

/-- Whether the stack holds no values. -/
def isEmpty (s : OperandStack) : Bool := s.values.isEmpty

/-- The values from the bottom up. -/
def contents (s : OperandStack) : List Value := s.values.reverse

/-- The stack with its room doubled. -/
def grow (s : OperandStack) : OperandStack :=
  { s with capacity := s.capacity * 2, growths := s.growths + 1 }

/-- The stack with room for one more value. -/
def makeRoom (s : OperandStack) : OperandStack :=
  if s.depth = s.capacity then s.grow else s

/-- Puts a value on top, making room first. -/
def push (s : OperandStack) (v : Value) : OperandStack :=
  { s.makeRoom with
    values := v :: s.values
    depth := s.depth + 1
    depth_eq := congrArg (· + 1) s.depth_eq }

/-- Takes the top value off. -/
def pop (s : OperandStack) : Except Underflow (Value × OperandStack) :=
  match h : s.values with
  | [] => .error .empty
  | v :: rest =>
    .ok (v, { s with
      values := rest
      depth := s.depth - 1
      depth_eq := by rw [s.depth_eq, h, List.length_cons, Nat.add_sub_cancel] })

/-- Why there is no value at a distance from the top. -/
def missing (s : OperandStack) (distance : Nat) : Underflow :=
  if s.isEmpty then .empty else .tooDeep distance s.depth

/-- The value at a distance from the top; the top itself is at distance zero. -/
def peek (s : OperandStack) (distance : Nat) : Except Underflow Value :=
  match s.values[distance]? with
  | some v => .ok v
  | none => .error (s.missing distance)

/-- The stack with another value at a distance from the top, if there is one. -/
def set (s : OperandStack) (distance : Nat) (v : Value) : OperandStack :=
  { s with
    values := s.values.set distance v
    depth_eq := s.depth_eq.trans (List.length_set ..).symm }

/-- Replaces the value at a distance from the top. -/
def replace (s : OperandStack) (distance : Nat) (v : Value) :
    Except Underflow OperandStack :=
  match s.values[distance]? with
  | some _ => .ok (s.set distance v)
  | none => .error (s.missing distance)

/-- Takes values off the top without looking at them. -/
def drop (s : OperandStack) (count : Nat) : OperandStack :=
  { s with
    values := s.values.drop count
    depth := s.depth - count
    depth_eq := by rw [s.depth_eq, List.length_drop] }

/-- Takes every value off; the room stays. -/
def clear (s : OperandStack) : OperandStack :=
  { s with values := [], depth := 0, depth_eq := rfl }

/-- A stack as text: one line for each value from the bottom up, then an empty
line. -/
def picture (s : OperandStack) : String :=
  String.join (s.contents.map fun v => "[ " ++ v.text ++ " ]\n") ++ "\n"

/-! ## The operations as seen on the values -/

/-- Two stacks are one if they hold the same values and keep the same account. -/
@[ext] theorem ext {s t : OperandStack} (values : s.values = t.values)
    (capacity : s.capacity = t.capacity) (growths : s.growths = t.growths) : s = t := by
  obtain ⟨sv, sd, sc, sg, sh⟩ := s
  obtain ⟨tv, td, tc, tg, th⟩ := t
  cases values
  cases capacity
  cases growths
  cases sh.trans th.symm
  rfl

@[simp] theorem values_makeRoom (s : OperandStack) : s.makeRoom.values = s.values := by
  unfold makeRoom
  split <;> rfl

@[simp] theorem values_push (s : OperandStack) (v : Value) :
    (s.push v).values = v :: s.values := rfl

@[simp] theorem capacity_push (s : OperandStack) (v : Value) :
    (s.push v).capacity = s.makeRoom.capacity := rfl

@[simp] theorem growths_push (s : OperandStack) (v : Value) :
    (s.push v).growths = s.makeRoom.growths := rfl

@[simp] theorem contents_push (s : OperandStack) (v : Value) :
    (s.push v).contents = s.contents ++ [v] := by
  simp [contents]

@[simp] theorem values_clear (s : OperandStack) : s.clear.values = [] := rfl

@[simp] theorem capacity_clear (s : OperandStack) : s.clear.capacity = s.capacity := rfl

@[simp] theorem growths_clear (s : OperandStack) : s.clear.growths = s.growths := rfl

/-- The top value is popped, and the values below are untouched. -/
theorem pop_of_values_eq_cons {s : OperandStack} {v : Value} {rest : List Value}
    (h : s.values = v :: rest) : s.pop = .ok (v, s.drop 1) := by
  obtain ⟨values, depth, capacity, growths, hd⟩ := s
  cases h
  rfl

/-- Nothing is popped from an empty stack. -/
theorem pop_of_values_eq_nil {s : OperandStack} (h : s.values = []) :
    s.pop = .error .empty := by
  obtain ⟨values, depth, capacity, growths, hd⟩ := s
  cases h
  rfl

/-- **What was pushed last is popped first**, and the values below are untouched. -/
theorem pop_push (s : OperandStack) (v : Value) :
    (s.push v).pop = .ok (v, s.makeRoom) := by
  rw [pop_of_values_eq_cons (values_push s v)]
  refine congrArg (fun t => Except.ok (v, t)) ?_
  exact OperandStack.ext (values_makeRoom s).symm rfl rfl

/-- A value is missing exactly where the depth ends. -/
theorem peek_eq_error_iff {s : OperandStack} {distance : Nat} {u : Underflow} :
    s.peek distance = .error u ↔ s.depth ≤ distance ∧ s.missing distance = u := by
  unfold peek
  rw [s.depth_eq]
  split
  · rename_i v hv
    have := (List.getElem?_eq_some_iff.1 hv).1
    simp
    omega
  · rename_i hv
    simp [List.getElem?_eq_none_iff.1 hv]

end OperandStack

end StackMachine

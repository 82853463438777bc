import StackMachine.Failure
import StackMachine.Listing
import StackMachine.Machine.Effect
import StackMachine.OperandStack
import StackMachine.Sink

/-!
# One step of the machine

While a chunk runs, the machine is in a state: the offset of the next byte, the
operand stack, and the two sinks it writes to. A step reads the code byte at the
offset, finds the instruction and performs it. The step ends in a new state, or the
run comes to a halt for one of five reasons (`Halt`).

The chunk may hold anything, so a step also answers for bytes that are no
instructions, operands that are missing and stacks that are too shallow. How far the
offset has moved and what has been taken off the stack when the run halts is part of
the answer:

* the code byte is passed as soon as it is read, known or not;
* the operand byte of a loading instruction is passed only after the constant proved
  to be a number, so that a failure is still at the line of the code byte;
* an operation on two numbers looks at both operands, the left one first, before it
  takes any off, while an operation on two values takes the right one off before it
  asks for the left one.
-/

namespace StackMachine

/-- The ways in which a chunk can break the rules of its encoding. -/
inductive Malformed where
  /-- The code ended where an instruction should start. -/
  | pastEnd (offset : Nat)
  /-- A code byte names no instruction. -/
  | unknownOpcode (byte : UInt8) (offset : Nat)
  /-- The code ended where an operand byte should stand. -/
  | missingOperand (offset : Nat)
  /-- An operand byte names no constant. -/
  | constantOutOfRange (index : UInt8) (offset : Nat)
  deriving DecidableEq, Inhabited

/-- How a breach of the encoding reads. -/
def Malformed.message : Malformed → String
  | pastEnd offset =>
    "instruction pointer ran past the end of the chunk at offset " ++ Decimal.text offset
  | unknownOpcode byte offset =>
    "unknown opcode " ++ Decimal.text byte.toNat ++ " at offset " ++ Decimal.text offset
  | missingOperand offset => "missing constant operand at offset " ++ Decimal.text offset
  | constantOutOfRange index offset =>
    "constant index " ++ Decimal.text index.toNat ++ " out of range at offset " ++
      Decimal.text offset

/-- **Why a run has come to a halt.** -/
inductive Halt where
  /-- The program handed back a value. -/
  | returned (v : Value)
  /-- An instruction met operands of the wrong kind. -/
  | typeError (e : RunError)
  /-- The chunk is malformed. -/
  | malformed (m : Malformed)
  /-- The output could not be written. -/
  | outputFailed (e : StreamError)
  /-- An instruction reached below the bottom of the stack. -/
  | underflow (u : Underflow)
  deriving DecidableEq, Inhabited

/-- **The state of a machine** that runs a chunk. -/
structure State where
  /-- The offset of the next byte to read. -/
  offset : Nat
  /-- The operand stack. -/
  stack : OperandStack
  /-- Where returned values and the trace go. -/
  out : Sink
  /-- Where diagnostics go. -/
  err : Sink
  deriving Inhabited

/-- What a step leads to. -/
inductive Transition where
  /-- The run goes on. -/
  | next (s : State)
  /-- The run is over. -/
  | halt (s : State) (reason : Halt)

/-- The source line of the byte just before an offset: the line of the byte that was
read last. It is zero where the line table says nothing. -/
def Chunk.lineBefore (c : Chunk) : Nat → Nat
  | 0 => 0
  | offset + 1 => (c.line? offset).getD 0

namespace State

/-- Writes a diagnostic and empties the stack. That the diagnostic may not fit is of no
consequence. -/
def report (c : Chunk) (message : String) (s : State) : RunError × State :=
  let e : RunError := ⟨message, c.lineBefore s.offset⟩
  (e, { s with err := s.err.write (e.text ++ "\n"), stack := s.stack.clear })

/-- Breaks the run off over operands of the wrong kind. -/
def failType (c : Chunk) (fault : TypeFault) (s : State) : Transition :=
  let (e, s) := s.report c fault.message
  .halt s (.typeError e)

/-- Hands back the top value: takes it off and writes it. -/
def finish (s : State) : Transition :=
  match s.stack.pop with
  | .error u => .halt s (.underflow u)
  | .ok (v, stack) =>
    let text := v.text ++ "\n"
    let t := { s with stack := stack, out := s.out.write text }
    match s.out.writeError? text with
    | some e => .halt t (.outputFailed e)
    | none => .halt t (.returned v)

/-- Pushes a value. -/
def push (v : Value) (s : State) : State := { s with stack := s.stack.push v }

/-- Loads the constant that the byte at the offset names. -/
def load (c : Chunk) (s : State) : Transition :=
  match c.byte? s.offset with
  | none => .halt s (.malformed (.missingOperand s.offset))
  | some index =>
    match c.constant? index with
    | none => .halt s (.malformed (.constantOutOfRange index s.offset))
    | some (.number x) => .next { s.push (.number x) with offset := s.offset + 1 }
    -- The operand byte is not passed yet, so the line is that of the code byte.
    | some _ => s.failType c .operand

/-- Changes the number on top. -/
def onNumber (c : Chunk) (f : Binary64 → Binary64) (s : State) : Transition :=
  match s.stack.peek 0 with
  | .error u => .halt s (.underflow u)
  | .ok (.number x) => .next { s with stack := s.stack.set 0 (.number (f x)) }
  | .ok _ => s.failType c .operand

/-- Replaces the top value. -/
def onValue (f : Value → Value) (s : State) : Transition :=
  match s.stack.pop with
  | .error u => .halt s (.underflow u)
  | .ok (v, stack) => .next { s with stack := stack.push (f v) }

/-- Replaces the two values on top by one. -/
def onValues (f : Value → Value → Value) (s : State) : Transition :=
  match s.stack.pop with
  | .error u => .halt s (.underflow u)
  | .ok (right, stack) =>
    match stack.pop with
    -- The right operand is gone by now.
    | .error u => .halt { s with stack := stack } (.underflow u)
    | .ok (left, stack) => .next { s with stack := stack.push (f left right) }

/-- Replaces the two numbers on top by one value. -/
def onNumbers (c : Chunk) (f : Binary64 → Binary64 → Value) (s : State) : Transition :=
  match s.stack.peek 1 with
  | .error u => .halt s (.underflow u)
  | .ok left =>
    match s.stack.peek 0 with
    | .error u => .halt s (.underflow u)
    | .ok right =>
      match left, right with
      | .number x, .number y => .next { s with stack := (s.stack.drop 2).push (f x y) }
      | _, _ => s.failType c .operands

/-- Performs an effect, with the code byte already passed. -/
def perform (c : Chunk) (s : State) : Effect → Transition
  | .finish => s.finish
  | .load => s.load c
  | .push v => .next (s.push v)
  | .onNumber f => s.onNumber c f
  | .onValue f => s.onValue f
  | .onValues f => s.onValues f
  | .onNumbers f => s.onNumbers c f

/-- **One step**: reads an instruction and performs it. -/
def step (c : Chunk) (s : State) : Transition :=
  match c.fetch? s.offset with
  | none => .halt s (.malformed (.pastEnd s.offset))
  | some (byte, next) =>
    -- The byte counts as read whether it names an instruction or not.
    let t := { s with offset := next }
    match Opcode.ofByte? byte with
    | none => .halt t (.malformed (.unknownOpcode byte s.offset))
    | some op => t.perform c op.effect

end State

end StackMachine

import StackMachine.Chunk
import StackMachine.Failure
import StackMachine.Literal
import StackMachine.Source

/-!
# Assembly

Assembling turns the instructions of a source into a chunk, one after the other. Next
to the chunk it keeps the depth that the operand stack would have, counted from empty,
and turns a source down as soon as an instruction would reach below the bottom. It
stops at the first fault; on one line the checks are made in a fixed order, and the
first that fails is the one reported.

An assembler is used for one source after the other and keeps what the last one left in
it: half a program, if that source was turned down, and a depth in any case. It forgets all
of it before it starts on the next source, so what it makes of a source is a function of the
source (`assemble`).
-/

namespace StackMachine

/-- **A program in the making.** -/
structure Assembly where
  /-- The instructions encoded so far. -/
  chunk : Chunk := {}
  /-- How many values they leave on a stack that was empty before. -/
  depth : Nat := 0
  deriving DecidableEq, Inhabited

namespace Assembly

/-- What can be wrong with an instruction. -/
inductive Fault where
  /-- The word names no instruction. -/
  | unknownInstruction (word : String)
  /-- The instruction needs an operand and has none. -/
  | missingOperand (mnemonic : String)
  /-- The instruction has an operand too many. -/
  | unexpectedOperand (mnemonic operand : String)
  /-- The instruction would reach below the bottom of the stack. -/
  | underflow (mnemonic : String)
  /-- The operand is no literal. -/
  | invalidLiteral (word : String)
  /-- The pool of constants is full. -/
  | tooManyConstants
  deriving DecidableEq, Inhabited

/-- How a fault reads. -/
def Fault.message : Fault → String
  | unknownInstruction word => "Unknown instruction '" ++ word ++ "'."
  | missingOperand mnemonic => "Expected an operand after '" ++ mnemonic ++ "'."
  | unexpectedOperand mnemonic operand =>
    "Unexpected operand '" ++ operand ++ "' after '" ++ mnemonic ++ "'."
  | underflow mnemonic => "Not enough operands on the stack for '" ++ mnemonic ++ "'."
  | invalidLiteral word => "Invalid literal '" ++ word ++ "'."
  | tooManyConstants => "Too many constants in one chunk."

/-- A fault and the line it is on. -/
structure Rejection where
  /-- What is wrong. -/
  fault : Fault
  /-- The line it is wrong on. -/
  line : Nat
  deriving DecidableEq, Inhabited

/-- A rejection in words. -/
def Rejection.toSourceError (r : Rejection) : SourceError := ⟨r.fault.message, r.line⟩

/-- Encodes an instruction whose operands are right in number. -/
def encode (c : Chunk) (op : Opcode) (operands : List String) (line : Nat) :
    Except Fault Chunk :=
  match op, operands with
  | .constant, word :: _ =>
    match Value.ofLiteral? word with
    | none => .error (.invalidLiteral word)
    | some v =>
      match c.pushLoad? v line with
      | none => .error .tooManyConstants
      | some (_, c) => .ok c
  | op, _ => .ok (c.pushOpcode op line)

/-- **Takes one more instruction**, or says what is wrong with it. -/
def extend (a : Assembly) (line : Source.Line) : Except Fault Assembly :=
  match Opcode.ofMnemonic? line.mnemonic with
  | none => .error (.unknownInstruction line.mnemonic)
  | some op =>
    if line.operands.length < op.operandCount then
      .error (.missingOperand op.mnemonic)
    else
      match line.operands[op.operandCount]? with
      | some extra => .error (.unexpectedOperand op.mnemonic extra)
      | none =>
        if a.depth < op.inputs then
          .error (.underflow op.mnemonic)
        else
          -- Literals are read last: an operand too many hides a literal that is none.
          match encode a.chunk op line.operands line.number with
          | .error fault => .error fault
          | .ok chunk => .ok ⟨chunk, a.depth - op.inputs + op.outputs⟩

/-- What stays in the assembler when an instruction is turned down. The depth is counted
on before the literal is read, so a bad literal leaves it one ahead of the code. -/
def abandon (a : Assembly) : Fault → Assembly
  | .invalidLiteral _ | .tooManyConstants => { a with depth := a.depth + 1 }
  | _ => a

/-- Takes a run of instructions, up to the first fault: what the assembler holds then, and
the fault if there is one. -/
def extendAll (a : Assembly) : List Source.Line → Assembly × Option Rejection
  | [] => (a, none)
  | line :: rest =>
    match a.extend line with
    | .error fault => (a.abandon fault, some ⟨fault, line.number⟩)
    | .ok a => a.extendAll rest

/-- The assembler with nothing in it. -/
def clear (a : Assembly) : Assembly := { a with chunk := .empty, depth := 0 }

/-- **Takes the next source**, whatever the last one left behind. A finished chunk is handed
out, but the depth it ended with stays. -/
def next (a : Assembly) (source : String) : Assembly × Except Rejection Chunk :=
  match a.clear.extendAll (Source.lines source) with
  | (a, some rejection) => (a, .error rejection)
  | (a, none) => ({ a with chunk := .empty }, .ok a.chunk)

end Assembly

/-- **Assembles a source** into a chunk, or names its first fault. -/
def assemble (source : String) : Except Assembly.Rejection Chunk :=
  (Assembly.next {} source).2

/-- What turns a source into a chunk. -/
abbrev Compiler := String → Except SourceError Chunk

/-- The compiler that assembles, with its rejections in words. -/
def assembler : Compiler := fun source =>
  match assemble source with
  | .error rejection => .error rejection.toSourceError
  | .ok chunk => .ok chunk

/-- **An assembler is none the wiser for the sources it has seen.** -/
theorem Assembly.next_eq_assemble (a : Assembly) (source : String) :
    (a.next source).2 = assemble source := rfl

end StackMachine

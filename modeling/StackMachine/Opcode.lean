/-!
# Instruction codes

The machine has twenty-two instructions. An instruction is one code byte, and one
operand byte behind it if it loads a constant. This module holds what is known of an
instruction without running it: its byte, its name, its size, and how many values it
takes from the operand stack and leaves there. What an instruction does to the values
is said elsewhere; that the two accounts agree is a theorem, not a definition.
-/

namespace StackMachine

/-- **The instructions**, in the order of their code bytes. -/
inductive Opcode where
  /-- Hands back the top value and ends the run. -/
  | ret
  /-- Loads the constant its operand byte names. -/
  | constant
  /-- Pushes true. -/
  | pushTrue
  /-- Pushes false. -/
  | pushFalse
  /-- Pushes nil. -/
  | pushNil
  /-- Negates the number on top. -/
  | negate
  /-- Adds one to the number on top. -/
  | increment
  /-- Takes one from the number on top. -/
  | decrement
  /-- Whether the top value is falsey. -/
  | not
  /-- Whether both values are truthy. -/
  | and
  /-- Whether one of the values is truthy. -/
  | or
  /-- Whether just one of the values is truthy. -/
  | xor
  /-- Whether the values are equal. -/
  | equal
  /-- Whether the values differ. -/
  | notEqual
  /-- Whether the left number is at least the right one. -/
  | greaterEqual
  /-- Whether the left number is greater. -/
  | greater
  /-- Whether the left number is at most the right one. -/
  | lessEqual
  /-- Whether the left number is smaller. -/
  | less
  /-- The sum of two numbers. -/
  | add
  /-- The left number less the right one. -/
  | subtract
  /-- The product of two numbers. -/
  | multiply
  /-- The left number over the right one. -/
  | divide
  deriving DecidableEq, Inhabited

namespace Opcode

/-- Every instruction, each at the position of its code byte. -/
def all : List Opcode :=
  [ret, constant, pushTrue, pushFalse, pushNil, negate, increment, decrement, not, and,
    or, xor, equal, notEqual, greaterEqual, greater, lessEqual, less, add, subtract,
    multiply, divide]

/-- The code byte of an instruction. -/
def byte : Opcode → UInt8
  | ret => 0
  | constant => 1
  | pushTrue => 2
  | pushFalse => 3
  | pushNil => 4
  | negate => 5
  | increment => 6
  | decrement => 7
  | not => 8
  | and => 9
  | or => 10
  | xor => 11
  | equal => 12
  | notEqual => 13
  | greaterEqual => 14
  | greater => 15
  | lessEqual => 16
  | less => 17
  | add => 18
  | subtract => 19
  | multiply => 20
  | divide => 21

/-- The instruction with a given code byte, if there is one. -/
def ofByte? (b : UInt8) : Option Opcode := all[b.toNat]?

/-- The name of an instruction. -/
def mnemonic : Opcode → String
  | ret => "RET"
  | constant => "CONSTANT"
  | pushTrue => "TRUE"
  | pushFalse => "FALSE"
  | pushNil => "NIL"
  | negate => "NEGATE"
  | increment => "INC"
  | decrement => "DEC"
  | not => "NOT"
  | and => "AND"
  | or => "OR"
  | xor => "XOR"
  | equal => "EQUAL"
  | notEqual => "NOT_EQUAL"
  | greaterEqual => "GREATER_EQUAL"
  | greater => "GREATER"
  | lessEqual => "LESS_EQUAL"
  | less => "LESS"
  | add => "ADD"
  | subtract => "SUB"
  | multiply => "MULT"
  | divide => "DIV"

/-- Whether a word names an instruction, in capital or small letters of ASCII. -/
def isNamed (op : Opcode) (word : String) : Bool :=
  decide (op.mnemonic.toList = word.toList.map Char.toUpper)

/-- The instruction a word names, if there is one. -/
def ofMnemonic? (word : String) : Option Opcode := all.find? fun op => op.isNamed word

/-- How many operand bytes stand behind the code byte. -/
def operandCount : Opcode → Nat
  | constant => 1
  | _ => 0

/-- How many bytes the instruction takes in all. -/
def size (op : Opcode) : Nat := 1 + op.operandCount

/-- How many values the instruction takes from the operand stack. -/
def inputs : Opcode → Nat
  | constant | pushTrue | pushFalse | pushNil => 0
  | ret | negate | increment | decrement | not => 1
  | _ => 2

/-- How many values the instruction leaves in their place. -/
def outputs : Opcode → Nat
  | ret => 0
  | _ => 1

/-- Whether the instruction ends the run. -/
def isTerminator : Opcode → Bool
  | ret => true
  | _ => false

/-- Whether the instruction combines two numbers into a number. -/
def isArithmetic : Opcode → Bool
  | add | subtract | multiply | divide => true
  | _ => false

/-- Whether the instruction compares two numbers. -/
def isOrdering : Opcode → Bool
  | greaterEqual | greater | lessEqual | less => true
  | _ => false

/-- Whether the instruction changes the number on top. -/
def isUnaryNumeric : Opcode → Bool
  | negate | increment | decrement => true
  | _ => false

/-! ## The tables agree -/

/-- **A code byte names its instruction.** -/
@[simp] theorem ofByte?_byte (op : Opcode) : ofByte? op.byte = some op := by
  cases op <;> rfl

/-- Only an instruction's own byte decodes to it. -/
theorem eq_byte_of_ofByte? {b : UInt8} {op : Opcode} (h : ofByte? b = some op) :
    b = op.byte := by
  have hb : b.toNat < 22 := by
    have := (List.getElem?_eq_some_iff.1 h).1
    simpa [all] using this
  have hall : ∀ n : Fin 22, ∀ o, all[n.val]? = some o → n.val = o.byte.toNat := by decide
  exact UInt8.toNat_inj.1 (hall ⟨b.toNat, hb⟩ op h)

/-- A byte names no instruction exactly from twenty-two on. -/
theorem ofByte?_eq_none_iff {b : UInt8} : ofByte? b = none ↔ 22 ≤ b.toNat := by
  simp [ofByte?, all]

/-- **A name stands for its instruction.** -/
@[simp] theorem ofMnemonic?_mnemonic (op : Opcode) : ofMnemonic? op.mnemonic = some op := by
  cases op <;> decide

/-- No two instructions have one name. -/
theorem mnemonic_injective {op other : Opcode} (h : op.mnemonic = other.mnemonic) :
    op = other := by
  have hsome := ofMnemonic?_mnemonic op
  rw [h, ofMnemonic?_mnemonic] at hsome
  exact (Option.some.inj hsome).symm

theorem isNamed_of_ofMnemonic? {word : String} {op : Opcode}
    (h : ofMnemonic? word = some op) : op.isNamed word = true := by
  have hfound := List.find?_some h
  exact hfound

/-- **A word names an instruction exactly if it is the name once its letters are
capitals.** -/
theorem ofMnemonic?_eq_some_iff {word : String} {op : Opcode} :
    ofMnemonic? word = some op ↔ word.toList.map Char.toUpper = op.mnemonic.toList := by
  constructor
  · intro h
    exact (of_decide_eq_true (isNamed_of_ofMnemonic? h)).symm
  · intro h
    -- Something is found, and what is found has the name of `op`.
    have hall : op ∈ all := by cases op <;> decide
    cases hfind : ofMnemonic? word with
    | none => exact absurd (decide_eq_true h.symm) (List.find?_eq_none.1 hfind op hall)
    | some other =>
      have hother := of_decide_eq_true (isNamed_of_ofMnemonic? hfind)
      exact congrArg some (mnemonic_injective (String.toList_inj.1 (hother.trans h)))

/-- Every instruction takes a byte or two. -/
theorem size_pos (op : Opcode) : 0 < op.size := by
  simp only [size]
  omega

@[simp] theorem size_constant : constant.size = 2 := rfl

/-- All instructions but one are a single byte. -/
theorem size_eq_one {op : Opcode} (h : op ≠ constant) : op.size = 1 := by
  cases op with
  | constant => exact absurd rfl h
  | _ => rfl

end Opcode

end StackMachine

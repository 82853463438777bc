import StackMachine.Opcode
import StackMachine.Value

/-!
# Chunks

A chunk is a program in its encoded form: code bytes, a pool of constants that the
code names by index, and for every code byte the number of the source line it came
from.

A chunk is built by appending. What is appended by `push` keeps code and lines in
step, but a chunk may also be given from outside with a line table that is too short
or too long, so every look-up answers with an option and nothing assumes that the
tables fit.

An index into the pool is one byte, so the pool holds `maxConstants` constants at
most. Adding to a full pool fails and leaves the chunk alone.
-/

namespace StackMachine

/-- **A program in its encoded form.** -/
structure Chunk where
  /-- Code bytes and operand bytes. -/
  code : Array UInt8 := #[]
  /-- The pool of constants. -/
  constants : Array Value := #[]
  /-- The source line of each byte of the code. -/
  lines : Array Nat := #[]
  deriving DecidableEq, Inhabited

namespace Chunk

/-- How many constants one byte can tell apart. -/
def maxConstants : Nat := 256

/-- The chunk without code, lines and constants. -/
def empty : Chunk := {}

/-- The number of code bytes. -/
def size (c : Chunk) : Nat := c.code.size

/-- Whether there is no code. -/
def isEmpty (c : Chunk) : Bool := c.code.isEmpty

/-- The byte at an offset. -/
def byte? (c : Chunk) (offset : Nat) : Option UInt8 := c.code[offset]?

/-- Reads the byte at an offset: the byte, and the offset past it. -/
def fetch? (c : Chunk) (offset : Nat) : Option (UInt8 × Nat) :=
  (c.byte? offset).map fun byte => (byte, offset + 1)

/-- The constant with an index. -/
def constant? (c : Chunk) (index : UInt8) : Option Value := c.constants[index.toNat]?

/-- The source line of the byte at an offset. -/
def line? (c : Chunk) (offset : Nat) : Option Nat := c.lines[offset]?

/-- Appends a byte that comes from the given line. -/
def push (c : Chunk) (byte : UInt8) (line : Nat) : Chunk :=
  { c with code := c.code.push byte, lines := c.lines.push line }

/-- Appends the code byte of an instruction. -/
def pushOpcode (c : Chunk) (op : Opcode) (line : Nat) : Chunk := c.push op.byte line

/-- Adds a constant to the pool and gives its index; nothing if the pool is full. -/
def pool? (c : Chunk) (v : Value) : Option (UInt8 × Chunk) :=
  if c.constants.size < maxConstants then
    some (UInt8.ofNat c.constants.size, { c with constants := c.constants.push v })
  else none

/-- Adds a constant and the instruction that loads it; nothing if the pool is
full. -/
def pushLoad? (c : Chunk) (v : Value) (line : Nat) : Option (UInt8 × Chunk) :=
  (c.pool? v).map fun (index, c) =>
    (index, (c.pushOpcode .constant line).push index line)

/-- Whether two pools hold equal values in the same order, by the machine's
equality. -/
def equalPools : List Value → List Value → Bool
  | [], [] => true
  | v :: vs, w :: ws => v.equals w && equalPools vs ws
  | _, _ => false

/-- Equality of chunks: same code, same lines, and constants that are equal to the
machine. A chunk with a constant that is no number differs from itself. -/
def equals (c d : Chunk) : Bool :=
  decide (c.code = d.code) && equalPools c.constants.toList d.constants.toList &&
    decide (c.lines = d.lines)

/-! ## What appending does to the look-ups -/

@[simp] theorem size_push (c : Chunk) (b : UInt8) (line : Nat) :
    (c.push b line).size = c.size + 1 := by
  simp [size, push]

@[simp] theorem constants_push (c : Chunk) (b : UInt8) (line : Nat) :
    (c.push b line).constants = c.constants := rfl

/-- The byte just appended is the last one, and no other has changed. -/
theorem byte?_push (c : Chunk) (b : UInt8) (line offset : Nat) :
    (c.push b line).byte? offset = if offset = c.size then some b else c.byte? offset :=
  Array.getElem?_push

/-- A byte can be read exactly where there is one, and reading moves past it. -/
theorem fetch?_eq_some_iff {c : Chunk} {offset next : Nat} {byte : UInt8} :
    c.fetch? offset = some (byte, next) ↔ c.byte? offset = some byte ∧ next = offset + 1 := by
  rw [fetch?, Option.map_eq_some_iff]
  constructor
  · rintro ⟨b, hb, heq⟩
    obtain ⟨rfl, rfl⟩ := Prod.mk.injEq .. ▸ heq
    exact ⟨hb, rfl⟩
  · rintro ⟨hb, rfl⟩
    exact ⟨byte, hb, rfl⟩

/-- Where there is a byte, the code has not ended. -/
theorem lt_size_of_byte? {c : Chunk} {offset : Nat} {byte : UInt8}
    (h : c.byte? offset = some byte) : offset < c.size :=
  (Array.getElem?_eq_some_iff.1 h).1

/-- **Adding a constant fails exactly when the pool is full.** -/
theorem pool?_eq_none_iff {c : Chunk} {v : Value} :
    c.pool? v = none ↔ maxConstants ≤ c.constants.size := by
  simp [pool?]

/-- **A constant is found under the index it was given.** -/
theorem constant?_of_pool? {c d : Chunk} {v : Value} {index : UInt8}
    (h : c.pool? v = some (index, d)) : d.constant? index = some v := by
  unfold pool? at h
  split at h
  · rename_i hlt
    obtain ⟨rfl, rfl⟩ := Prod.mk.injEq .. ▸ Option.some.inj h
    have hidx : (UInt8.ofNat c.constants.size).toNat = c.constants.size :=
      Nat.mod_eq_of_lt hlt
    simp [constant?, hidx]
  · exact absurd h (by simp)

end Chunk

end StackMachine

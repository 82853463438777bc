import StackMachine.Chunk

/-!
# Listings

A listing shows a chunk row by row: the offset, the source line, and the instruction
with its constant. It is made for chunks of any bytes, so a row also exists for a byte
that is no instruction, for an operand that is missing or names no constant, and for
an offset past the end of the code.

A row is data first (`Row`) and text second (`Row.text`). Its line column says `same`
when the line of the byte is that of the byte before it, where two look-ups that find
nothing count as the same. The offset of the next row follows from what the row
shows (`Row.next`) and is always greater, which is why listing a chunk comes to an
end.
-/

namespace StackMachine

namespace Listing

/-- What the line column of a row shows. -/
inductive LineMark where
  /-- The line of the byte. -/
  | line (number : Nat)
  /-- The line is that of the byte before. -/
  | same
  /-- The line table has no entry for the byte. -/
  | unknown
  deriving DecidableEq

/-- What stands at an offset. -/
inductive Content where
  /-- An instruction without operand. -/
  | instruction (op : Opcode)
  /-- The loading of a constant. -/
  | constant (index : UInt8) (value : Value)
  /-- The loading of a constant that is not in the pool. -/
  | invalid (index : UInt8)
  /-- The loading of a constant, with no operand byte behind it. -/
  | missingOperand
  /-- A byte that is no instruction. -/
  | unknown (byte : UInt8)
  /-- No byte at all. -/
  | endOfCode
  deriving DecidableEq

/-- **One row of a listing.** -/
structure Row where
  /-- The offset the row is about. -/
  offset : Nat
  /-- Its line column. -/
  mark : LineMark
  /-- Its instruction column. -/
  content : Content
  deriving DecidableEq

/-- The line column for an offset. -/
def markAt (c : Chunk) (offset : Nat) : LineMark :=
  if 0 < offset ∧ c.line? offset = c.line? (offset - 1) then .same
  else
    match c.line? offset with
    | some number => .line number
    | none => .unknown

/-- The instruction column for an offset. -/
def contentAt (c : Chunk) (offset : Nat) : Content :=
  match c.byte? offset with
  | none => .endOfCode
  | some byte =>
    match Opcode.ofByte? byte with
    | none => .unknown byte
    | some .constant =>
      match c.byte? (offset + 1) with
      | none => .missingOperand
      | some index =>
        match c.constant? index with
        | some value => .constant index value
        | none => .invalid index
    | some op => .instruction op

/-- The row for an offset. -/
def rowAt (c : Chunk) (offset : Nat) : Row :=
  ⟨offset, markAt c offset, contentAt c offset⟩

/-- How many offsets a row accounts for. -/
def Content.width : Content → Nat
  | instruction op => op.size
  | constant .. | invalid _ | missingOperand => Opcode.constant.size
  | unknown _ | endOfCode => 1

/-- The offset of the row that follows. -/
def Row.next (r : Row) : Nat := r.offset + r.content.width

/-! ## The text of a row -/

/-- The line column as text, five characters wide for lines of up to four digits. -/
def LineMark.text : LineMark → String
  | line number => Decimal.column ' ' 4 number ++ " "
  | same => "   | "
  | unknown => "   ? "

/-- The name of the loading instruction, set left in its column. -/
def loadColumn : String :=
  String.ofList (Opcode.constant.mnemonic.toList.rightpad 16 ' ') ++ " "

/-- The instruction column as text. -/
def Content.text : Content → String
  | instruction op => op.mnemonic
  | constant index value =>
    loadColumn ++ Decimal.column ' ' 4 index.toNat ++ " '" ++ value.text ++ "'"
  | invalid index => loadColumn ++ Decimal.column ' ' 4 index.toNat ++ " <invalid>"
  | missingOperand => loadColumn ++ "<missing operand>"
  | unknown byte => "Unknown opcode " ++ Decimal.text byte.toNat
  | endOfCode => "<end of chunk>"

/-- A row as text, without a line end. -/
def Row.text (r : Row) : String :=
  Decimal.column '0' 4 r.offset ++ " " ++ r.mark.text ++ r.content.text

/-! ## Whole listings -/

/-- A row accounts for at least one offset. -/
theorem Content.width_pos (content : Content) : 0 < content.width := by
  cases content with
  | instruction op => exact op.size_pos
  | constant | invalid | missingOperand => exact Opcode.constant.size_pos
  | unknown | endOfCode => exact Nat.one_pos

/-- **Rows move forward.** -/
theorem Row.lt_next (r : Row) : r.offset < r.next :=
  Nat.lt_add_of_pos_right r.content.width_pos

/-- The rows of a chunk from an offset to the end of its code. -/
def rowsFrom (c : Chunk) (offset : Nat) : List Row :=
  if offset < c.size then rowAt c offset :: rowsFrom c (rowAt c offset).next else []
termination_by c.size - offset
decreasing_by
  have := (rowAt c offset).lt_next
  simp only [rowAt] at this ⊢
  omega

/-- The rows of a chunk. -/
def rows (c : Chunk) : List Row := rowsFrom c 0

/-- **The listing of a chunk** under a heading: one line for each row. -/
def text (c : Chunk) (name : String) : String :=
  "== " ++ name ++ " ==\n" ++ String.join ((rows c).map fun r => r.text ++ "\n")

/-- The name under which an assembled program is listed. -/
def programName : String := "code"

end Listing

end StackMachine

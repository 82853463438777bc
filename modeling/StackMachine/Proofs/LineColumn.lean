import StackMachine.Proofs.Building
import StackMachine.Proofs.Decoding

/-!
# What the line column says

A row shows a line only where it differs from the line of the byte before. Somebody who reads the
column from top to bottom and takes a bar for the last number above it (`LineMark.readDown`) should
learn the line of every instruction. That works out for chunks that were built from whole
instructions, whatever lines they come from, in whatever order (`lines_read_down`).

What makes it work is the operand bytes. A bar refers to the byte before, which may well be an
operand, whereas a reader goes by the row above, which is about a code byte. An operand byte
therefore has to have the line of the instruction that it belongs to, and when a load is added, it
does. Where the code is laid out like that (`Chunk.LaidOut`), the last number shown is always the
line of the last byte.

The column is read off the printed rows (`lineColumn`), and not off the data behind them.
-/

namespace StackMachine

/-! ## Chunks of whole instructions -/

namespace Chunk

/-- Edits that append a whole instruction. To write the code byte of a load is none of them, as
it leaves the operand to be written by somebody else. -/
inductive Edit.Appends : Edit → Prop where
  /-- To write an instruction that has no operand. -/
  | plain {op : Opcode} {line : Nat} (other : op ≠ .constant) : Appends (.writeOpcode op line)
  /-- To add a load and its constant. -/
  | load {v : Value} {line : Nat} : Appends (.emitConstant v line)

/-- The line of the instruction that was appended, if one was: a load is not if the pool is full. -/
def Edit.line? : Edit × Receipt → Option Nat
  | (.writeOpcode _ line, _) => some line
  | (.emitConstant _ line, .index _) => some line
  | _ => none

/-- **From an offset on, a chunk is made of whole instructions**, and every byte of an instruction
has the line that it is listed with here. -/
inductive LaidOut (c : Chunk) : Nat → List Nat → Prop where
  /-- Behind the last instruction the code has ended. -/
  | done : LaidOut c c.size []
  /-- An instruction without operand. -/
  | plain {offset line : Nat} {rest : List Nat} {op : Opcode} (other : op ≠ .constant)
      (code : c.byte? offset = some op.byte) (place : c.line? offset = some line)
      (tail : LaidOut c (offset + 1) rest) : LaidOut c offset (line :: rest)
  /-- A load. -/
  | load {offset line : Nat} {rest : List Nat} {index : UInt8} {v : Value}
      (code : c.byte? offset = some Opcode.constant.byte)
      (operand : c.byte? (offset + 1) = some index) (found : c.constant? index = some v)
      (place : c.line? offset = some line) (place' : c.line? (offset + 1) = some line)
      (tail : LaidOut c (offset + 2) rest) : LaidOut c offset (line :: rest)

variable {c : Chunk} {edits : List Edit}

/-- **Appending instructions lays them out**, behind what was there before. -/
theorem laidOut_of_respond (level : c.IsLevel) (whole : ∀ e ∈ edits, e.Appends) :
    c.Begins (respond edit c edits).1 ∧
      (respond edit c edits).1.LaidOut c.size
        ((respond edit c edits).2.filterMap Edit.line?) := by
  induction edits generalizing c with
  | nil => exact ⟨.refl c, .done⟩
  | cons e rest ih =>
    obtain ⟨hfirst, hrest⟩ := List.forall_mem_cons.1 whole
    rw [respond_cons]
    cases hfirst with
    | @plain op line other =>
      obtain ⟨hbegins, htail⟩ := ih (level.push op.byte line) hrest
      obtain ⟨code, place⟩ := hbegins.of_push level
      rw [size_push] at htail
      exact ⟨(begins_push _ _ _).trans hbegins, .plain other code place htail⟩
    | @load v line =>
      rcases Nat.lt_or_ge c.constants.size maxConstants with room | full
      · have hload : c.pushLoad? v line = some (UInt8.ofNat c.constants.size, c.withLoad v line) :=
          pushLoad?_eq_some_iff.2 ⟨room, rfl, rfl⟩
        have hedit : c.edit (.emitConstant v line)
            = (c.withLoad v line, .index (UInt8.ofNat c.constants.size)) := by
          rw [edit, hload]
        obtain ⟨hbegins, htail⟩ := ih (level.withLoad v line) hrest
        obtain ⟨code, operand, found, place, place'⟩ := hbegins.of_withLoad level
        rw [size_withLoad] at htail
        rw [← constant?_of_toNat (toNat_ofNat_of_lt room)] at found
        rw [hedit]
        exact ⟨(begins_withLoad c v line).trans hbegins,
          .load code operand found place place' htail⟩
      · rw [edit_of_full rfl full]
        exact ih level hrest

end Chunk

namespace Listing

/-! ## Reading the column -/

/-- What a mark is read as behind the last number above it. -/
def LineMark.readAfter (last : Option Nat) : LineMark → Option Nat
  | line number => some number
  | same => last
  | unknown => none

/-- **Reads the line column from top to bottom**, with a bar for the last number above it. -/
def LineMark.readDown (last : Option Nat) : List LineMark → List (Option Nat)
  | [] => []
  | mark :: rest => mark.readAfter last :: readDown (mark.readAfter last) rest

/-! ## The column of a chunk of whole instructions -/

variable {c : Chunk} {offset next line : Nat} {last : Option Nat} {lines rest : List Nat}

/-- From an offset on, the column is read as these lines, and is never without an answer. -/
structure ReadsAs (c : Chunk) (offset : Nat) (last : Option Nat) (lines : List Nat) : Prop where
  /-- Every row is read as a line. -/
  read : LineMark.readDown last ((rowsFrom c offset).map Row.mark) = lines.map some
  /-- Every row shows a line or a bar. -/
  known : ∀ r ∈ rowsFrom c offset, r.mark ≠ .unknown

/-- **A reader who knows the line of the byte before learns the line of the byte.** -/
theorem readAfter_markAt (place : c.line? offset = some line)
    (before : 0 < offset → c.line? (offset - 1) = last) :
    (markAt c offset).readAfter last = some line ∧ markAt c offset ≠ .unknown := by
  by_cases hsame : 0 < offset ∧ c.line? offset = c.line? (offset - 1)
  · rw [markAt, if_pos hsame]
    refine ⟨?_, by simp⟩
    rw [← place, hsame.2, before hsame.1]
    rfl
  · rw [markAt, if_neg hsame, place]
    exact ⟨rfl, by simp⟩

/-- So the row is read as that line, and the rows behind it by somebody who knows it. -/
theorem ReadsAs.row (inside : offset < c.size) (hnext : (rowAt c offset).next = next)
    (place : c.line? offset = some line) (before : 0 < offset → c.line? (offset - 1) = last)
    (behind : ReadsAs c next (some line) rest) : ReadsAs c offset last (line :: rest) := by
  obtain ⟨hread, hknown⟩ := readAfter_markAt place before
  have hmark : (rowAt c offset).mark = markAt c offset := rfl
  constructor
  · rw [rowsFrom_of_lt inside, hnext, List.map_cons, LineMark.readDown, hmark, hread, behind.read,
      List.map_cons]
  · rw [rowsFrom_of_lt inside, hnext]
    exact List.forall_mem_cons.2 ⟨hknown, behind.known⟩

/-- **The column is read as the lines of the instructions**, if they are laid out from an offset on
and the line of the byte before it is known. -/
theorem readsAs_of_laidOut (h : c.LaidOut offset lines)
    (before : 0 < offset → c.line? (offset - 1) = last) : ReadsAs c offset last lines := by
  induction h generalizing last with
  | done => exact ⟨by rw [rowsFrom_of_eq rfl]; rfl, by rw [rowsFrom_of_eq rfl]; simp⟩
  | plain other code place tail ih =>
    exact .row (Chunk.lt_size_of_byte? code) (next_rowAt_of_plain other code) place before
      (ih fun _ => place)
  | load code operand found place place' tail ih =>
    -- The byte before the next row is the operand, and has the line of its load.
    exact .row (Chunk.lt_size_of_byte? code) (next_rowAt_of_load code operand found) place before
      (ih fun _ => place')

/-- **The line column of a listing tells the line of every instruction**, if the chunk was built from
the empty one by appending whole instructions. The listing is its heading and a number of lines of
text. Their column is never without an answer, and reading it from top to bottom gives, one for each
instruction and in order, the lines that the instructions were appended with. -/
theorem lines_read_down {edits : List Chunk.Edit}
    {transcript : List (Chunk.Edit × Chunk.Receipt)} (whole : ∀ e ∈ edits, e.Appends)
    (h : respond Chunk.edit .empty edits = (c, transcript)) (name : String) :
    ∃ rows : List String,
      text c name = "== " ++ name ++ " ==\n" ++ String.join (rows.map fun row => row ++ "\n") ∧
      (∀ row ∈ rows, '\n' ∉ row.toList) ∧
      (∀ row ∈ rows, lineColumn row.toList ≠ .unknown) ∧
      LineMark.readDown none (rows.map fun row => lineColumn row.toList)
        = (transcript.filterMap Chunk.Edit.line?).map some := by
  have hlaid : c.LaidOut 0 (transcript.filterMap Chunk.Edit.line?) := by
    have hall := (Chunk.laidOut_of_respond (c := .empty) rfl whole).2
    rw [h] at hall
    exact hall
  have hfirst : 0 < 0 → c.line? (0 - 1) = none := fun hpos => absurd hpos (Nat.lt_irrefl 0)
  obtain ⟨hread, hknown⟩ := readsAs_of_laidOut hlaid hfirst
  have hcolumn : ((rows c).map Row.text).map (fun row => lineColumn row.toList)
      = (rows c).map Row.mark := by
    rw [List.map_map]
    refine List.map_congr_left fun r _ => ?_
    rw [Function.comp_apply, lineColumn_text]
  refine ⟨(rows c).map Row.text, ?_, ?_, ?_, ?_⟩
  · rw [text, List.map_map]
    rfl
  · exact List.forall_mem_map.2 fun r _ => r.isOneLine
  · refine List.forall_mem_map.2 fun r hr => ?_
    rw [lineColumn_text]
    exact hknown r hr
  · rw [hcolumn]
    exact hread

/-- Loads and other instructions from two lines that take turns. Two of the five rows show a bar, and
the byte before the second of these is an operand. -/
theorem lines_read_down_two_lines :
    ∃ (edits : List Chunk.Edit) (c : Chunk) (transcript : List (Chunk.Edit × Chunk.Receipt)),
      edits = [.writeOpcode .pushTrue 7, .emitConstant .nil 7, .emitConstant (.bool true) 3,
        .writeOpcode .and 3, .writeOpcode .ret 7] ∧
      (∀ e ∈ edits, e.Appends) ∧ respond Chunk.edit .empty edits = (c, transcript) ∧
      (Listing.rows c).map (fun r => (r.offset, r.mark))
        = [(0, .line 7), (1, .same), (3, .line 3), (5, .same), (6, .line 7)] ∧
      ∃ rows : List String,
        text c "code" = "== code ==\n" ++ String.join (rows.map fun row => row ++ "\n") ∧
        (∀ row ∈ rows, '\n' ∉ row.toList) ∧
        LineMark.readDown none (rows.map fun row => lineColumn row.toList)
          = [some 7, some 7, some 3, some 3, some 7] := by
  have whole : ∀ e ∈ [Chunk.Edit.writeOpcode .pushTrue 7, .emitConstant .nil 7,
      .emitConstant (.bool true) 3, .writeOpcode .and 3, .writeOpcode .ret 7], e.Appends := by
    intro e he
    simp only [List.mem_cons, List.not_mem_nil, or_false] at he
    rcases he with rfl | rfl | rfl | rfl | rfl
    · exact .plain (by decide)
    · exact .load
    · exact .load
    · exact .plain (by decide)
    · exact .plain (by decide)
  have hrun : ∀ result, respond Chunk.edit .empty [.writeOpcode .pushTrue 7, .emitConstant .nil 7,
      .emitConstant (.bool true) 3, .writeOpcode .and 3, .writeOpcode .ret 7] = result →
      (Listing.rows result.1).map (fun r => (r.offset, r.mark))
        = [(0, .line 7), (1, .same), (3, .line 3), (5, .same), (6, .line 7)] ∧
      result.2.filterMap Chunk.Edit.line? = [7, 7, 3, 3, 7] := by
    rintro _ rfl
    decide +kernel
  generalize hedits : respond Chunk.edit .empty _ = result at hrun
  obtain ⟨hshown, hwritten⟩ := hrun result rfl
  obtain ⟨c, transcript⟩ := result
  obtain ⟨rows, htext, hlines, -, hread⟩ := lines_read_down whole hedits "code"
  rw [hwritten] at hread
  exact ⟨_, c, transcript, rfl, whole, hedits, hshown, rows, htext, hlines, hread⟩

end Listing

end StackMachine

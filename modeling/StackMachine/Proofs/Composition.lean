import Mathlib.Data.List.Basic
import StackMachine.Proofs.Decoding

/-!
# One source behind another

Two sources with a line feed between them are one source, and what is assembled of it can be
told from what is assembled of the two (`assemble_append`). The code of the second follows the
code of the first, with every operand byte moved up by the number of constants that are there
already; the constants follow the constants, and the lines are counted on. Nothing can go wrong
that has not gone wrong before, but for one thing: two pools that are small enough may be too
large together.

Three facts carry this. The instructions of the two sources are those of both, the later ones
only further down (`Source.lines_append`). What is in order on an empty stack is in order on any
deeper one, so instructions that were checked by themselves are in order on what the first source
leaves (`Proper.mono`). And the same instructions laid out in two chunks, at different offsets and
with different numbers of constants before them, differ in their lines by what they were
lowered and in their bytes by what the operands were moved (`Encodes.moved`).

Which bytes are operands is read off the listing (`Listing.operands`): a byte does not show what
it is, and an index may well be the code of an instruction.
-/

namespace StackMachine

namespace Source

/-! ## The instructions of two sources -/

/-- How many lines a text ends by a line feed. -/
def lineFeeds (text : String) : Nat := text.toList.count '\n'

/-- There is one line more than there are line feeds. -/
theorem length_rawLines (text : String) : (rawLines text).length = lineFeeds text + 1 := by
  unfold rawLines lineFeeds
  induction text.toList with
  | nil => rfl
  | cons c cs ih =>
    rw [List.splitOnP_cons_eq_if_modifyHead, List.count_cons]
    by_cases hc : c = '\n'
    · rw [if_pos (beq_iff_eq.2 hc), if_pos (beq_iff_eq.2 hc), List.length_cons, ih]
    · have hne : ¬(c == '\n') = true := fun h => hc (beq_iff_eq.1 h)
      rw [if_neg hne, if_neg hne, List.length_modifyHead, ih]

/-- The same instruction so many lines further down. -/
def Line.lower (count : Nat) (line : Line) : Line :=
  { line with number := line.number + count }

theorem Line.isLoad_lower (count : Nat) (line : Line) :
    (line.lower count).isLoad = line.isLoad := rfl

/-- Lines that are counted from a later number on hold the same instructions, lowered. -/
theorem readFrom_add (number count : Nat) (css : List (List Char)) :
    readFrom (number + count) css = (readFrom number css).map (Line.lower count) := by
  induction css generalizing number with
  | nil => rfl
  | cons cs rest ih =>
    unfold readFrom readLine?
    rw [Nat.add_right_comm, ih (number + 1)]
    cases Text.words (uncomment cs) with
    | nil => rfl
    | cons word words => rfl

/-- **The instructions of two sources are those of the first and, further down, those of the
second.** -/
theorem lines_append (front back : String) :
    lines (front ++ "\n" ++ back)
      = lines front ++ (lines back).map (Line.lower (lineFeeds front + 1)) := by
  unfold lines
  rw [rawLines_append, readFrom_append, length_rawLines, readFrom_add]

/-- The loads among lowered instructions are the lowered loads. -/
theorem filter_isLoad_lower (count : Nat) (lines : List Line) :
    (lines.map (Line.lower count)).filter Line.isLoad
      = (lines.filter Line.isLoad).map (Line.lower count) := by
  rw [List.filter_map]
  exact congrArg (List.map _) (List.filter_congr fun line _ => line.isLoad_lower count)

end Source

/-! ## Instructions that are in order -/

theorem Source.Line.StandsFor.lower {line : Source.Line} {op : Opcode} (h : line.StandsFor op)
    (count : Nat) : (line.lower count).StandsFor op := by
  cases h with
  | plain named other bare => exact .plain named other bare
  | load named single literal => exact .load named single literal

namespace Proper

variable {depth : Nat} {lines : List Source.Line}

/-- **More values do no harm**: what is in order on a stack is in order on a deeper one. -/
theorem mono (h : Proper depth lines) {deeper : Nat} (hle : depth ≤ deeper) :
    Proper deeper lines := by
  induction h generalizing deeper with
  | done => exact .done
  | step stands enough tail ih =>
    refine .step stands (Nat.le_trans enough hle) (ih ?_)
    exact Nat.add_le_add_right (Nat.sub_le_sub_right hle _) _

theorem lower (h : Proper depth lines) (count : Nat) :
    Proper depth (lines.map (Source.Line.lower count)) := by
  induction h with
  | done => exact .done
  | step stands enough tail ih => exact .step (stands.lower count) enough ih

end Proper

namespace Assembly

/-! ## What the assembler makes of many instructions -/

variable {a b : Assembly} {line : Source.Line} {lines rest : List Source.Line}

theorem extendAll_of_takes (h : Takes a line b) (rest : List Source.Line) :
    a.extendAll (line :: rest) = b.extendAll rest := by
  rw [extendAll, extend_eq_ok_iff.2 h]

/-- Two runs of instructions are taken one after the other, the second one only if the first is
taken whole. -/
theorem extendAll_append (a : Assembly) (front back : List Source.Line) :
    a.extendAll (front ++ back)
      = match a.extendAll front with
        | (b, none) => b.extendAll back
        | (b, some rejection) => (b, some rejection) := by
  induction front generalizing a with
  | nil => rfl
  | cons line rest ih =>
    rw [List.cons_append, extendAll, extendAll]
    cases a.extend line with
    | error fault => rfl
    | ok b => exact ih b

/-- Instructions that are taken leave their literals in the pool, one for each load. -/
theorem size_constants_of_extendAll (h : a.extendAll lines = (b, none)) :
    b.chunk.constants.size = a.chunk.constants.size + lines.countP Source.Line.isLoad := by
  induction lines generalizing a with
  | nil =>
    cases h
    rfl
  | cons line rest ih =>
    obtain ⟨a', htakes, hrest⟩ := extendAll_cons_eq_none_iff.1 h
    rw [ih hrest, List.countP_cons]
    cases htakes with
    | plain named other bare enough =>
      rw [Source.Line.isLoad_of_ne named other]
      rfl
    | @load word v named single literal room =>
      rw [Source.Line.isLoad_of_named named, if_pos rfl, Chunk.size_constants_withLoad]
      omega

theorem isLevel_of_extendAll (level : a.chunk.IsLevel) (h : a.extendAll lines = (b, none)) :
    b.chunk.IsLevel := by
  induction lines generalizing a with
  | nil =>
    cases h
    exact level
  | cons line rest ih =>
    obtain ⟨a', htakes, hrest⟩ := extendAll_cons_eq_none_iff.1 h
    exact ih (htakes.isLevel level) hrest

/-- **What the assembler does with an instruction that is in order**: it takes it, unless it is a
load and the pool is full. -/
theorem extend_cases {op : Opcode} (stands : line.StandsFor op) (enough : op.inputs ≤ a.depth) :
    (∃ chunk, Takes a line ⟨chunk, a.depth - op.inputs + op.outputs⟩ ∧
        chunk.constants.size = a.chunk.constants.size + (if line.isLoad then 1 else 0) ∧
        (line.isLoad = true → a.chunk.constants.size < Chunk.maxConstants)) ∨
      (line.isLoad = true ∧ Chunk.maxConstants ≤ a.chunk.constants.size ∧
        a.extend line = .error .tooManyConstants) := by
  cases stands with
  | plain named other bare =>
    have hload : line.isLoad = false := Source.Line.isLoad_of_ne named other
    refine Or.inl ⟨_, .plain named other bare enough, ?_, fun h => ?_⟩
    · rw [hload]
      rfl
    · exact absurd (h.symm.trans hload) (by simp)
  | @load word v named single literal =>
    have hload : line.isLoad = true := Source.Line.isLoad_of_named named
    by_cases room : a.chunk.constants.size < Chunk.maxConstants
    · refine Or.inl ⟨_, .load named single literal room, ?_, fun _ => room⟩
      rw [hload, if_pos rfl, Chunk.size_constants_withLoad]
    · have hfull : a.chunk.pushLoad? v line.number = none := by
        rw [Chunk.pushLoad?, Chunk.pool?, if_neg room]
        rfl
      refine Or.inr ⟨hload, Nat.le_of_not_lt room, ?_⟩
      unfold extend
      rw [named, single]
      dsimp only [Opcode.operandCount, Opcode.inputs, encode]
      rw [literal]
      dsimp only
      rw [hfull]
      rfl

/-- **Instructions that are in order are taken if the pool has room for their literals.** -/
theorem exists_extendAll (h : Proper a.depth lines)
    (room : a.chunk.constants.size + lines.countP Source.Line.isLoad ≤ Chunk.maxConstants) :
    ∃ b, a.extendAll lines = (b, none) := by
  induction lines generalizing a with
  | nil => exact ⟨a, rfl⟩
  | cons line rest ih =>
    rw [List.countP_cons] at room
    cases h with
    | step stands enough tail =>
      rcases extend_cases stands enough with ⟨chunk, htakes, hsize, -⟩ | ⟨hload, hfull, -⟩
      · rw [extendAll_of_takes htakes]
        refine ih tail ?_
        rw [hsize]
        omega
      · rw [hload, if_pos rfl] at room
        omega

/-- **If it has not, they are turned down at the load that finds the pool full.** -/
theorem extendAll_of_overfull (h : Proper a.depth lines)
    (pool : a.chunk.constants.size ≤ Chunk.maxConstants)
    (excess : Chunk.maxConstants < a.chunk.constants.size + lines.countP Source.Line.isLoad) :
    ∃ line,
      (lines.filter Source.Line.isLoad)[Chunk.maxConstants - a.chunk.constants.size]? = some line ∧
      (a.extendAll lines).2 = some ⟨.tooManyConstants, line.number⟩ := by
  induction lines generalizing a with
  | nil => exact absurd excess (Nat.not_lt.2 pool)
  | cons line rest ih =>
    rw [List.countP_cons] at excess
    rw [List.filter_cons]
    cases h with
    | step stands enough tail =>
      rcases extend_cases stands enough with ⟨chunk, htakes, hsize, hroom⟩ | ⟨hload, hfull, hextend⟩
      · rw [extendAll_of_takes htakes]
        by_cases hload : line.isLoad = true
        · rw [if_pos hload] at hsize excess ⊢
          have hlt := hroom hload
          -- One load is behind us, and there is one index less.
          have hindex : Chunk.maxConstants - a.chunk.constants.size
              = Chunk.maxConstants - chunk.constants.size + 1 := by
            omega
          rw [hindex, List.getElem?_cons_succ]
          refine ih (a := ⟨chunk, _⟩) tail ?_ ?_
          · rw [hsize]
            exact hlt
          · rw [hsize]
            omega
        · rw [if_neg hload, Nat.add_zero] at hsize excess
          rw [if_neg hload, ← hsize]
          rw [← hsize] at pool excess
          exact ih (a := ⟨chunk, _⟩) tail pool excess
      · rw [if_pos hload, Nat.sub_eq_zero_of_le hfull]
        refine ⟨line, rfl, ?_⟩
        rw [extendAll, hextend]

/-- **All that can be held against instructions that are in order is that they are too many for
the pool.** -/
theorem exists_extendAll_iff (h : Proper a.depth lines)
    (pool : a.chunk.constants.size ≤ Chunk.maxConstants) :
    (∃ b, a.extendAll lines = (b, none)) ↔
      a.chunk.constants.size + lines.countP Source.Line.isLoad ≤ Chunk.maxConstants := by
  refine ⟨?_, exists_extendAll h⟩
  rintro ⟨b, hb⟩
  by_contra hover
  obtain ⟨line, -, hfault⟩ := extendAll_of_overfull h pool (Nat.lt_of_not_le hover)
  rw [hb] at hfault
  exact nomatch hfault

end Assembly

/-! ## The same instructions in two chunks -/

namespace Listing

/-- Whether there is an operand byte behind the code byte that a row is about. -/
def Row.hasOperand (r : Row) : Bool :=
  match r.content with
  | .constant .. | .invalid _ => true
  | _ => false

/-- The offsets of operand bytes, from the row at an offset on. -/
def operandsFrom (c : Chunk) (offset : Nat) : List Nat :=
  ((rowsFrom c offset).filter Row.hasOperand).map fun r => r.offset + 1

/-- **The offsets of the operand bytes of a chunk**, as its listing has them. -/
def operands (c : Chunk) : List Nat := operandsFrom c 0

variable {c : Chunk} {offset : Nat}

theorem le_offset_of_mem_rowsFrom {r : Row} (h : r ∈ rowsFrom c offset) : offset ≤ r.offset := by
  fun_induction rowsFrom c offset with
  | case1 offset hlt ih =>
    rcases List.mem_cons.1 h with rfl | hrest
    · exact Nat.le_refl _
    · exact Nat.le_trans (Nat.le_of_lt (rowAt c offset).lt_next) (ih hrest)
  | case2 offset hge => exact absurd h List.not_mem_nil

/-- No byte before a row is an operand of it or of a later one, nor is its own code byte. -/
theorem lt_of_mem_operandsFrom {i : Nat} (h : i ∈ operandsFrom c offset) : offset < i := by
  obtain ⟨r, hr, rfl⟩ := List.mem_map.1 h
  exact Nat.lt_succ_of_le (le_offset_of_mem_rowsFrom (List.mem_filter.1 hr).1)

theorem operandsFrom_of_plain {op : Opcode} (other : op ≠ .constant)
    (code : c.byte? offset = some op.byte) :
    operandsFrom c offset = operandsFrom c (offset + 1) := by
  have hoperand : (rowAt c offset).hasOperand = false := by
    show Row.hasOperand ⟨offset, _, contentAt c offset⟩ = false
    rw [contentAt_of_plain other code]
    rfl
  unfold operandsFrom
  rw [rowsFrom_of_lt (Chunk.lt_size_of_byte? code), List.filter_cons, hoperand,
    next_rowAt_of_plain other code]
  rfl

theorem operandsFrom_of_load {index : UInt8} {v : Value}
    (code : c.byte? offset = some Opcode.constant.byte)
    (operand : c.byte? (offset + 1) = some index) (found : c.constant? index = some v) :
    operandsFrom c offset = (offset + 1) :: operandsFrom c (offset + 2) := by
  have hoperand : (rowAt c offset).hasOperand = true := by
    show Row.hasOperand ⟨offset, _, contentAt c offset⟩ = true
    rw [contentAt_of_load code operand found]
    rfl
  unfold operandsFrom
  rw [rowsFrom_of_lt (Chunk.lt_size_of_byte? code), List.filter_cons, hoperand,
    next_rowAt_of_load code operand found]
  rfl

end Listing

namespace Encodes

variable {c d e : Chunk} {offset pooled : Nat} {line : Source.Line}
  {lines rest : List Source.Line}

/-- An instruction without operand is found as its code byte. -/
theorem of_plain (h : Encodes c offset pooled (line :: rest)) {op : Opcode}
    (named : Opcode.ofMnemonic? line.mnemonic = some op) (other : op ≠ .constant) :
    c.byte? offset = some op.byte ∧ c.line? offset = some line.number ∧
      Encodes c (offset + 1) pooled rest := by
  cases h with
  | plain named' other' bare code place tail =>
    cases Option.some.inj (named.symm.trans named')
    exact ⟨code, place, tail⟩
  | load named' => exact absurd (Option.some.inj (named.symm.trans named')) other

/-- A load is found as its code byte and an index. -/
theorem of_load (h : Encodes c offset pooled (line :: rest))
    (named : Opcode.ofMnemonic? line.mnemonic = some .constant) :
    ∃ index : UInt8, c.byte? offset = some Opcode.constant.byte ∧
      c.byte? (offset + 1) = some index ∧ index.toNat = pooled ∧
      c.line? offset = some line.number ∧ c.line? (offset + 1) = some line.number ∧
      Encodes c (offset + 2) (pooled + 1) rest := by
  cases h with
  | plain named' other => exact absurd (Option.some.inj (named'.symm.trans named)) other
  | @load _ _ _ _ _ _ index _ _ _ code operand numbered _ place place' tail =>
    exact ⟨index, code, operand, numbered, place, place', tail⟩

/-- **A byte of a chunk is found again in another chunk**, `ahead` bytes later. Its line is
`count` lines further down. The byte is the same, unless it is an operand among the rows from
`offset` on, and then it is greater by `known`. -/
structure Moved (d e : Chunk) (ahead known count offset i : Nat) : Prop where
  /-- The line has been lowered. -/
  line : e.line? (ahead + i) = (d.line? i).map (· + count)
  /-- The byte has been moved up if it is an operand. -/
  byte : (e.byte? (ahead + i)).map UInt8.toNat
    = (d.byte? i).map fun b =>
        b.toNat + if i ∈ Listing.operandsFrom d offset then known else 0

variable {ahead known count : Nat}

/-- Whether a byte is an operand can be told from a later row on. -/
theorem Moved.of_mem_iff {later i : Nat} (h : Moved d e ahead known count later i)
    (hmem : i ∈ Listing.operandsFrom d offset ↔ i ∈ Listing.operandsFrom d later) :
    Moved d e ahead known count offset i := by
  refine ⟨h.line, ?_⟩
  rw [if_congr hmem rfl rfl]
  exact h.byte

/-- A code byte is no operand, so it is found again as it is. -/
theorem moved_code {op : Opcode} (code : d.byte? offset = some op.byte)
    (code' : e.byte? (ahead + offset) = some op.byte)
    (place : d.line? offset = some line.number)
    (place' : e.line? (ahead + offset) = some (line.lower count).number) :
    Moved d e ahead known count offset offset := by
  have hnone : offset ∉ Listing.operandsFrom d offset := fun hmem =>
    Nat.lt_irrefl offset (Listing.lt_of_mem_operandsFrom hmem)
  constructor
  · rw [place, place']
    rfl
  · rw [code, code', if_neg hnone]
    rfl

/-- **The same instructions in two chunks.** If they begin `ahead` bytes later in the second one,
with `known` constants more before them and `count` lines further down, every byte of the first
chunk is found again. -/
theorem moved (dlevel : d.IsLevel) (elevel : e.IsLevel) (h : Encodes d offset pooled lines)
    (h' : Encodes e (ahead + offset) (known + pooled) (lines.map (Source.Line.lower count)))
    {i : Nat} (hi : offset ≤ i) : Moved d e ahead known count offset i := by
  induction h generalizing i with
  | @done offset pooled last used =>
    have last' : ahead + offset = e.size := by
      cases h' with
      | done last' used' => exact last'
    have hsize : d.size ≤ i := last ▸ hi
    have hsize' : e.size ≤ ahead + i := last' ▸ Nat.add_le_add_left hi ahead
    have hbyte : d.byte? i = none := Array.getElem?_eq_none hsize
    have hbyte' : e.byte? (ahead + i) = none := Array.getElem?_eq_none hsize'
    have hline : d.line? i = none := Array.getElem?_eq_none (dlevel ▸ hsize)
    have hline' : e.line? (ahead + i) = none := Array.getElem?_eq_none (elevel ▸ hsize')
    constructor
    · rw [hline, hline']
      rfl
    · rw [hbyte, hbyte']
      rfl
  | @plain offset pooled line rest op named other bare code place tail ih =>
    obtain ⟨code', place', tail'⟩ := of_plain h' named other
    rcases Nat.eq_or_lt_of_le hi with rfl | hlt
    · exact moved_code code code' place place'
    · exact (ih tail' hlt).of_mem_iff (by rw [Listing.operandsFrom_of_plain other code])
  | @load offset pooled line rest word v index named single literal code operand numbered found
      place behind tail ih =>
    obtain ⟨index', code', operand', numbered', place', behind', tail'⟩ := of_load h' named
    have hfound : d.constant? index = some v := (Chunk.constant?_of_toNat numbered).trans found
    have hoperands := Listing.operandsFrom_of_load code operand hfound
    -- The code byte, the operand byte, and all that follow.
    rcases Nat.eq_or_lt_of_le hi with rfl | hlt
    · exact moved_code code code' place place'
    rcases Nat.eq_or_lt_of_le hlt with rfl | hlt
    · have hmem : offset + 1 ∈ Listing.operandsFrom d offset := hoperands ▸ List.mem_cons_self
      constructor
      · show e.line? (ahead + offset + 1) = (d.line? (offset + 1)).map (· + count)
        rw [behind, behind']
        rfl
      · show (e.byte? (ahead + offset + 1)).map UInt8.toNat = _
        rw [operand, operand', if_pos hmem, Option.map_some, Option.map_some, numbered, numbered',
          Nat.add_comm]
    · refine (ih tail' hlt).of_mem_iff ?_
      rw [hoperands, List.mem_cons]
      exact or_iff_right (Nat.ne_of_gt hlt)

end Encodes

/-! ## Whole sources -/

section Sources

variable {source front back : String} {c d e : Chunk}

/-- A source is turned down for what the assembler finds wrong with its instructions. -/
theorem assemble_eq_error_iff {r : Assembly.Rejection} :
    assemble source = .error r ↔
      (Assembly.extendAll {} (Source.lines source)).2 = some r := by
  have hclear : Assembly.clear {} = {} := rfl
  unfold assemble Assembly.next
  rw [hclear]
  cases Assembly.extendAll {} (Source.lines source) with
  | mk a failure =>
    cases failure with
    | none => simp
    | some rejection => simp

theorem isLevel_of_assemble (h : assemble source = .ok c) : c.IsLevel := by
  obtain ⟨a, ha, rfl⟩ := assemble_eq_ok_iff.1 h
  exact Assembly.isLevel_of_extendAll (a := {}) rfl ha

/-- An assembled chunk has a constant for each load of its source. -/
theorem size_constants_of_assemble (h : assemble source = .ok c) :
    c.constants.size = (Source.lines source).countP Source.Line.isLoad := by
  obtain ⟨a, ha, rfl⟩ := assemble_eq_ok_iff.1 h
  rw [Assembly.size_constants_of_extendAll ha]
  exact Nat.zero_add _

/-- An assembled chunk has no more constants than can be told apart. -/
theorem size_constants_le_of_assemble (h : assemble source = .ok c) :
    c.constants.size ≤ Chunk.maxConstants := by
  obtain ⟨a, ha, -⟩ := assemble_eq_ok_iff.1 h
  have hle := (Assembly.exists_extendAll_iff (a := {}) (proper_of_assemble h)
    (Nat.zero_le _)).1 ⟨a, ha⟩
  rw [size_constants_of_assemble h]
  exact Nat.le_trans (Nat.le_of_eq (Nat.zero_add _).symm) hle

/-- The literals of a source are the constants of its chunk. -/
theorem constants_of_assemble (h : assemble source = .ok c) :
    ((Source.lines source).filter Source.Line.isLoad).map Source.Line.literal?
      = c.constants.toList.map some :=
  Listing.drop_constants_of_encodes (encodes_of_assemble h)

/-- **Behind a source that was assembled, the assembler goes on with the next one.** -/
theorem extendAll_lines_append (hc : assemble front = .ok c) (back : String) :
    ∃ a : Assembly, a.chunk = c ∧
      Assembly.extendAll {} (Source.lines (front ++ "\n" ++ back))
        = a.extendAll
            ((Source.lines back).map (Source.Line.lower (Source.lineFeeds front + 1))) := by
  obtain ⟨a, ha, hchunk⟩ := assemble_eq_ok_iff.1 hc
  refine ⟨a, hchunk, ?_⟩
  rw [Source.lines_append, Assembly.extendAll_append, ha]

/-- The chunk of a source begins the chunk of every source that goes on behind it. -/
theorem begins_of_assemble_append (hc : assemble front = .ok c)
    (he : assemble (front ++ "\n" ++ back) = .ok e) : c.Begins e := by
  obtain ⟨a, rfl, hextend⟩ := extendAll_lines_append hc back
  obtain ⟨b, hb, rfl⟩ := assemble_eq_ok_iff.1 he
  exact Assembly.begins_of_extendAll (hextend ▸ hb)

/-- A list is another one with a third behind it if it begins with the one and goes on with the
other. -/
theorem eq_append_of_getElem? {α : Type} {first second both : List α}
    (begins : ∀ {i : Nat} {x : α}, first[i]? = some x → both[i]? = some x)
    (goesOn : ∀ i : Nat, both[first.length + i]? = second[i]?) : both = first ++ second := by
  refine List.ext_getElem? fun i => ?_
  by_cases hi : i < first.length
  · rw [List.getElem?_append_left hi]
    have hsome : first[i]? = some first[i] := List.getElem?_eq_getElem hi
    rw [hsome]
    exact begins hsome
  · have hle : first.length ≤ i := Nat.le_of_not_lt hi
    rw [List.getElem?_append_right hle, ← goesOn, Nat.add_sub_cancel' hle]

/-- **Two chunks laid end to end make a third**, with the second one `count` lines further
down. -/
structure Chunk.Joins (c d : Chunk) (count : Nat) (e : Chunk) : Prop where
  /-- The constants follow the constants. -/
  constants : e.constants = c.constants ++ d.constants
  /-- The lines follow the lines and are counted on. -/
  lines : e.lines = c.lines ++ d.lines.map (· + count)
  /-- The code follows the code. Behind the seam the operand bytes, and no others, are greater by
  the number of constants before it. -/
  code : e.code.toList.map UInt8.toNat
    = c.code.toList.map UInt8.toNat
      ++ d.code.toList.mapIdx fun i b =>
          b.toNat + if i ∈ Listing.operands d then c.constants.size else 0

/-- **What is assembled of two sources is joined of what is assembled of each.** -/
theorem joins_of_assemble (hc : assemble front = .ok c) (hd : assemble back = .ok d)
    (he : assemble (front ++ "\n" ++ back) = .ok e) :
    c.Joins d (Source.lineFeeds front + 1) e := by
  have hbegins : c.Begins e := begins_of_assemble_append hc he
  have clevel : c.IsLevel := isLevel_of_assemble hc
  have laid : Encodes e c.size c.constants.size
      ((Source.lines back).map (Source.Line.lower (Source.lineFeeds front + 1))) := by
    obtain ⟨a, rfl, hextend⟩ := extendAll_lines_append hc back
    obtain ⟨b, hb, rfl⟩ := assemble_eq_ok_iff.1 he
    exact Assembly.encodes_of_extendAll clevel (hextend ▸ hb)
  have hmoved : ∀ i, Encodes.Moved d e c.size c.constants.size (Source.lineFeeds front + 1) 0 i :=
    fun i => Encodes.moved (isLevel_of_assemble hd) (isLevel_of_assemble he)
      (encodes_of_assemble hd) laid (Nat.zero_le i)
  constructor
  · have hsome : e.constants.toList.map some
        = (c.constants ++ d.constants).toList.map some := by
      rw [Array.toList_append, List.map_append, ← constants_of_assemble he, Source.lines_append,
        List.filter_append, List.map_append, Source.filter_isLoad_lower, List.map_map,
        ← constants_of_assemble hc, ← constants_of_assemble hd]
      rfl
    exact Array.toList_inj.1 (List.map_injective_iff.2 (fun _ _ => Option.some.inj) hsome)
  · refine Array.toList_inj.1 ?_
    rw [Array.toList_append, Array.toList_map]
    refine eq_append_of_getElem? ?_ ?_
    · intro i number hnumber
      rw [Array.getElem?_toList] at hnumber ⊢
      exact hbegins.line hnumber
    · intro i
      rw [Array.length_toList, clevel, List.getElem?_map, Array.getElem?_toList,
        Array.getElem?_toList]
      exact (hmoved i).line
  · refine eq_append_of_getElem? ?_ ?_
    · intro i n hn
      rw [List.getElem?_map, Array.getElem?_toList] at hn ⊢
      obtain ⟨b, hb, rfl⟩ := Option.map_eq_some_iff.1 hn
      have hb' : e.code[i]? = some b := hbegins.byte hb
      rw [hb', Option.map_some]
    · intro i
      rw [List.length_map, Array.length_toList, List.getElem?_map, List.getElem?_mapIdx,
        Array.getElem?_toList, Array.getElem?_toList]
      exact (hmoved i).byte

/-- **Assembling goes source by source.** Of two sources that can be assembled, one behind the
other can be assembled exactly if their chunks have no more constants together than one chunk
can have, and then its chunk is joined of theirs. If they have more, the source is turned down
over its first load for which there is no index left: this is a load of the second source, and
the line is the one it is on in both together. -/
theorem assemble_append (hc : assemble front = .ok c) (hd : assemble back = .ok d) :
    ((∃ e, assemble (front ++ "\n" ++ back) = .ok e) ↔
        c.constants.size + d.constants.size ≤ 256) ∧
      (∀ e, assemble (front ++ "\n" ++ back) = .ok e →
        c.Joins d (Source.lineFeeds front + 1) e) ∧
      (256 < c.constants.size + d.constants.size →
        ∃ line,
          ((Source.lines back).filter Source.Line.isLoad)[256 - c.constants.size]? = some line ∧
          assembler (front ++ "\n" ++ back)
            = .error ⟨"Too many constants in one chunk.",
                line.number + (Source.lineFeeds front + 1)⟩) := by
  obtain ⟨a, rfl, hextend⟩ := extendAll_lines_append hc back
  have hproper : Proper a.depth
      ((Source.lines back).map (Source.Line.lower (Source.lineFeeds front + 1))) :=
    ((proper_of_assemble hd).lower _).mono (Nat.zero_le _)
  have hpool : a.chunk.constants.size ≤ Chunk.maxConstants := size_constants_le_of_assemble hc
  have hcount : ((Source.lines back).map
      (Source.Line.lower (Source.lineFeeds front + 1))).countP Source.Line.isLoad
        = d.constants.size := by
    rw [List.countP_map, size_constants_of_assemble hd]
    rfl
  refine ⟨?_, fun e he => joins_of_assemble hc hd he, fun hover => ?_⟩
  · have hiff := Assembly.exists_extendAll_iff hproper hpool
    have hmax : Chunk.maxConstants = 256 := rfl
    rw [hcount, ← hextend, hmax] at hiff
    rw [← hiff]
    constructor
    · rintro ⟨e, he⟩
      obtain ⟨b, hb, -⟩ := assemble_eq_ok_iff.1 he
      exact ⟨b, hb⟩
    · rintro ⟨b, hb⟩
      exact ⟨b.chunk, assemble_eq_ok_iff.2 ⟨b, hb, rfl⟩⟩
  · obtain ⟨line, hline, hfault⟩ :=
      Assembly.extendAll_of_overfull hproper hpool (hcount.symm ▸ hover)
    rw [← hextend] at hfault
    rw [Source.filter_isLoad_lower, List.getElem?_map] at hline
    obtain ⟨load, hload, rfl⟩ := Option.map_eq_some_iff.1 hline
    refine ⟨load, hload, ?_⟩
    rw [assembler, assemble_eq_error_iff.2 hfault]
    rfl

/-- A constant on either side of the seam. Behind it the index becomes one, which would also be the
code of a load. -/
theorem assemble_append_two_loads :
    ∃ c d e : Chunk,
      assemble "; one\nCONSTANT 1\n" = .ok c ∧ assemble "CONSTANT nil\nTRUE" = .ok d ∧
      assemble "; one\nCONSTANT 1\n\nCONSTANT nil\nTRUE" = .ok e ∧
      c.code = #[1, 0] ∧ d.code = #[1, 0, 2] ∧ c.Joins d 3 e ∧
      e.lines = #[2, 2, 4, 4, 5] ∧ e.code.toList.map UInt8.toNat = [1, 0, 1, 1, 2] := by
  have hc : assemble "; one\nCONSTANT 1\n" = .ok ⟨#[1, 0], #[.number .one], #[2, 2]⟩ := by
    decide +kernel
  have hd : assemble "CONSTANT nil\nTRUE" = .ok ⟨#[1, 0, 2], #[.nil], #[1, 1, 2]⟩ := by
    decide +kernel
  obtain ⟨hiff, hjoins, -⟩ := assemble_append hc hd
  obtain ⟨e, he⟩ := hiff.2 (by decide)
  have hfeeds : Source.lineFeeds "; one\nCONSTANT 1\n" = 2 := by decide +kernel
  have hjoined := hjoins e he
  rw [hfeeds] at hjoined
  refine ⟨_, _, e, hc, hd, he, rfl, rfl, hjoined, ?_, ?_⟩
  · rw [hjoined.lines]
    decide +kernel
  · rw [hjoined.code]
    decide +kernel

end Sources

end StackMachine

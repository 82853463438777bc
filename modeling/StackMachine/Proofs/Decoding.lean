import Mathlib.Data.List.Basic
import StackMachine.Proofs.Columns
import StackMachine.Proofs.Encoding

/-!
# A listing gives the source back

Listing a chunk and assembling one are written apart, and yet they agree on everything: how
long an instruction is, which byte is an operand, which constant it means and which line it
came from. The offsets that the rows of an assembled chunk lead to are those of the
instructions of its source, each of them once, and the last row leads to where the code
stops; the pool is what the loads of the source say, in their order (`listing_of_assemble`).

So the listing of an assembled chunk has nothing to excuse. There is a row for each
instruction, and none for anything else. That a row never refers to the line of the row
before takes a fact about sources: two instructions never share a line.

A row gives back a line if it does so as it is printed (`Row.GivesBack`): what it shows is what
can be read in its columns.
-/

namespace StackMachine

/-! ## The lines of a source -/

namespace Source

/-- **No two instructions are on the same line**, and later ones are on later lines. -/
theorem pairwise_number_readFrom (number : Nat) (css : List (List Char)) :
    (readFrom number css).Pairwise fun line later => line.number < later.number := by
  induction css generalizing number with
  | nil => exact List.Pairwise.nil
  | cons cs rest ih =>
    rw [readFrom]
    split
    · exact ih (number + 1)
    · rename_i line hline
      refine List.Pairwise.cons ?_ (ih (number + 1))
      intro later hlater
      rw [number_of_readLine? hline]
      exact le_number_of_mem_readFrom hlater

namespace Line

/-- Whether the instruction on a line loads a constant. -/
def isLoad (line : Line) : Bool :=
  decide (Opcode.ofMnemonic? line.mnemonic = some .constant)

/-- The value that its literal denotes, if it has one. -/
def literal? (line : Line) : Option Value := line.operands.head?.bind Value.ofLiteral?

theorem isLoad_of_named {line : Line}
    (h : Opcode.ofMnemonic? line.mnemonic = some .constant) : line.isLoad = true :=
  decide_eq_true h

theorem isLoad_of_ne {line : Line} {op : Opcode}
    (h : Opcode.ofMnemonic? line.mnemonic = some op) (other : op ≠ .constant) :
    line.isLoad = false :=
  decide_eq_false fun h' => other (Option.some.inj (h.symm.trans h'))

theorem literal?_of_single {line : Line} {word : String} (h : line.operands = [word]) :
    line.literal? = Value.ofLiteral? word := by
  rw [literal?, h]
  rfl

end Line

end Source

namespace Listing

/-! ## What a row shows of an instruction -/

/-- The offset that so many rows of a chunk lead to. -/
def walk (c : Chunk) : Nat → Nat → Nat
  | 0, offset => offset
  | n + 1, offset => walk c n (rowAt c offset).next

/-- **What a line asks to be shown as**, with `pooled` loads before it: the characters of an
instruction column. -/
inductive Spells (line : Source.Line) (pooled : Nat) : List Char → Prop where
  /-- The mnemonic in capitals, if the line is no load. -/
  | instruction (other : line.isLoad = false) :
      Spells line pooled (line.mnemonic.toList.map Char.toUpper)
  /-- The index and the value of the literal, if it is one. -/
  | constant {v : Value} (load : line.isLoad = true) (literal : line.literal? = some v) :
      Spells line pooled
        ("CONSTANT         " ++ Decimal.column ' ' 4 pooled ++ " '" ++ v.text ++ "'").toList

/-- **A row gives back a line** of the source that has `pooled` loads before it. -/
structure Row.GivesBack (c : Chunk) (line : Source.Line) (pooled : Nat) (r : Row) : Prop where
  /-- The row is about a byte of the code. -/
  inside : r.offset < c.size
  /-- The byte decodes to the instruction that the line names. -/
  decodes : ∃ op, Opcode.ofMnemonic? line.mnemonic = some op ∧
    (c.byte? r.offset).bind Opcode.ofByte? = some op
  /-- Every byte up to the next row comes from the line. -/
  places : ∀ offset, r.offset ≤ offset → offset < r.next → c.line? offset = some line.number
  /-- A load has its index in the next byte. -/
  operand : line.isLoad = true → (c.byte? (r.offset + 1)).map UInt8.toNat = some pooled
  /-- The row is printed as a single line of text. -/
  single : '\n' ∉ r.text.toList
  /-- Its offset column shows the offset. -/
  offset : offsetColumn r.text.toList = r.offset
  /-- Its line column shows the number of the line. -/
  mark : lineColumn r.text.toList = .line line.number
  /-- Its instruction column shows the instruction. -/
  content : Spells line pooled (instructionColumn r.text.toList)

variable {c : Chunk} {offset pooled : Nat} {line : Source.Line} {lines rest : List Source.Line}

theorem markAt_of_line? {number : Nat} (h : c.line? offset = some number)
    (hbefore : 0 < offset → c.line? (offset - 1) ≠ some number) :
    markAt c offset = .line number := by
  have hne : ¬(0 < offset ∧ c.line? offset = c.line? (offset - 1)) := by
    rintro ⟨hpos, heq⟩
    exact hbefore hpos (heq.symm.trans h)
  rw [markAt, if_neg hne, h]

theorem contentAt_of_plain {op : Opcode} (other : op ≠ .constant)
    (code : c.byte? offset = some op.byte) : contentAt c offset = .instruction op := by
  rw [contentAt, code]
  dsimp only
  rw [Opcode.ofByte?_byte]
  cases op with
  | constant => exact absurd rfl other
  | _ => rfl

theorem contentAt_of_load {index : UInt8} {v : Value}
    (code : c.byte? offset = some Opcode.constant.byte)
    (operand : c.byte? (offset + 1) = some index) (found : c.constant? index = some v) :
    contentAt c offset = .constant index v := by
  rw [contentAt, code]
  dsimp only
  rw [Opcode.ofByte?_byte]
  dsimp only
  rw [operand]
  dsimp only
  rw [found]

theorem next_rowAt_of_plain {op : Opcode} (other : op ≠ .constant)
    (code : c.byte? offset = some op.byte) : (rowAt c offset).next = offset + 1 := by
  show offset + (contentAt c offset).width = offset + 1
  rw [contentAt_of_plain other code, Content.width, Opcode.size_eq_one other]

theorem next_rowAt_of_load {index : UInt8} {v : Value}
    (code : c.byte? offset = some Opcode.constant.byte)
    (operand : c.byte? (offset + 1) = some index) (found : c.constant? index = some v) :
    (rowAt c offset).next = offset + 2 := by
  show offset + (contentAt c offset).width = offset + 2
  rw [contentAt_of_load code operand found]
  rfl

/-- An instruction without operand is shown as its line asks for. -/
theorem spells_of_plain {op : Opcode} (named : Opcode.ofMnemonic? line.mnemonic = some op)
    (other : op ≠ .constant) : Spells line pooled (Content.instruction op).text.toList := by
  have hname : (Content.instruction op).text.toList = line.mnemonic.toList.map Char.toUpper :=
    (Opcode.ofMnemonic?_eq_some_iff.1 named).symm
  rw [hname]
  exact .instruction (Source.Line.isLoad_of_ne named other)

/-- A load is shown as its line asks for. -/
theorem spells_of_load {index : UInt8} {v : Value}
    (named : Opcode.ofMnemonic? line.mnemonic = some .constant) (numbered : index.toNat = pooled)
    (literal : line.literal? = some v) :
    Spells line pooled (Content.constant index v).text.toList := by
  rw [← numbered]
  exact .constant (Source.Line.isLoad_of_named named) literal

/-- **An instruction column that makes an excuse**: that a byte is no instruction, or, at its end,
that an operand names no constant, that it is missing, or that the code is over. -/
def Excuses (column : List Char) : Prop :=
  "Unknown opcode".toList <+: column ∨
    ∃ excuse ∈ ["<invalid>", "<missing operand>", "<end of chunk>"], excuse.toList <:+ column

instance (column : List Char) : Decidable (Excuses column) :=
  inferInstanceAs (Decidable (_ ∨ _))

/-- **What a line asks for is no excuse**, if the line names an instruction. -/
theorem Spells.not_excuses {op : Opcode} {column : List Char} (h : Spells line pooled column)
    (named : Opcode.ofMnemonic? line.mnemonic = some op) : ¬Excuses column := by
  cases h with
  | instruction other =>
    rw [Opcode.ofMnemonic?_eq_some_iff.1 named]
    cases op <;> decide
  | constant load literal =>
    rintro (⟨back, hfront⟩ | ⟨excuse, hexcuse, front, hback⟩)
    · -- It begins with another letter.
      rw [String.append_assoc, String.append_assoc, String.append_assoc, String.toList_append]
        at hfront
      have hhead := congrArg List.head? hfront
      rw [List.head?_append_of_ne_nil _ (by decide), List.head?_append_of_ne_nil _ (by decide)]
        at hhead
      exact absurd hhead (by decide)
    · -- It ends with a quote.
      have hends : ∀ excuse ∈ ["<invalid>", "<missing operand>", "<end of chunk>"],
          excuse.toList.getLast? = some '>' := by decide
      have hquote : "'".toList.getLast? = some '\'' := by decide
      rw [String.toList_append] at hback
      have hlast := congrArg List.getLast? hback
      rw [List.getLast?_append, List.getLast?_append, hends excuse hexcuse, hquote,
        Option.some_or, Option.some_or] at hlast
      exact absurd hlast (by decide)

theorem decode_of_byte {op : Opcode} (code : c.byte? offset = some op.byte) :
    (c.byte? offset).bind Opcode.ofByte? = some op := by
  rw [code]
  exact Opcode.ofByte?_byte op

/-- **A row says as text what it is about**, so for what it shows it is enough to look at its
data. -/
theorem Row.GivesBack.of_data {r : Row} (inside : r.offset < c.size)
    (decodes : ∃ op, Opcode.ofMnemonic? line.mnemonic = some op ∧
      (c.byte? r.offset).bind Opcode.ofByte? = some op)
    (places : ∀ offset, r.offset ≤ offset → offset < r.next → c.line? offset = some line.number)
    (operand : line.isLoad = true → (c.byte? (r.offset + 1)).map UInt8.toNat = some pooled)
    (mark : r.mark = .line line.number) (content : Spells line pooled r.content.text.toList) :
    r.GivesBack c line pooled where
  inside := inside
  decodes := decodes
  places := places
  operand := operand
  single := r.isOneLine
  offset := offsetColumn_text r
  mark := (lineColumn_text r).trans mark
  content := by
    rw [instructionColumn_text]
    exact content

/-- **In front of an encoded instruction, the row gives back its line**, and leads to the
instructions behind it. -/
theorem givesBack_of_encodes (h : Encodes c offset pooled (line :: rest))
    (hbefore : 0 < offset → c.line? (offset - 1) ≠ some line.number) :
    (rowAt c offset).GivesBack c line pooled ∧
      Encodes c (rowAt c offset).next (pooled + if line.isLoad then 1 else 0) rest := by
  cases h with
  | @plain _ _ _ _ op named other bare code place tail =>
    have hcontent : contentAt c offset = .instruction op := contentAt_of_plain other code
    have hnext : (rowAt c offset).next = offset + 1 := next_rowAt_of_plain other code
    have hload : line.isLoad = false := Source.Line.isLoad_of_ne named other
    refine ⟨.of_data (Chunk.lt_size_of_byte? code) ⟨op, named, decode_of_byte code⟩ ?_ ?_
      (markAt_of_line? place hbefore) ?_, ?_⟩
    · intro at' hle hlt
      rw [hnext] at hlt
      rw [Nat.le_antisymm (Nat.le_of_lt_succ hlt) hle]
      exact place
    · intro hl
      rw [hload] at hl
      exact absurd hl Bool.false_ne_true
    · show Spells line pooled (contentAt c offset).text.toList
      rw [hcontent]
      exact spells_of_plain named other
    · rw [hnext, hload]
      exact tail
  | @load _ _ _ _ word v index named single literal code operand numbered found place place'
      tail =>
    have hfound : c.constant? index = some v := (Chunk.constant?_of_toNat numbered).trans found
    have hcontent : contentAt c offset = .constant index v :=
      contentAt_of_load code operand hfound
    have hnext : (rowAt c offset).next = offset + 2 := next_rowAt_of_load code operand hfound
    refine ⟨.of_data (Chunk.lt_size_of_byte? code) ⟨_, named, decode_of_byte code⟩ ?_ ?_
      (markAt_of_line? place hbefore) ?_, ?_⟩
    · intro at' hle hlt
      rw [hnext] at hlt
      -- The bytes are two, the code byte and its operand.
      rcases Nat.eq_or_lt_of_le hle with heq | hgt
      · rw [← heq]
        exact place
      · rw [Nat.le_antisymm (Nat.le_of_lt_succ hlt) hgt]
        exact place'
    · intro _
      show (c.byte? (offset + 1)).map UInt8.toNat = some pooled
      rw [operand, Option.map_some, numbered]
    · show Spells line pooled (contentAt c offset).text.toList
      rw [hcontent]
      exact spells_of_load named numbered ((Source.Line.literal?_of_single single).trans literal)
    · rw [hnext, Source.Line.isLoad_of_named named]
      exact tail

/-! ## Whole listings -/

theorem rowsFrom_of_lt (h : offset < c.size) :
    rowsFrom c offset = rowAt c offset :: rowsFrom c (rowAt c offset).next := by
  rw [rowsFrom, if_pos h]

theorem rowsFrom_of_eq (h : offset = c.size) : rowsFrom c offset = [] := by
  rw [rowsFrom, if_neg (Nat.not_lt.2 (Nat.le_of_eq h.symm))]

/-- **The rows from an offset on give back the lines that are encoded from there on**, one
row for each line. The lines are in order, and the byte before the offset is from none of
them. -/
theorem rowsFrom_of_encodes (h : Encodes c offset pooled lines)
    (ordered : lines.Pairwise fun line later => line.number < later.number)
    (hbefore : 0 < offset → ∀ line ∈ lines, c.line? (offset - 1) ≠ some line.number) :
    walk c lines.length offset = c.size ∧
      (rowsFrom c offset).length = lines.length ∧
      ∀ i line, lines[i]? = some line →
        ∃ r, (rowsFrom c offset)[i]? = some r ∧ r.offset = walk c i offset ∧
          r.GivesBack c line (pooled + (lines.take i).countP Source.Line.isLoad) := by
  induction lines generalizing offset pooled with
  | nil =>
    have hoffset : offset = c.size := by
      cases h with
      | done last used => exact last
    rw [rowsFrom_of_eq hoffset]
    exact ⟨hoffset, rfl, fun i line hline => nomatch hline⟩
  | cons first rest ih =>
    obtain ⟨hlater, hrest⟩ := List.pairwise_cons.1 ordered
    obtain ⟨hfirst, htail⟩ := givesBack_of_encodes h fun hpos =>
      hbefore hpos first List.mem_cons_self
    -- The byte before the next row belongs to the first line, and no later line is that.
    have hlast : c.line? ((rowAt c offset).next - 1) = some first.number :=
      hfirst.places _ (Nat.le_sub_one_of_lt (rowAt c offset).lt_next)
        (Nat.sub_one_lt_of_lt (rowAt c offset).lt_next)
    have hbehind : ∀ line ∈ rest,
        c.line? ((rowAt c offset).next - 1) ≠ some line.number := by
      intro line hline heq
      exact Nat.ne_of_lt (hlater line hline) (Option.some.inj (hlast.symm.trans heq))
    obtain ⟨hwalk, hlength, hrows⟩ := ih htail hrest fun _ => hbehind
    have hinside : offset < c.size := hfirst.inside
    rw [rowsFrom_of_lt hinside]
    refine ⟨hwalk, congrArg (· + 1) hlength, ?_⟩
    intro i line hline
    cases i with
    | zero =>
      rw [← Option.some.inj hline]
      exact ⟨rowAt c offset, rfl, rfl, hfirst⟩
    | succ i =>
      obtain ⟨r, hr, hoffset, hback⟩ := hrows i line hline
      refine ⟨r, hr, hoffset, ?_⟩
      rw [List.take_succ_cons, List.countP_cons, Nat.add_comm (List.countP _ _), ← Nat.add_assoc]
      exact hback

/-- **The pool holds the literals of the loads**, in their order. -/
theorem drop_constants_of_encodes (h : Encodes c offset pooled lines) :
    (lines.filter Source.Line.isLoad).map Source.Line.literal?
      = (c.constants.toList.drop pooled).map some := by
  induction h with
  | done last used =>
    rw [used, List.drop_of_length_le (Nat.le_of_eq Array.length_toList)]
    rfl
  | plain named other bare code place tail ih =>
    rw [List.filter_cons, Source.Line.isLoad_of_ne named other]
    exact ih
  | @load _ pooled line rest word v _ named single literal code operand numbered found place
      place' tail ih =>
    obtain ⟨hlt, hv⟩ := Array.getElem?_eq_some_iff.1 found
    have hdrop : c.constants.toList.drop pooled = v :: c.constants.toList.drop (pooled + 1) := by
      rw [List.drop_eq_getElem_cons (by simpa using hlt), Array.getElem_toList, hv]
    rw [List.filter_cons, Source.Line.isLoad_of_named named, if_pos rfl, List.map_cons, ih,
      hdrop, List.map_cons, Source.Line.literal?_of_single single, literal]

/-- **Decoding undoes encoding.** In an assembled chunk, walking from row to row stops at
one offset for each instruction of the source and ends with the code. The pool is the list of the
literals, and the listing is its heading and a printed row for each instruction. Each row gives
back the line of its instruction, and none makes an excuse. -/
theorem listing_of_assemble {source : String} {c : Chunk} (h : assemble source = .ok c)
    (name : String) :
    walk c (Source.lines source).length 0 = c.size ∧
      ((Source.lines source).filter Source.Line.isLoad).map Source.Line.literal?
        = c.constants.toList.map some ∧
      ∃ rows : List Row,
        text c name
          = "== " ++ name ++ " ==\n" ++ String.join (rows.map fun r => r.text ++ "\n") ∧
        rows.length = (Source.lines source).length ∧
        (∀ i line, (Source.lines source)[i]? = some line →
          ∃ r, rows[i]? = some r ∧ r.offset = walk c i 0 ∧
            r.GivesBack c line
              (((Source.lines source).take i).countP Source.Line.isLoad)) ∧
        ∀ r ∈ rows, ¬Excuses (instructionColumn r.text.toList) := by
  have hencodes : Encodes c 0 0 (Source.lines source) := encodes_of_assemble h
  obtain ⟨hwalk, hlength, hrows⟩ :=
    rowsFrom_of_encodes hencodes (Source.pairwise_number_readFrom 1 _)
      fun hpos => absurd hpos (Nat.lt_irrefl 0)
  have hback : ∀ i line, (Source.lines source)[i]? = some line →
      ∃ r, (rows c)[i]? = some r ∧ r.offset = walk c i 0 ∧
        r.GivesBack c line (((Source.lines source).take i).countP Source.Line.isLoad) := by
    intro i line hline
    obtain ⟨r, hr, hoffset, hback⟩ := hrows i line hline
    rw [Nat.zero_add] at hback
    exact ⟨r, hr, hoffset, hback⟩
  refine ⟨hwalk, drop_constants_of_encodes hencodes, rows c, rfl, hlength, hback, ?_⟩
  intro r hr
  obtain ⟨i, hi⟩ := List.mem_iff_getElem?.1 hr
  -- There are as many lines as rows, so the row has a line that it gives back.
  obtain ⟨line, hline⟩ : ∃ line, (Source.lines source)[i]? = some line := by
    refine ⟨_, List.getElem?_eq_getElem (Nat.lt_of_lt_of_eq ?_ hlength)⟩
    exact (List.getElem?_eq_some_iff.1 hi).1
  obtain ⟨r', hr', -, hgives⟩ := hback i line hline
  obtain rfl : r = r' := Option.some.inj (hi.symm.trans hr')
  obtain ⟨op, named, -⟩ := hgives.decodes
  exact hgives.content.not_excuses named

/-- Two loads, with an empty line and another instruction between them. The second one is at
offset three, which is how its row is printed, with its line, its index and its constant. -/
theorem listing_two_loads :
    ∃ c : Chunk,
      assemble "constant nil\n\nTRUE\nCONSTANT 1\nRET" = .ok c ∧ walk c 4 0 = c.size ∧
        ∃ r : Row, r.offset = walk c 2 0 ∧ r.GivesBack c ⟨4, "CONSTANT", ["1"]⟩ 1 ∧
          offsetColumn r.text.toList = 3 ∧ lineColumn r.text.toList = .line 4 ∧
          instructionColumn r.text.toList = "CONSTANT            1 '1.000000'".toList ∧
          ¬Excuses (instructionColumn r.text.toList) := by
  have h : assemble "constant nil\n\nTRUE\nCONSTANT 1\nRET"
      = .ok ⟨#[1, 0, 2, 1, 1, 0], #[.nil, .number .one], #[1, 1, 3, 4, 4, 5]⟩ := by
    decide +kernel
  have hlines : Source.lines "constant nil\n\nTRUE\nCONSTANT 1\nRET"
      = [⟨1, "constant", ["nil"]⟩, ⟨3, "TRUE", []⟩, ⟨4, "CONSTANT", ["1"]⟩, ⟨5, "RET", []⟩] := by
    decide +kernel
  have hwalked : walk ⟨#[1, 0, 2, 1, 1, 0], #[.nil, .number .one], #[1, 1, 3, 4, 4, 5]⟩ 2 0
      = 3 := by decide +kernel
  obtain ⟨hwalk, -, rows, -, -, hrows, hplain⟩ := listing_of_assemble h programName
  rw [hlines] at hwalk hrows
  obtain ⟨r, hr, hoffset, hback⟩ := hrows 2 _ rfl
  have hcolumn : instructionColumn r.text.toList = "CONSTANT            1 '1.000000'".toList := by
    have hspells := hback.content
    generalize instructionColumn r.text.toList = column at hspells
    cases hspells with
    | instruction other => exact absurd other (by decide)
    | @constant v load literal =>
      have hone : Source.Line.literal? ⟨4, "CONSTANT", ["1"]⟩ = some (.number .one) := by
        decide +kernel
      obtain rfl : v = .number .one := Option.some.inj (literal.symm.trans hone)
      decide +kernel
  exact ⟨_, h, hwalk, r, hoffset, hback, hback.offset.trans (hoffset.trans hwalked), hback.mark,
    hcolumn, hplain r (List.mem_of_getElem? hr)⟩

end Listing

end StackMachine

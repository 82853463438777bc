import Mathlib.Data.List.Basic
import StackMachine.Assembly
import StackMachine.Proofs.Blocks
import StackMachine.Proofs.Decoding

/-!
# Sources written back

What is read of a source is its instructions, and no more than these. Written back, each on the
line that has its number, with one space between its words and nothing on the other lines
(`Source.write`), they make a source without comments and without a superfluous blank. This source
reads the same (`lines_write_lines`), so it is assembled to the same chunk, or turned down for the
same fault on the same line, and it is complete if the first one was.

Two facts meet here. Instructions that have been read are in good order: they are numbered upwards
along the lines of the text, and their words are words (`isInOrder_lines`). And instructions in good
order, wherever they come from, are read from the text that they are written as
(`IsInOrder.lines_write`).
-/

namespace StackMachine

namespace Text

/-! ## Words with a space between them -/

/-- A word holds no blank, and nothing that is not on the line. -/
theorem of_mem_words {cs w : List Char} (h : w ∈ words cs) {c : Char} (hc : c ∈ w) :
    c ∈ cs ∧ isBlank c = false :=
  of_mem_splitOnP (List.mem_of_mem_filter h) hc

/-- A text without blanks is one word, if there is anything in it. -/
theorem words_of_forall_not_isBlank {w : List Char} (hne : w ≠ [])
    (h : ∀ c ∈ w, isBlank c = false) : words w = [w] := by
  unfold words
  rw [List.splitOnP_eq_singleton h]
  simp [hne]

/-- A space sets the words in front of it apart from those behind it. -/
theorem words_append_space (front back : List Char) :
    words (front ++ ' ' :: back) = words front ++ words back := by
  unfold words
  rw [List.splitOnP_append_cons front back (by decide), List.filter_append]

/-- **Words are read from a line on which they stand with a space between them.** -/
theorem words_intercalate {ws : List (List Char)} (hne : ∀ w ∈ ws, w ≠ [])
    (h : ∀ w ∈ ws, ∀ c ∈ w, isBlank c = false) : words ([' '].intercalate ws) = ws := by
  induction ws with
  | nil => rfl
  | cons w ws ih =>
    obtain ⟨hw, hws⟩ := List.forall_mem_cons.1 h
    obtain ⟨hwne, hwsne⟩ := List.forall_mem_cons.1 hne
    cases ws with
    | nil => rw [List.intercalate_singleton, words_of_forall_not_isBlank hwne hw]
    | cons next ws =>
      rw [List.intercalate_cons_cons, List.append_assoc, List.singleton_append,
        words_append_space, words_of_forall_not_isBlank hwne hw, ih hwsne hws]
      rfl

/-- On such a line there is nothing but the words and the spaces. -/
theorem mem_intercalate {ws : List (List Char)} {sep c : Char} (h : c ∈ [sep].intercalate ws) :
    c = sep ∨ ∃ w ∈ ws, c ∈ w := by
  induction ws with
  | nil => exact nomatch h
  | cons w ws ih =>
    cases ws with
    | nil =>
      rw [List.intercalate_singleton] at h
      exact Or.inr ⟨w, List.mem_cons_self, h⟩
    | cons next ws =>
      rw [List.intercalate_cons_cons, List.append_assoc, List.singleton_append] at h
      rcases List.mem_append.1 h with h | h
      · exact Or.inr ⟨w, List.mem_cons_self, h⟩
      · rcases List.mem_cons.1 h with rfl | h
        · exact Or.inl rfl
        · refine (ih h).imp_right fun ⟨v, hv, hc⟩ => ⟨v, List.mem_cons_of_mem _ hv, hc⟩

end Text

namespace Source

/-! ## Writing -/

/-- The words of an instruction. -/
def Line.words (line : Line) : List String := line.mnemonic :: line.operands

/-- An instruction in words, with a space between them. -/
def Line.text (line : Line) : String := " ".intercalate line.words

/-- What is on the line with a number: the instruction that has this number, or nothing. -/
def textAt (instructions : List Line) (number : Nat) : String :=
  match instructions.find? fun line => decide (line.number = number) with
  | some line => line.text
  | none => ""

/-- **Instructions written back** as a text of so many lines. -/
def write (count : Nat) (instructions : List Line) : String :=
  "\n".intercalate ((List.range' 1 count).map (textAt instructions))

/-- How many lines a text has. Behind its last line feed there is one more only if something is
there. -/
def lineCount (text : String) : Nat :=
  if (rawLines text).getLast? = some [] then (rawLines text).length - 1 else (rawLines text).length

/-- What can be a word of an instruction: characters, none of which is blank or starts a comment. -/
def IsWord (word : String) : Prop :=
  word ≠ "" ∧ ∀ c ∈ word.toList, Text.isBlank c = false ∧ c ≠ commentMark

/-- **Instructions in good order** on lines with the numbers from `first` to `last`. -/
structure IsInOrder (first last : Nat) (instructions : List Line) : Prop where
  /-- They are numbered upwards. -/
  ascending : instructions.Pairwise fun line later => line.number < later.number
  /-- Each of them is on one of the lines. -/
  within : ∀ line ∈ instructions, first ≤ line.number ∧ line.number ≤ last
  /-- Their words are words. -/
  words : ∀ line ∈ instructions, ∀ word ∈ line.words, IsWord word

variable {first last number : Nat} {line : Line} {instructions : List Line}

/-! ## Instructions that have been read -/

/-- The words of an instruction are those on its line, in front of the comment. -/
theorem words_of_readLine? {cs : List Char} (h : readLine? number cs = some line) :
    line.words = (Text.words (uncomment cs)).map String.ofList := by
  unfold readLine? at h
  split at h
  · exact nomatch h
  · rename_i word rest hwords
    rw [hwords, ← Option.some.inj h]
    rfl

theorem isWord_of_readLine? {cs : List Char} (h : readLine? number cs = some line) {word : String}
    (hword : word ∈ line.words) : IsWord word := by
  rw [words_of_readLine? h] at hword
  obtain ⟨w, hw, rfl⟩ := List.mem_map.1 hword
  refine ⟨fun hempty => Text.ne_nil_of_mem_words hw ?_, fun c hc => ?_⟩
  · rw [← String.toList_ofList (l := w), hempty]
    rfl
  · rw [String.toList_ofList] at hc
    obtain ⟨hline, hblank⟩ := Text.of_mem_words hw hc
    have hmark := List.mem_takeWhile_imp hline
    exact ⟨hblank, bne_iff_ne.1 hmark⟩

/-- Behind the last line feed of a text there is no instruction unless something is there. -/
theorem number_le_lineCount {text : String} (h : line ∈ lines text) :
    line.number ≤ lineCount text := by
  have hlt : line.number < 1 + (rawLines text).length := number_lt_of_mem_readFrom h
  unfold lineCount
  split
  · rename_i hlast
    obtain ⟨front, hfront⟩ := List.getLast?_eq_some_iff.1 hlast
    unfold lines at h
    rw [hfront, readFrom_append] at h
    have h : line ∈ readFrom 1 front := by
      simpa [readFrom, readLine?, uncomment, Text.words] using h
    have := number_lt_of_mem_readFrom h
    rw [hfront, List.length_append, List.length_singleton]
    omega
  · omega

/-- An instruction has been read from some line. -/
theorem exists_readLine?_of_mem_readFrom {css : List (List Char)} (h : line ∈ readFrom number css) :
    ∃ n cs, readLine? n cs = some line := by
  induction css generalizing number with
  | nil => exact nomatch h
  | cons cs rest ih =>
    unfold readFrom at h
    split at h
    · exact ih h
    · rename_i first hfirst
      rcases List.mem_cons.1 h with rfl | h
      · exact ⟨number, cs, hfirst⟩
      · exact ih h

/-- **The instructions of a source are in good order.** -/
theorem isInOrder_lines (source : String) : IsInOrder 1 (lineCount source) (lines source) where
  ascending := pairwise_number_readFrom 1 _
  within line hline := ⟨le_number_of_mem_readFrom hline, number_le_lineCount hline⟩
  words line hline word hword := by
    obtain ⟨n, cs, h⟩ := exists_readLine?_of_mem_readFrom hline
    exact isWord_of_readLine? h hword

/-! ## Instructions that have been written -/

theorem toList_text (line : Line) :
    line.text.toList = [' '].intercalate (line.words.map String.toList) :=
  String.toList_intercalate

/-- What is written of an instruction has no comment, and it is on one line. -/
theorem ne_of_mem_text (h : ∀ word ∈ line.words, IsWord word) {c : Char}
    (hc : c ∈ line.text.toList) : c ≠ commentMark ∧ c ≠ '\n' := by
  rw [toList_text] at hc
  rcases Text.mem_intercalate hc with rfl | ⟨w, hw, hc⟩
  · decide
  · obtain ⟨word, hword, rfl⟩ := List.mem_map.1 hw
    obtain ⟨hblank, hmark⟩ := (h word hword).2 c hc
    refine ⟨hmark, ?_⟩
    rintro rfl
    exact absurd hblank (by decide)

/-- **What is written of an instruction is read as the instruction.** -/
theorem readLine?_text (h : ∀ word ∈ line.words, IsWord word) :
    readLine? line.number line.text.toList = some line := by
  have hcode : uncomment line.text.toList = line.text.toList :=
    List.takeWhile_eq_self_iff.2 fun c hc => bne_iff_ne.2 (ne_of_mem_text h hc).1
  have hwords : Text.words line.text.toList = line.words.map String.toList := by
    rw [toList_text]
    refine Text.words_intercalate (List.forall_mem_map.2 fun word hword => ?_)
      (List.forall_mem_map.2 fun word hword c hc => ((h word hword).2 c hc).1)
    exact fun hempty => (h word hword).1 (String.toList_eq_nil_iff.1 hempty)
  have hself : line.operands.map (String.ofList ∘ String.toList) = line.operands := by simp
  unfold readLine?
  rw [hcode, hwords]
  show some (Line.mk line.number (String.ofList line.mnemonic.toList) _) = some line
  rw [List.map_map, hself, String.ofList_toList]

theorem textAt_cons_self (line : Line) (instructions : List Line) :
    textAt (line :: instructions) line.number = line.text := by
  simp [textAt]

theorem textAt_cons_of_ne (h : line.number ≠ number) (instructions : List Line) :
    textAt (line :: instructions) number = textAt instructions number := by
  simp [textAt, h]

/-- There is nothing on a line in front of the first instruction. -/
theorem textAt_of_lt (h : ∀ line ∈ instructions, number < line.number) :
    textAt instructions number = "" := by
  unfold textAt
  rw [List.find?_eq_none.2 fun line hline => by
    simpa using Nat.ne_of_gt (h line hline)]

/-- What stands on a line is on one line. -/
theorem not_mem_textAt (h : ∀ line ∈ instructions, ∀ word ∈ line.words, IsWord word)
    (number : Nat) : '\n' ∉ (textAt instructions number).toList := by
  unfold textAt
  split
  · rename_i line hline
    exact fun hc => (ne_of_mem_text (h line (List.mem_of_find?_eq_some hline)) hc).2 rfl
  · exact List.not_mem_nil

/-- Behind its first instruction, the others are in good order. -/
theorem IsInOrder.tail (h : IsInOrder first last (line :: instructions)) :
    IsInOrder (line.number + 1) last instructions where
  ascending := (List.pairwise_cons.1 h.ascending).2
  within later hlater :=
    ⟨(List.pairwise_cons.1 h.ascending).1 later hlater,
      (h.within later (List.mem_cons_of_mem _ hlater)).2⟩
  words later hlater := h.words later (List.mem_cons_of_mem _ hlater)

/-- Either the first instruction is on the first line, or there is none on it. -/
theorem IsInOrder.head_or (h : IsInOrder first last instructions) :
    (∃ line rest, instructions = line :: rest ∧ line.number = first) ∨
      ∀ line ∈ instructions, first < line.number := by
  cases instructions with
  | nil => exact Or.inr fun line hline => nomatch hline
  | cons line rest =>
    rcases Nat.eq_or_lt_of_le (h.within line List.mem_cons_self).1 with heq | hlt
    · exact Or.inl ⟨line, rest, rfl, heq.symm⟩
    · refine Or.inr (List.forall_mem_cons.2 ⟨hlt, fun later hlater => ?_⟩)
      exact Nat.lt_trans hlt ((List.pairwise_cons.1 h.ascending).1 later hlater)

/-- Instructions in good order are read from the lines that they are on. -/
theorem IsInOrder.readFrom_textAt {count : Nat} (h : IsInOrder first last instructions)
    (hlast : last < first + count) :
    readFrom first ((List.range' first count).map fun number =>
      (textAt instructions number).toList) = instructions := by
  induction count generalizing first instructions with
  | zero =>
    refine (List.eq_nil_iff_forall_not_mem.2 fun line hline => ?_).symm
    have := h.within line hline
    omega
  | succ count ih =>
    have hlast' : last < first + 1 + count := by omega
    rw [List.range'_succ, List.map_cons, readFrom]
    rcases h.head_or with ⟨line, rest, rfl, rfl⟩ | hlater
    · -- The other lines are not concerned with the first instruction.
      have hothers : ∀ number ∈ List.range' (line.number + 1) count,
          (textAt (line :: rest) number).toList = (textAt rest number).toList := by
        intro number hnumber
        have := (List.mem_range'_1.1 hnumber).1
        rw [textAt_cons_of_ne (by omega)]
      rw [textAt_cons_self, readLine?_text (h.words line List.mem_cons_self),
        List.map_congr_left hothers]
      exact congrArg (line :: ·) (ih h.tail hlast')
    · -- There is nothing on the first line.
      rw [textAt_of_lt hlater]
      exact ih ⟨h.ascending, fun line hline => ⟨hlater line hline, (h.within line hline).2⟩,
        h.words⟩ hlast'

/-- **Instructions in good order are read from the text that they are written as.** -/
theorem IsInOrder.lines_write {count : Nat} (h : IsInOrder 1 count instructions) :
    lines (write count instructions) = instructions := by
  have hread : readFrom 1 ((List.range' 1 count).map fun number =>
      (textAt instructions number).toList) = instructions := h.readFrom_textAt (by omega)
  cases count with
  | zero => exact hread
  | succ count =>
    have hraw : rawLines (write (count + 1) instructions)
        = (List.range' 1 (count + 1)).map fun number => (textAt instructions number).toList := by
      unfold rawLines write
      rw [String.toList_intercalate, List.map_map]
      refine List.splitOn_intercalate '\n' (List.forall_mem_map.2 fun number _ => ?_) ?_
      · exact not_mem_textAt h.words number
      · rw [List.range'_succ]
        exact List.cons_ne_nil _ _
    unfold lines
    rw [hraw, hread]

/-- **Reading and writing back is canonical.** The instructions of a source are numbered upwards
along its lines, and their words hold neither a blank nor what starts a comment. Written back on
as many lines as they need, or on more, they are read again as they are. So what is written back is
assembled to the same, by an assembler with whatever past, and is complete if the source is. -/
theorem lines_write_lines (source : String) :
    IsInOrder 1 (lineCount source) (lines source) ∧
      ∀ count, (∀ line ∈ lines source, line.number ≤ count) →
        lines (write count (lines source)) = lines source ∧
          (∀ a : Assembly, a.next (write count (lines source)) = a.next source) ∧
          isComplete (write count (lines source)) = isComplete source := by
  refine ⟨isInOrder_lines source, fun count hcount => ?_⟩
  have horder : IsInOrder 1 count (lines source) :=
    ⟨(isInOrder_lines source).ascending,
      fun line hline => ⟨((isInOrder_lines source).within line hline).1, hcount line hline⟩,
      (isInOrder_lines source).words⟩
  have hlines : lines (write count (lines source)) = lines source := horder.lines_write
  refine ⟨hlines, fun a => ?_, ?_⟩
  · rw [Assembly.next, hlines, Assembly.next]
  · rw [isComplete, hlines, isComplete]

/-- A comment with a blank in it, an empty line, and lines that end in a carriage return as well.
The five lines are counted, and what is on them is tidied up. -/
theorem lines_write_lines_tidied :
    lineCount "; a\u2003b\r\n\n\u00a0constant\t1.5 ; x;\r\nRET\r\n;" = 5 ∧
      lines "; a\u2003b\r\n\n\u00a0constant\t1.5 ; x;\r\nRET\r\n;"
        = [⟨3, "constant", ["1.5"]⟩, ⟨4, "RET", []⟩] ∧
      write 5 [⟨3, "constant", ["1.5"]⟩, ⟨4, "RET", []⟩] = "\n\nconstant 1.5\nRET\n" ∧
      lines "\n\nconstant 1.5\nRET\n" = [⟨3, "constant", ["1.5"]⟩, ⟨4, "RET", []⟩] ∧
      isComplete "\n\nconstant 1.5\nRET\n" = true := by
  have hlines : lines "; a\u2003b\r\n\n\u00a0constant\t1.5 ; x;\r\nRET\r\n;"
      = [⟨3, "constant", ["1.5"]⟩, ⟨4, "RET", []⟩] := by decide +kernel
  have hwrite : write 5 [⟨3, "constant", ["1.5"]⟩, ⟨4, "RET", []⟩]
      = "\n\nconstant 1.5\nRET\n" := by decide +kernel
  obtain ⟨-, hback⟩ :=
    lines_write_lines "; a\u2003b\r\n\n\u00a0constant\t1.5 ; x;\r\nRET\r\n;"
  obtain ⟨hsame, -, hcomplete⟩ := hback 5 (by rw [hlines]; decide)
  rw [hlines, hwrite] at hsame hcomplete
  exact ⟨by decide +kernel, hlines, hwrite, hsame, hcomplete.trans (by decide +kernel)⟩

end Source

end StackMachine

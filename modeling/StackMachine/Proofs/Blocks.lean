import Mathlib.Data.List.DropRight
import StackMachine.Source

/-!
# Lines and blocks of lines

What is read line by line is a block of lines, each with a line feed behind it (`Source.block`).
The instructions of a block are those on its lines (`Source.mnemonics_block`), and there is at
most one on each: what a line is about can be told from its first word (`Source.firstWord`), which
can be told from its characters.

So whether a block is complete can be told from its lines. If none of them has `RET` for its first
word, it is not (`Source.isComplete_block_eq_false`). If only the last one has, the block ends
once (`Source.endsOnce_block`): its last instruction ends a run, and no other one does.

The lines above a line are a block too (`Source.above`). They have kept their numbers, so their
instructions are those of the source with a smaller number (`Source.lines_above`).
-/

namespace StackMachine

namespace Text

/-- What a text is cut into are parts of it, and what it is cut at is in none of them. -/
theorem of_mem_splitOnP {p : Char → Bool} {cs w : List Char} (h : w ∈ cs.splitOnP p) {c : Char}
    (hc : c ∈ w) : c ∈ cs ∧ p c = false := by
  induction cs generalizing w with
  | nil =>
    rw [List.splitOnP_nil, List.mem_singleton] at h
    rw [h] at hc
    exact nomatch hc
  | cons first cs ih =>
    rw [List.splitOnP_cons_eq_if_modifyHead] at h
    by_cases hfirst : p first = true
    · rw [if_pos hfirst] at h
      rcases List.mem_cons.1 h with rfl | h
      · exact nomatch hc
      · exact ⟨List.mem_cons_of_mem _ (ih h hc).1, (ih h hc).2⟩
    · rw [if_neg hfirst] at h
      obtain ⟨piece, pieces, hsplit⟩ := List.exists_cons_of_ne_nil (List.splitOnP_ne_nil p cs)
      rw [hsplit, List.modifyHead_cons] at h
      rw [hsplit] at ih
      rcases List.mem_cons.1 h with rfl | h
      · rcases List.mem_cons.1 hc with rfl | hc
        · exact ⟨List.mem_cons_self, Bool.eq_false_iff.2 hfirst⟩
        · exact ⟨List.mem_cons_of_mem _ (ih List.mem_cons_self hc).1, (ih List.mem_cons_self hc).2⟩
      · exact ⟨List.mem_cons_of_mem _ (ih (List.mem_cons_of_mem _ h) hc).1,
          (ih (List.mem_cons_of_mem _ h) hc).2⟩

/-! ## First words -/

/-- A blank in front makes no difference to the words. -/
theorem words_cons_of_isBlank {c : Char} (h : isBlank c = true) (cs : List Char) :
    words (c :: cs) = words cs := by
  unfold words
  rw [List.splitOnP_cons_eq_if_modifyHead, if_pos h]
  rfl

/-- The first piece ends where the text is first cut. -/
theorem head?_splitOnP (p : Char → Bool) (cs : List Char) :
    (cs.splitOnP p).head? = some (cs.takeWhile fun c => !p c) := by
  induction cs with
  | nil => rfl
  | cons c cs ih =>
    rw [List.splitOnP_cons_eq_if_modifyHead]
    by_cases hc : p c = true
    · rw [if_pos hc, List.takeWhile_cons_of_neg (by simp [hc])]
      rfl
    · rw [if_neg hc, List.head?_modifyHead, ih, List.takeWhile_cons_of_pos (by simp [hc])]
      rfl

/-- **The first word** stands behind the blanks in front, and ends at the next blank. -/
theorem getD_head?_words (cs : List Char) :
    (words cs).head?.getD [] = (cs.dropWhile isBlank).takeWhile fun c => !isBlank c := by
  induction cs with
  | nil => rfl
  | cons c cs ih =>
    by_cases hblank : isBlank c = true
    · rw [words_cons_of_isBlank hblank, ih, List.dropWhile_cons_of_pos hblank]
    · have hfirst := head?_splitOnP isBlank (c :: cs)
      rw [List.takeWhile_cons_of_pos (by simp [hblank])] at hfirst
      obtain ⟨rest, hsplit⟩ := List.head?_eq_some_iff.1 hfirst
      rw [List.dropWhile_cons_of_neg hblank, List.takeWhile_cons_of_pos (by simp [hblank]), words,
        hsplit]
      rfl

/-- Without the blanks at its ends, a line starts as it does without those in front. -/
theorem head?_strip (cs : List Char) : (strip cs).head? = (cs.dropWhile isBlank).head? := by
  have hstop := List.head?_dropWhile_not isBlank cs
  rw [strip]
  generalize cs.dropWhile isBlank = ds at hstop
  cases ds with
  | nil => rfl
  | cons c ds =>
    have hc : ¬isBlank c = true := by simpa using hstop
    rw [List.reverse_cons, List.dropWhile_append, List.dropWhile_cons_of_neg hc]
    split
    · rfl
    · rw [List.reverse_append]
      rfl

end Text

namespace Source

/-! ## Texts of one line -/

/-- **The first word of a line**, before any comment: what stands between the blanks in front and
the next one. There is nothing in it if the line has no words. -/
def firstWord (line : String) : List Char :=
  ((line.toList.takeWhile fun c => c != ';').dropWhile Text.isBlank).takeWhile fun c =>
    !Text.isBlank c

/-- The first of the words that a line is read as, if there is one. -/
def firstWord? (line : String) : Option (List Char) :=
  (Text.words (uncomment line.toList)).head?

/-- **A line is read with its first word in front.** -/
theorem getD_firstWord? (line : String) : (firstWord? line).getD [] = firstWord line :=
  Text.getD_head?_words _

/-- The first word starts with the first letter, unless this starts a comment. -/
theorem head?_firstWord {line : String} {c : Char}
    (h : (line.toList.dropWhile Text.isBlank).head? = some c) (hmark : c ≠ ';') :
    (firstWord line).head? = some c := by
  unfold firstWord
  generalize line.toList = cs at h
  induction cs with
  | nil => exact nomatch h
  | cons first cs ih =>
    by_cases hblank : Text.isBlank first = true
    · have hother : first ≠ ';' := by
        rintro rfl
        exact absurd hblank (by decide)
      rw [List.dropWhile_cons_of_pos hblank] at h
      rw [List.takeWhile_cons_of_pos (by simpa using hother), List.dropWhile_cons_of_pos hblank]
      exact ih h
    · rw [List.dropWhile_cons_of_neg hblank] at h
      cases Option.some.inj h
      rw [List.takeWhile_cons_of_pos (by simpa using hmark), List.dropWhile_cons_of_neg hblank,
        List.takeWhile_cons_of_pos (by simpa using hblank)]
      rfl

/-- Whether the first word of a line is `RET`, in capital or small letters. -/
def endsSource (line : String) : Bool :=
  decide ((firstWord line).map Char.toUpper = ['R', 'E', 'T'])

/-- A text of so many lines, each with a line feed behind it. -/
def block (lines : List String) : String := String.join (lines.map (· ++ "\n"))

theorem block_nil : block [] = "" := String.join_nil

theorem block_cons (line : String) (lines : List String) :
    block (line :: lines) = line ++ "\n" ++ block lines :=
  String.join_cons

theorem block_append (front back : List String) :
    block (front ++ back) = block front ++ block back := by
  unfold block
  rw [List.map_append, String.join_append]

theorem block_concat (lines : List String) (line : String) :
    block (lines ++ [line]) = block lines ++ line ++ "\n" := by
  rw [block_append, block_cons, block_nil, String.append_empty, String.append_assoc]

/-- Only no lines at all make an empty text. -/
theorem isEmpty_block (lines : List String) : (block lines).isEmpty = lines.isEmpty := by
  cases lines with
  | nil => rfl
  | cons line lines =>
    rw [Bool.eq_iff_iff, String.isEmpty_iff, block_cons]
    simp

theorem rawLines_of_not_mem {line : String} (h : '\n' ∉ line.toList) :
    rawLines line = [line.toList] :=
  List.splitOnP_eq_singleton fun _ hc => beq_eq_false_iff_ne.2 fun heq => h (heq ▸ hc)

/-- A text without line feeds has the name of an instruction if it has a first word. -/
theorem mnemonics_of_not_mem {line : String} (h : '\n' ∉ line.toList) :
    mnemonics line = (firstWord? line).toList.map String.ofList := by
  unfold mnemonics lines
  rw [rawLines_of_not_mem h, readFrom, readFrom, readLine?, firstWord?]
  cases Text.words (uncomment line.toList) <;> rfl

/-- The names of the instructions on lines are those on each of them. -/
theorem mnemonics_block (lines : List String) :
    mnemonics (block lines) = lines.flatMap mnemonics := by
  induction lines with
  | nil => rfl
  | cons line lines ih => rw [block_cons, mnemonics_append, ih, List.flatMap_cons]

/-- **A line ends a source exactly if it names the instruction that ends a run.** -/
theorem endsSource_iff {line : String} (h : '\n' ∉ line.toList) :
    endsSource line = true ↔
      ∃ name, mnemonics line = [name] ∧ Opcode.ofMnemonic? name = some .ret := by
  have hret : Opcode.ret.mnemonic.toList = ['R', 'E', 'T'] := rfl
  rw [endsSource, decide_eq_true_iff, mnemonics_of_not_mem h, ← getD_firstWord?]
  cases firstWord? line with
  | none => simp
  | some word => simp [Opcode.ofMnemonic?_eq_some_iff, hret]

/-- A line that does not end a source has no instruction that ends a run. -/
theorem not_ret_of_endsSource_eq_false {line name : String} (h : '\n' ∉ line.toList)
    (hopen : endsSource line = false) (hname : name ∈ mnemonics line) :
    Opcode.ofMnemonic? name ≠ some .ret := by
  intro hret
  have hsingle : mnemonics line = [name] := by
    rw [mnemonics_of_not_mem h] at hname ⊢
    cases hword : firstWord? line with
    | none =>
      rw [hword] at hname
      exact nomatch hname
    | some word =>
      rw [hword] at hname
      rw [List.mem_singleton.1 hname]
      rfl
  exact absurd ((endsSource_iff h).2 ⟨name, hsingle, hret⟩) (Bool.eq_false_iff.1 hopen)

/-- By itself, a line that ends a source is a complete one. -/
theorem isComplete_of_not_mem {line : String} (h : '\n' ∉ line.toList) :
    isComplete line = endsSource line := by
  rw [Bool.eq_iff_iff, endsSource_iff h, isComplete_eq, mnemonics_of_not_mem h]
  cases firstWord? line with
  | none => simp
  | some word => simp

/-- **Lines that do not end a source do not make a complete one.** -/
theorem isComplete_block_eq_false {lines : List String}
    (single : ∀ line ∈ lines, '\n' ∉ line.toList)
    (hopen : ∀ line ∈ lines, endsSource line = false) : isComplete (block lines) = false := by
  rw [isComplete_eq, mnemonics_block]
  cases hlast : (lines.flatMap mnemonics).getLast? with
  | none => rfl
  | some name =>
    obtain ⟨line, hline, hname⟩ := List.mem_flatMap.1 (List.mem_of_getLast? hlast)
    exact decide_eq_false
      (not_ret_of_endsSource_eq_false (single line hline) (hopen line hline) hname)

/-- **A source that ends once**: its last instruction ends a run, and no other one does. -/
def EndsOnce (source : String) : Prop :=
  ∃ front last, lines source = front ++ [last] ∧
    Opcode.ofMnemonic? last.mnemonic = some .ret ∧
    ∀ line ∈ front, Opcode.ofMnemonic? line.mnemonic ≠ some .ret

theorem EndsOnce.isComplete {source : String} (h : EndsOnce source) : isComplete source = true := by
  obtain ⟨front, last, hlines, hret, -⟩ := h
  rw [Source.isComplete, hlines, List.getLast?_concat]
  exact decide_eq_true hret

/-- Lines of which only the last one ends a source make a source that ends once. -/
theorem endsOnce_block {lines : List String} {line : String}
    (single : ∀ l ∈ lines, '\n' ∉ l.toList) (hopen : ∀ l ∈ lines, endsSource l = false)
    (hsingle : '\n' ∉ line.toList) (hends : endsSource line = true) :
    EndsOnce (block (lines ++ [line])) := by
  obtain ⟨name, hname, hret⟩ := (endsSource_iff hsingle).1 hends
  have hnames : (Source.lines (block (lines ++ [line]))).map Line.mnemonic
      = lines.flatMap mnemonics ++ [name] := by
    show mnemonics (block (lines ++ [line])) = _
    rw [mnemonics_block, List.flatMap_append, List.flatMap_singleton, hname]
  obtain ⟨front, back, hlines, hfront, hback⟩ := List.map_eq_append_iff.1 hnames
  obtain ⟨last, rfl, rfl⟩ := List.map_eq_singleton_iff.1 hback
  refine ⟨front, last, hlines, hret, fun other hother => ?_⟩
  have hmem : other.mnemonic ∈ lines.flatMap mnemonics :=
    hfront ▸ List.mem_map_of_mem hother
  obtain ⟨l, hl, hmem⟩ := List.mem_flatMap.1 hmem
  exact not_ret_of_endsSource_eq_false (single l hl) (hopen l hl) hmem

/-! ## The lines above a line -/

/-- The lines of a text are what is left once it is cut at its line feeds. -/
theorem not_mem_of_mem_rawLines {text : String} {cs : List Char} (h : cs ∈ rawLines text) :
    '\n' ∉ cs :=
  fun hmem => absurd (Text.of_mem_splitOnP h hmem).2 (by decide)

/-- A block has the lines it is made of, and behind the last line feed an empty one. -/
theorem rawLines_block {lines : List String} (single : ∀ line ∈ lines, '\n' ∉ line.toList) :
    rawLines (block lines) = lines.map String.toList ++ [[]] := by
  induction lines with
  | nil => rfl
  | cons line lines ih =>
    obtain ⟨hline, hlines⟩ := List.forall_mem_cons.1 single
    rw [block_cons, rawLines_append, rawLines_of_not_mem hline, ih hlines]
    rfl

/-- The instructions of a block are those on its lines. -/
theorem lines_block {lines : List String} (single : ∀ line ∈ lines, '\n' ∉ line.toList) :
    Source.lines (block lines) = readFrom 1 (lines.map String.toList) := by
  unfold Source.lines
  rw [rawLines_block single, readFrom_append]
  exact List.append_nil _

/-- Counting comes no further than there are lines. -/
theorem number_lt_of_mem_readFrom {number : Nat} {css : List (List Char)} {line : Line}
    (h : line ∈ readFrom number css) : line.number < number + css.length := by
  induction css generalizing number with
  | nil => exact absurd h (by simp [readFrom])
  | cons cs rest ih =>
    rw [List.length_cons]
    unfold readFrom at h
    split at h
    · have := ih h
      omega
    · rename_i first hfirst
      rcases List.mem_cons.1 h with rfl | h
      · rw [number_of_readLine? hfirst]
        omega
      · have := ih h
        omega

/-- **The text of the lines above a line**, given by its number. -/
def above (number : Nat) (source : String) : String :=
  block (((rawLines source).take (number - 1)).map String.ofList)

/-- **The instructions above a line are those with a smaller number.** -/
theorem lines_above (number : Nat) (source : String) :
    lines (above number source)
      = (lines source).filter fun line => decide (line.number < number) := by
  have single : ∀ line ∈ ((rawLines source).take (number - 1)).map String.ofList,
      '\n' ∉ line.toList := by
    intro line hline
    obtain ⟨cs, hcs, rfl⟩ := List.mem_map.1 hline
    rw [String.toList_ofList]
    exact not_mem_of_mem_rawLines (List.mem_of_mem_take hcs)
  have hself : String.toList ∘ String.ofList = id := funext fun cs => String.toList_ofList
  have hsplit : lines source = readFrom 1 ((rawLines source).take (number - 1))
      ++ readFrom (1 + ((rawLines source).take (number - 1)).length)
          ((rawLines source).drop (number - 1)) := by
    rw [← readFrom_append, List.take_append_drop]
    rfl
  rw [above, lines_block single, List.map_map, hself, List.map_id, hsplit, List.filter_append]
  have habove : (readFrom 1 ((rawLines source).take (number - 1))).filter
      (fun line => decide (line.number < number))
        = readFrom 1 ((rawLines source).take (number - 1)) := by
    refine List.filter_eq_self.2 fun line hline => decide_eq_true ?_
    have hlt := number_lt_of_mem_readFrom hline
    have hge := le_number_of_mem_readFrom hline
    rw [List.length_take] at hlt
    omega
  have hbelow : (readFrom (1 + ((rawLines source).take (number - 1)).length)
      ((rawLines source).drop (number - 1))).filter
        (fun line => decide (line.number < number)) = [] := by
    refine List.filter_eq_nil_iff.2 fun line hline => ?_
    have hlt := number_lt_of_mem_readFrom hline
    have hge := le_number_of_mem_readFrom hline
    rw [List.length_take] at hlt hge
    rw [List.length_drop] at hlt
    rw [decide_eq_true_iff]
    omega
  rw [habove, hbelow, List.append_nil]

end Source

end StackMachine

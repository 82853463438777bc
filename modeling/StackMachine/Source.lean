import StackMachine.Opcode
import StackMachine.Text.Blank

/-!
# Source text

A source is a text of lines. On each line everything from the first semicolon on is a
comment; what is left is split into words at blanks. The first word is the name of an
instruction and the others are its operands. Lines without words vanish, but they are
counted, so that an instruction knows the number of its line.

A source is complete when its last instruction is the one that ends a run. Whether it is
can be told while it arrives line by line, from the last line alone: as long as what came
before was not complete, the source is complete exactly if the line is
(`isComplete_append_line`).
-/

namespace StackMachine

namespace Source

/-- **A line that holds an instruction.** -/
structure Line where
  /-- The number of the line in the source, counted from one. -/
  number : Nat
  /-- The first word, as it was written. -/
  mnemonic : String
  /-- The other words. -/
  operands : List String
  deriving DecidableEq, Inhabited

/-- The character that starts a comment. -/
def commentMark : Char := ';'

/-- A line without its comment. -/
def uncomment (cs : List Char) : List Char := cs.takeWhile fun c => c != commentMark

/-- The instruction on a line, if it has words. -/
def readLine? (number : Nat) (cs : List Char) : Option Line :=
  match Text.words (uncomment cs) with
  | [] => none
  | word :: rest => some ⟨number, String.ofList word, rest.map String.ofList⟩

/-- The instructions on lines that are numbered from the given number on. -/
def readFrom : Nat → List (List Char) → List Line
  | _, [] => []
  | number, cs :: rest =>
    match readLine? number cs with
    | none => readFrom (number + 1) rest
    | some line => line :: readFrom (number + 1) rest

/-- The lines of a text. They end at line feeds alone: a carriage return is blank and
needs no care, and what a last line feed ends leaves only a line without words. -/
def rawLines (text : String) : List (List Char) :=
  text.toList.splitOnP fun c => c == '\n'

/-- **The instructions of a source**, in order. -/
def lines (text : String) : List Line := readFrom 1 (rawLines text)

/-- Whether the last instruction of a source ends the run. -/
def isComplete (text : String) : Bool :=
  match (lines text).getLast? with
  | none => false
  | some line => decide (Opcode.ofMnemonic? line.mnemonic = some .ret)

/-! ## Small laws -/

/-- An instruction carries the number of its line. -/
theorem number_of_readLine? {number : Nat} {cs : List Char} {line : Line}
    (h : readLine? number cs = some line) : line.number = number := by
  unfold readLine? at h
  split at h
  · exact absurd h (by simp)
  · rw [← Option.some.inj h]

/-- **Instructions are numbered upwards**: none comes before the number that counting
starts with. -/
theorem le_number_of_mem_readFrom {number : Nat} {css : List (List Char)} {line : Line}
    (h : line ∈ readFrom number css) : number ≤ line.number := by
  induction css generalizing number with
  | nil => exact absurd h (by simp [readFrom])
  | cons cs rest ih =>
    unfold readFrom at h
    split at h
    · exact Nat.le_of_succ_le (ih h)
    · rename_i first hfirst
      rcases List.mem_cons.1 h with rfl | h
      · exact Nat.le_of_eq (number_of_readLine? hfirst).symm
      · exact Nat.le_of_succ_le (ih h)

/-- What is read from lines in two parts is read from the parts, the second one counted on
from where the first one ends. -/
theorem readFrom_append (number : Nat) (front back : List (List Char)) :
    readFrom number (front ++ back) =
      readFrom number front ++ readFrom (number + front.length) back := by
  induction front generalizing number with
  | nil => rfl
  | cons cs rest ih =>
    have hnext : number + 1 + rest.length = number + (cs :: rest).length := by
      rw [List.length_cons]
      omega
    simp only [List.cons_append, readFrom, ih, hnext]
    split <;> rfl

/-- The names of instructions do not depend on how the lines are numbered. -/
theorem mnemonics_readFrom (number other : Nat) (css : List (List Char)) :
    (readFrom number css).map Line.mnemonic = (readFrom other css).map Line.mnemonic := by
  induction css generalizing number other with
  | nil => rfl
  | cons cs rest ih =>
    unfold readFrom readLine?
    cases Text.words (uncomment cs) with
    | nil => exact ih (number + 1) (other + 1)
    | cons word words =>
      exact congrArg (String.ofList word :: ·) (ih (number + 1) (other + 1))

/-- The names of the instructions of a source, in order. -/
def mnemonics (text : String) : List String := (lines text).map Line.mnemonic

/-- A source is complete as the name of its last instruction says. -/
theorem isComplete_eq (text : String) :
    isComplete text =
      (mnemonics text).getLast?.any fun name => decide (Opcode.ofMnemonic? name = some .ret) := by
  unfold isComplete mnemonics
  rw [List.getLast?_map]
  cases (lines text).getLast? <;> rfl

/-- A line feed between two texts keeps their lines apart. -/
theorem rawLines_append (front back : String) :
    rawLines (front ++ "\n" ++ back) = rawLines front ++ rawLines back := by
  unfold rawLines
  rw [String.toList_append, String.toList_append, List.append_assoc]
  exact List.splitOnP_append_cons front.toList back.toList rfl

/-- **A line feed between two sources keeps their instructions apart.** -/
theorem mnemonics_append (front back : String) :
    mnemonics (front ++ "\n" ++ back) = mnemonics front ++ mnemonics back := by
  unfold mnemonics lines
  rw [rawLines_append, readFrom_append, List.map_append]
  exact congrArg _ (mnemonics_readFrom _ _ _)

/-- A source without instructions is not complete. -/
theorem isComplete_of_mnemonics_eq_nil {text : String} (h : mnemonics text = []) :
    isComplete text = false := by
  rw [isComplete_eq, h]
  rfl

theorem mnemonics_empty : mnemonics "" = [] := rfl

/-- A line feed at its end does not make a source complete, nor does it keep it from
being so. -/
theorem isComplete_append_lineFeed (text : String) :
    isComplete (text ++ "\n") = isComplete text := by
  have h := mnemonics_append text ""
  rw [String.append_empty, mnemonics_empty, List.append_nil] at h
  rw [isComplete_eq, isComplete_eq, h]

/-- **The last line decides**: behind lines that are not complete, a line completes the
source exactly if it is complete by itself. -/
theorem isComplete_append_line {pending : String} (h : isComplete pending = false)
    (hend : pending = "" ∨ ∃ front, pending = front ++ "\n") (line : String) :
    isComplete (pending ++ line ++ "\n") = isComplete line := by
  rw [isComplete_append_lineFeed]
  rcases hend with rfl | ⟨front, rfl⟩
  · rw [String.empty_append]
  · rw [isComplete_append_lineFeed] at h
    cases hline : mnemonics line with
    | nil =>
      rw [isComplete_of_mnemonics_eq_nil hline, isComplete_eq, mnemonics_append, hline,
        List.append_nil, ← isComplete_eq, h]
    | cons name names =>
      rw [isComplete_eq, isComplete_eq, mnemonics_append, hline, List.getLast?_append]
      rw [List.getLast?_cons]
      rfl

end Source

end StackMachine

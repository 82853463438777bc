import Mathlib.Data.List.Induction
import StackMachine.Proofs.Composition

/-!
# What the assembler accepts

The assembler reads a source from top to bottom and carries two numbers along, the depth of the
stack and the size of the pool. What it accepts can be said without it (`Acceptable`): a condition
on every line by itself, a count of the loads, and for every line a sum over the lines before it.
What it turns down it turns down over the first line that is at fault, and over the first of the
checks, in a fixed order, that this line fails (`IsFirstFault`).

`Assembly.Violates` says when a line fails a check, from the line and those before it. Behind lines
without a fault the two numbers are what can be read off these lines (`Tracks`), so the assembler
finds fault with the next line exactly if one is there (`not_violates_of_takes`,
`isFirstFault_of_extend`). Once a fault is found nothing behind it is read, so a source that is turned
down stays so, for the same reason, however it goes on (`assembler_iff_acceptable`).
-/

namespace StackMachine

namespace Source

namespace Line

/-- A line names an instruction if its first word is the name, whatever the case of the letters. -/
def Names (line : Line) (op : Opcode) : Prop :=
  line.mnemonic.toList.map Char.toUpper = op.mnemonic.toList.map Char.toUpper

theorem names_iff {line : Line} {op : Opcode} :
    line.Names op ↔ Opcode.ofMnemonic? line.mnemonic = some op := by
  have hcapitals : op.mnemonic.toList.map Char.toUpper = op.mnemonic.toList := by
    cases op <;> decide
  rw [Names, hcapitals, Opcode.ofMnemonic?_eq_some_iff]

theorem Names.unique {line : Line} {op other : Opcode} (h : line.Names op)
    (h' : line.Names other) : op = other :=
  Option.some.inj ((names_iff.1 h).symm.trans (names_iff.1 h'))

theorem isLoad_iff_names {line : Line} : line.isLoad = true ↔ line.Names .constant := by
  rw [isLoad, decide_eq_true_iff, names_iff]

/-- How many values more there are on the stack behind the instruction on a line than before it. -/
def change (line : Line) : Int :=
  match Opcode.ofMnemonic? line.mnemonic with
  | none => 0
  | some op => (op.outputs : Int) - op.inputs

theorem Names.change_eq {line : Line} {op : Opcode} (h : line.Names op) :
    line.change = (op.outputs : Int) - op.inputs := by
  rw [change, names_iff.1 h]

end Line

/-- How many values instructions leave on the stack in all: the sum of what each one changes. -/
def balance : List Line → Int
  | [] => 0
  | line :: rest => line.change + balance rest

theorem balance_concat (lines : List Line) (line : Line) :
    balance (lines ++ [line]) = balance lines + line.change := by
  induction lines with
  | nil => exact Int.add_comm _ _
  | cons first rest ih => rw [List.cons_append, balance, balance, ih, Int.add_assoc]

/-- **A text goes on behind a source**, on further lines: what is added comes behind a line feed,
which may be the last character of the source. -/
inductive Continues : String → String → Prop where
  /-- Nothing is added. -/
  | done (source : String) : Continues source source
  /-- The last line is ended, and more lines follow. -/
  | ended (source more : String) : Continues source (source ++ "\n" ++ more)
  /-- The last line has been ended already. -/
  | further (front more : String) : Continues (front ++ "\n") (front ++ "\n" ++ more)

/-- A source that goes on has the same instructions, and then perhaps more. -/
theorem Continues.lines_eq {source extended : String} (h : Continues source extended) :
    ∃ more, lines extended = lines source ++ more := by
  cases h with
  | done => exact ⟨[], (List.append_nil _).symm⟩
  | ended => exact ⟨_, lines_append _ _⟩
  | further front more =>
    have hfront : lines (front ++ "\n") = lines front := by
      have happend := lines_append front ""
      rw [String.append_empty] at happend
      exact happend.trans (List.append_nil _)
    rw [hfront]
    exact ⟨_, lines_append _ _⟩

end Source

namespace Assembly

open Source (Line balance)

/-! ## The checks -/

/-- **What can be held against a line** behind given lines. The checks do not wait for each other,
so a line may fail several. -/
inductive Violates (before : List Line) (line : Line) : Fault → Prop where
  /-- The first word is not the name of an instruction. -/
  | unknown (nameless : ∀ op, ¬line.Names op) :
      Violates before line (.unknownInstruction line.mnemonic)
  /-- There are fewer words behind the name than the instruction has operands. -/
  | missing {op : Opcode} (named : line.Names op)
      (few : line.operands.length < op.operandCount) :
      Violates before line (.missingOperand op.mnemonic)
  /-- There are more, and the first of them that is too many is `extra`. -/
  | unexpected {op : Opcode} {extra : String} (named : line.Names op)
      (many : line.operands[op.operandCount]? = some extra) :
      Violates before line (.unexpectedOperand op.mnemonic extra)
  /-- The lines before leave fewer values than the instruction takes. -/
  | underflow {op : Opcode} (named : line.Names op) (shallow : balance before < op.inputs) :
      Violates before line (.underflow op.mnemonic)
  /-- A word behind the name of a load is no literal. -/
  | literal {word : String} (named : line.Names .constant) (operand : word ∈ line.operands)
      (odd : Value.ofLiteral? word = none) :
      Violates before line (.invalidLiteral word)
  /-- There are as many loads before this one as there may be in all. -/
  | full (named : line.Names .constant)
      (loads : Chunk.maxConstants ≤ before.countP Line.isLoad) :
      Violates before line .tooManyConstants

/-- The place of a fault in the order in which a line is checked. -/
def Fault.rank : Fault → Nat
  | unknownInstruction _ => 0
  | missingOperand _ => 1
  | unexpectedOperand .. => 2
  | underflow _ => 3
  | invalidLiteral _ => 4
  | tooManyConstants => 5

/-- Nothing can be held against any of the lines. -/
def Faultless (lines : List Line) : Prop :=
  ∀ before line after, lines = before ++ line :: after → ∀ fault, ¬Violates before line fault

/-- The fault is the first that is checked for among those that can be held against a line. -/
structure IsFirstFault (before : List Line) (line : Line) (fault : Fault) : Prop where
  /-- It can be held against the line. -/
  violates : Violates before line fault
  /-- All the others come later. -/
  first : ∀ other, Violates before line other → fault.rank ≤ other.rank

/-- **The sources that are accepted**, by their instructions. -/
structure Acceptable (lines : List Line) : Prop where
  /-- Each line names an instruction and has as many operands as it needs. -/
  formed : ∀ line ∈ lines, ∃ op, line.Names op ∧ line.operands.length = op.operandCount
  /-- The operands of loads are literals. -/
  literals : ∀ line ∈ lines, line.Names .constant →
    ∀ word ∈ line.operands, (Value.ofLiteral? word).isSome
  /-- The loads are no more than a pool has room for. -/
  loads : lines.countP Line.isLoad ≤ 256
  /-- No instruction takes more values than the lines before it leave. -/
  enough : ∀ before line after, lines = before ++ line :: after →
    ∀ op, line.Names op → (op.inputs : Int) ≤ balance before

variable {before lines : List Line} {line : Line} {fault : Fault} {op : Opcode}

/-- What is wrong with a line that names an instruction. -/
theorem Violates.cases_of_names (named : line.Names op) (h : Violates before line fault) :
    (fault.rank = 1 ∧ line.operands.length < op.operandCount) ∨
      (fault.rank = 2 ∧ op.operandCount < line.operands.length) ∨
      (fault.rank = 3 ∧ balance before < op.inputs) ∨
      (fault.rank = 4 ∧ op = .constant ∧
        ∃ word ∈ line.operands, Value.ofLiteral? word = none) ∨
      (fault.rank = 5 ∧ op = .constant ∧
        Chunk.maxConstants ≤ before.countP Line.isLoad) := by
  cases h with
  | unknown nameless => exact absurd named (nameless op)
  | missing named' few =>
    cases named.unique named'
    exact Or.inl ⟨rfl, few⟩
  | unexpected named' many =>
    cases named.unique named'
    exact Or.inr (Or.inl ⟨rfl, (List.getElem?_eq_some_iff.1 many).1⟩)
  | underflow named' shallow =>
    cases named.unique named'
    exact Or.inr (Or.inr (Or.inl ⟨rfl, shallow⟩))
  | literal named' operand odd =>
    exact Or.inr (Or.inr (Or.inr (Or.inl ⟨rfl, named.unique named', _, operand, odd⟩)))
  | full named' loads =>
    exact Or.inr (Or.inr (Or.inr (Or.inr ⟨rfl, named.unique named', loads⟩)))

theorem faultless_nil : Faultless [] := by
  intro before line after h
  exact absurd h (by simp)

/-- Lines are without fault if all but the last are, and the last one is behind them. -/
theorem faultless_concat_iff :
    Faultless (lines ++ [line]) ↔ Faultless lines ∧ ∀ fault, ¬Violates lines line fault := by
  constructor
  · intro h
    refine ⟨fun before first after hsplit => ?_, h lines line [] rfl⟩
    refine h before first (after ++ [line]) ?_
    rw [hsplit, List.append_assoc, List.cons_append]
  · rintro ⟨hlines, hline⟩ before first after hsplit
    rcases List.eq_nil_or_concat after with rfl | ⟨rest, last, rfl⟩
    · obtain ⟨rfl, hlast⟩ := List.append_inj' hsplit rfl
      cases hlast
      exact hline
    · have hassoc : before ++ first :: (rest ++ [last]) = before ++ first :: rest ++ [last] := by
        rw [List.append_assoc, List.cons_append]
      rw [List.concat_eq_append, hassoc] at hsplit
      exact hlines before first rest (List.append_inj' hsplit rfl).1

/-- Lines without fault have no more loads than there may be. -/
theorem Faultless.countP_isLoad_le (h : Faultless lines) :
    lines.countP Line.isLoad ≤ Chunk.maxConstants := by
  induction lines using List.reverseRecOn with
  | nil => exact Nat.zero_le _
  | append_singleton lines line ih =>
    obtain ⟨hlines, hline⟩ := faultless_concat_iff.1 h
    rw [List.countP_append, List.countP_singleton]
    by_cases hload : line.isLoad = true
    · -- The last load has found the pool with some room.
      have hroom : ¬Chunk.maxConstants ≤ lines.countP Line.isLoad := fun hfull =>
        hline _ (.full (Source.Line.isLoad_iff_names.1 hload) hfull)
      rw [if_pos hload]
      omega
    · rw [if_neg hload]
      exact ih hlines

/-- **What is accepted is what nothing can be held against.** -/
theorem acceptable_iff_faultless : Acceptable lines ↔ Faultless lines := by
  constructor
  · rintro ⟨formed, literals, loads, enough⟩ before line after rfl fault violates
    have hmem : line ∈ before ++ line :: after := by simp
    obtain ⟨op, named, hcount⟩ := formed line hmem
    rcases violates.cases_of_names named with
      ⟨-, h⟩ | ⟨-, h⟩ | ⟨-, h⟩ | ⟨-, rfl, word, hword, hodd⟩ | ⟨-, rfl, h⟩
    · omega
    · omega
    · exact absurd (enough before line after rfl op named) (Int.not_le.2 h)
    · exact absurd (literals line hmem named word hword) (by simp [hodd])
    · rw [List.countP_append, List.countP_cons_of_pos (Source.Line.isLoad_iff_names.2 named)]
        at loads
      have hmax : Chunk.maxConstants = 256 := rfl
      omega
  · intro h
    refine ⟨fun line hmem => ?_, fun line hmem named word hword => ?_, h.countP_isLoad_le,
      fun before line after hsplit op named => ?_⟩
    · obtain ⟨before, after, hsplit⟩ := List.append_of_mem hmem
      have hline := h before line after hsplit
      obtain ⟨op, named⟩ : ∃ op, line.Names op := by
        by_contra hnone
        exact hline _ (.unknown fun op named => hnone ⟨op, named⟩)
      have hmost : line.operands[op.operandCount]? = none := by
        cases hextra : line.operands[op.operandCount]? with
        | none => rfl
        | some extra => exact absurd (.unexpected named hextra) (hline _)
      have hleast : ¬line.operands.length < op.operandCount := fun hfew =>
        hline _ (.missing named hfew)
      refine ⟨op, named, Nat.le_antisymm (List.getElem?_eq_none_iff.1 hmost) ?_⟩
      exact Nat.le_of_not_lt hleast
    · obtain ⟨before, after, hsplit⟩ := List.append_of_mem hmem
      by_contra hodd
      exact h before line after hsplit _
        (.literal named hword (Option.not_isSome_iff_eq_none.1 hodd))
    · by_contra hshallow
      exact h before line after hsplit _ (.underflow named (Int.not_le.1 hshallow))

/-! ## What the assembler finds -/

/-- What the assembler carries along is what can be read off the lines before. -/
structure Tracks (a : Assembly) (before : List Line) : Prop where
  /-- The depth is what the lines leave on the stack. -/
  depth : (a.depth : Int) = balance before
  /-- The pool has a constant for each load. -/
  pool : a.chunk.constants.size = before.countP Line.isLoad

theorem tracks_nil : Tracks {} [] := ⟨rfl, rfl⟩

variable {a b : Assembly}

/-- A line that stands for an instruction has no fault if there are values enough for it, and room
for its literal if it has one. -/
theorem not_violates_of_standsFor (stands : line.StandsFor op)
    (enough : (op.inputs : Int) ≤ balance before)
    (room : op = .constant → before.countP Line.isLoad < Chunk.maxConstants) :
    ¬Violates before line fault := by
  intro violates
  have names : line.Names op := Source.Line.names_iff.2 stands.named
  rcases violates.cases_of_names names with
    ⟨-, few⟩ | ⟨-, many⟩ | ⟨-, shallow⟩ | ⟨-, rfl, word, hmem, odd⟩ | ⟨-, rfl, full⟩
  · cases stands with
    | plain named other bare =>
      rw [operandCount_of_ne_constant other] at few
      exact Nat.not_lt_zero _ few
    | load named single literal =>
      rw [single] at few
      exact Nat.lt_irrefl _ few
  · cases stands with
    | plain named other bare =>
      rw [bare] at many
      exact Nat.not_lt_zero _ many
    | load named single literal =>
      rw [single] at many
      exact Nat.lt_irrefl _ many
  · exact absurd enough (Int.not_le.2 shallow)
  · cases stands with
    | plain named other bare => exact absurd rfl other
    | load named single literal =>
      rw [single, List.mem_singleton] at hmem
      rw [hmem, literal] at odd
      exact nomatch odd
  · exact absurd (room rfl) (Nat.not_lt.2 full)

/-- **A line that is taken has no fault.** -/
theorem not_violates_of_takes (tracks : a.Tracks before) (h : Takes a line b) :
    ¬Violates before line fault := by
  obtain ⟨hdepth, hpool⟩ := tracks
  cases h with
  | plain named other bare enough =>
    refine not_violates_of_standsFor (.plain named other bare) ?_ fun h => absurd h other
    omega
  | load named single literal room =>
    refine not_violates_of_standsFor (.load named single literal) ?_ fun _ => hpool ▸ room
    rw [← hdepth]
    exact Int.natCast_nonneg _

/-- **The assembler keeps track of the lines it takes.** -/
theorem Tracks.of_takes (tracks : a.Tracks before) (h : Takes a line b) :
    b.Tracks (before ++ [line]) := by
  obtain ⟨hdepth, hpool⟩ := tracks
  cases h with
  | @plain op named other bare enough =>
    have names : line.Names op := Source.Line.names_iff.2 named
    constructor
    · show ((a.depth - op.inputs + op.outputs : Nat) : Int) = _
      rw [Source.balance_concat, names.change_eq, ← hdepth]
      omega
    · rw [List.countP_append, List.countP_singleton, Source.Line.isLoad_of_ne named other]
      exact hpool
  | load named single literal room =>
    have names : line.Names .constant := Source.Line.names_iff.2 named
    constructor
    · rw [Source.balance_concat, names.change_eq, ← hdepth]
      rfl
    · rw [List.countP_append, List.countP_singleton, Source.Line.isLoad_of_named named,
        Chunk.size_constants_withLoad, hpool]
      rfl

/-- Only a load can fail to be encoded: its operand is no literal, or it is one and the pool is
full. -/
theorem encode_eq_error {c : Chunk} {operands : List String} {number : Nat}
    (h : encode c op operands number = .error fault) :
    op = .constant ∧ ∃ word ∈ operands.head?,
      (Value.ofLiteral? word = none ∧ fault = .invalidLiteral word) ∨
        ((Value.ofLiteral? word).isSome ∧ Chunk.maxConstants ≤ c.constants.size ∧
          fault = .tooManyConstants) := by
  unfold encode at h
  split at h
  · rename_i word words
    refine ⟨rfl, word, rfl, ?_⟩
    split at h
    · rename_i hodd
      cases h
      exact Or.inl ⟨hodd, rfl⟩
    · rename_i v hv
      split at h
      · rename_i hfull
        cases h
        rw [Chunk.pushLoad?, Option.map_eq_none_iff] at hfull
        exact Or.inr ⟨by rw [hv]; rfl, Chunk.pool?_eq_none_iff.1 hfull, rfl⟩
      · cases h
  · cases h

/-- If nothing else is wrong with a line, what keeps it from being encoded is its first fault. -/
theorem isFirstFault_of_encode {c : Chunk} {number : Nat} (named : line.Names op)
    (count : line.operands.length = op.operandCount)
    (enough : (op.inputs : Int) ≤ balance before)
    (pool : c.constants.size = before.countP Line.isLoad)
    (h : encode c op line.operands number = .error fault) :
    IsFirstFault before line fault := by
  obtain ⟨rfl, word, hword, ⟨odd, rfl⟩ | ⟨literal, full, rfl⟩⟩ := encode_eq_error h
  · refine ⟨.literal named (List.mem_of_mem_head? hword) odd, fun other violates => ?_⟩
    have hcases := violates.cases_of_names named
    show 4 ≤ other.rank
    omega
  · refine ⟨.full named (pool ▸ full), fun other violates => ?_⟩
    show 5 ≤ other.rank
    rcases violates.cases_of_names named with
      ⟨-, few⟩ | ⟨-, many⟩ | ⟨-, shallow⟩ | ⟨-, -, odd, hmem, hodd⟩ | ⟨last, -⟩
    · omega
    · omega
    · omega
    · -- The operand is the only one, and it is a literal.
      obtain ⟨only, honly⟩ := List.length_eq_one_iff.1 count
      rw [honly] at hmem hword
      cases hword
      rw [List.mem_singleton.1 hmem] at hodd
      rw [hodd] at literal
      exact nomatch literal
    · exact Nat.le_of_eq last.symm

/-- **A line that is turned down is turned down over its first fault.** -/
theorem isFirstFault_of_extend (tracks : a.Tracks before) (h : a.extend line = .error fault) :
    IsFirstFault before line fault := by
  obtain ⟨hdepth, hpool⟩ := tracks
  unfold extend at h
  split at h
  · rename_i hnone
    cases h
    refine ⟨.unknown fun op named => ?_, fun other _ => Nat.zero_le _⟩
    rw [Source.Line.names_iff.1 named] at hnone
    exact nomatch hnone
  rename_i op hop
  have named : line.Names op := Source.Line.names_iff.2 hop
  split at h
  · rename_i hfew
    cases h
    refine ⟨.missing named hfew, fun other violates => ?_⟩
    have hcases := violates.cases_of_names named
    show 1 ≤ other.rank
    omega
  rename_i hleast
  split at h
  · rename_i extra hextra
    cases h
    refine ⟨.unexpected named hextra, fun other violates => ?_⟩
    have hcases := violates.cases_of_names named
    show 2 ≤ other.rank
    omega
  rename_i hmost
  have hlength : line.operands.length ≤ op.operandCount := List.getElem?_eq_none_iff.1 hmost
  split at h
  · rename_i hshallow
    cases h
    refine ⟨.underflow named (by omega), fun other violates => ?_⟩
    have hcases := violates.cases_of_names named
    show 3 ≤ other.rank
    omega
  rename_i henough
  split at h
  · rename_i found hencode
    cases h
    refine isFirstFault_of_encode named ?_ (by omega) hpool hencode
    exact Nat.le_antisymm hlength (Nat.le_of_not_lt hleast)
  · exact nomatch h

/-- Nothing is read behind a fault. -/
theorem snd_extendAll_append {front : List Line} {r : Rejection}
    (h : (a.extendAll front).2 = some r) (back : List Line) :
    (a.extendAll (front ++ back)).2 = some r := by
  rw [extendAll_append]
  generalize a.extendAll front = taken at h
  obtain ⟨b, failure⟩ := taken
  dsimp only at h
  rw [h]

/-- **Lines are taken if they have no fault, and else turned down over the first one.** -/
theorem faultless_or_isFirstFault (lines : List Line) :
    (Faultless lines ∧ ∃ a, extendAll {} lines = (a, none) ∧ a.Tracks lines) ∨
      ∃ before line after fault, lines = before ++ line :: after ∧ Faultless before ∧
        IsFirstFault before line fault ∧
        (extendAll {} lines).2 = some ⟨fault, line.number⟩ := by
  induction lines using List.reverseRecOn with
  | nil => exact Or.inl ⟨faultless_nil, {}, rfl, tracks_nil⟩
  | append_singleton lines line ih =>
    rcases ih with ⟨hlines, a, ha, tracks⟩ | ⟨before, first, after, fault, rfl, hbefore, hfirst, h⟩
    · rw [extendAll_append, ha]
      dsimp only
      rw [extendAll]
      cases hextend : a.extend line with
      | error fault =>
        exact Or.inr ⟨lines, line, [], fault, rfl, hlines, isFirstFault_of_extend tracks hextend,
          rfl⟩
      | ok b =>
        have htakes : Takes a line b := extend_eq_ok_iff.1 hextend
        have hconcat : Faultless (lines ++ [line]) :=
          faultless_concat_iff.2 ⟨hlines, fun _ => not_violates_of_takes tracks htakes⟩
        exact Or.inl ⟨hconcat, b, rfl, tracks.of_takes htakes⟩
    · refine Or.inr ⟨before, first, after ++ [line], fault, ?_, hbefore, hfirst,
        snd_extendAll_append h [line]⟩
      rw [List.append_assoc, List.cons_append]

end Assembly

/-! ## Whole sources -/

open Assembly

theorem assembler_of_error {source : String} {r : Rejection} (h : assemble source = .error r) :
    assembler source = .error r.toSourceError := by
  rw [assembler, h]

/-- **A source that is turned down stays so**, whatever further lines are added. -/
theorem assemble_of_continues {source extended : String} {r : Rejection}
    (h : assemble source = .error r) (continues : Source.Continues source extended) :
    assemble extended = .error r := by
  obtain ⟨more, hmore⟩ := continues.lines_eq
  rw [assemble_eq_error_iff] at h ⊢
  rw [hmore]
  exact snd_extendAll_append h more

/-- **The assembler accepts what is acceptable and reports the first fault of anything else.** It
gives the line of the first fault, and the message of the first check that this line fails. Further
lines do not change this. -/
theorem assembler_iff_acceptable (source : String) :
    ((∃ c, assembler source = .ok c) ↔ Acceptable (Source.lines source)) ∧
      (¬Acceptable (Source.lines source) →
        ∃ before line after fault,
          Source.lines source = before ++ line :: after ∧ Faultless before ∧
          IsFirstFault before line fault ∧
          ∀ extended, Source.Continues source extended →
            assembler extended = .error ⟨fault.message, line.number⟩) := by
  rw [acceptable_iff_faultless]
  rcases faultless_or_isFirstFault (Source.lines source) with
    ⟨hlines, a, ha, -⟩ | ⟨before, line, after, fault, hsplit, hbefore, hfirst, h⟩
  · have hok : assembler source = .ok a.chunk := by
      rw [assembler, assemble_eq_ok_iff.2 ⟨a, ha, rfl⟩]
    exact ⟨iff_of_true ⟨a.chunk, hok⟩ hlines, fun hfault => absurd hlines hfault⟩
  · have herror : assemble source = .error ⟨fault, line.number⟩ := assemble_eq_error_iff.2 h
    have hfault : ¬Faultless (Source.lines source) := fun hlines =>
      hlines before line after hsplit fault hfirst.violates
    refine ⟨iff_of_false ?_ hfault, fun _ =>
      ⟨before, line, after, fault, hsplit, hbefore, hfirst, fun extended continues => ?_⟩⟩
    · rintro ⟨c, hc⟩
      rw [assembler_of_error herror] at hc
      cases hc
    · exact assembler_of_error (assemble_of_continues herror continues)

/-- The second line has an operand too many and finds too few values, and the third has faults of
its own. -/
theorem assembler_first_of_many :
    ¬Acceptable (Source.lines "nil\nadd one\nCONSTANT x y") ∧
      ∀ more, assembler ("nil\nadd one\nCONSTANT x y" ++ "\n" ++ more)
        = .error ⟨"Unexpected operand 'one' after 'ADD'.", 2⟩ := by
  have hfails : assembler "nil\nadd one\nCONSTANT x y"
      = .error ⟨"Unexpected operand 'one' after 'ADD'.", 2⟩ := by
    decide +kernel
  obtain ⟨hiff, hfirst⟩ := assembler_iff_acceptable "nil\nadd one\nCONSTANT x y"
  have hnot : ¬Acceptable (Source.lines "nil\nadd one\nCONSTANT x y") := by
    rw [← hiff, hfails]
    rintro ⟨c, hc⟩
    cases hc
  refine ⟨hnot, fun more => ?_⟩
  obtain ⟨before, line, after, fault, -, -, -, hextended⟩ := hfirst hnot
  rw [hextended _ (.ended _ more), ← hextended _ (.done _)]
  exact hfails

end StackMachine

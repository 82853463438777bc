import StackMachine.Assembly

/-!
# How instructions lie in a chunk

A chunk that was assembled is not just any bytes. From its first byte on it holds the
instructions of the source one behind the other, each with its bytes, the line of every
one of these, and, if it loads a constant, an index that finds its literal in the pool.
`Encodes` says this of a chunk, an offset, the number of constants in use before it, and
the instructions to come. It is the only thing that what runs a chunk or lists it has to
know about assembling.

`Proper` is what the assembler checks: that every instruction has its operands and that none
reaches below the values that are there for certain. It speaks of instructions alone and
knows no chunk.

Both come out of the same induction. Assembling appends, so what a chunk holds at one moment
it holds at every later one (`Chunk.Begins`), and an instruction found where it was just put
is found there in the end.
-/

namespace StackMachine

namespace Chunk

/-! ## What appending keeps -/

/-- **One chunk begins another** if whatever is found in the first is found in the same
place in the second. -/
structure Begins (c d : Chunk) : Prop where
  /-- A byte stays where it is. -/
  byte : ∀ {offset : Nat} {b : UInt8}, c.byte? offset = some b → d.byte? offset = some b
  /-- So does the line of a byte. -/
  line : ∀ {offset n : Nat}, c.line? offset = some n → d.line? offset = some n
  /-- A constant keeps its index. -/
  constant : ∀ {i : Nat} {v : Value}, c.constants[i]? = some v → d.constants[i]? = some v

namespace Begins

variable {c d e : Chunk}

theorem refl (c : Chunk) : Begins c c := ⟨id, id, id⟩

theorem trans (h : Begins c d) (h' : Begins d e) : Begins c e :=
  ⟨fun hb => h'.byte (h.byte hb), fun hl => h'.line (h.line hl),
    fun hv => h'.constant (h.constant hv)⟩

end Begins

theorem constant?_of_toNat {c : Chunk} {index : UInt8} {i : Nat} (h : index.toNat = i) :
    c.constant? index = c.constants[i]? := by
  rw [constant?, h]

/-- A chunk is level when every byte of its code has a line and no line is left over. -/
def IsLevel (c : Chunk) : Prop := c.lines.size = c.size

variable {c : Chunk}

theorem IsLevel.push (h : c.IsLevel) (b : UInt8) (line : Nat) :
    (c.push b line).IsLevel := by
  unfold IsLevel
  rw [size_push, ← h]
  exact Array.size_push line

theorem line?_push (c : Chunk) (b : UInt8) (line offset : Nat) :
    (c.push b line).line? offset
      = if offset = c.lines.size then some line else c.line? offset :=
  Array.getElem?_push

/-- Appending a byte disturbs nothing that is there. -/
theorem begins_push (c : Chunk) (b : UInt8) (line : Nat) : c.Begins (c.push b line) where
  byte {offset b'} h := by
    have hlt : offset < c.size := lt_size_of_byte? h
    rw [byte?_push, if_neg (Nat.ne_of_lt hlt)]
    exact h
  line {offset n} h := by
    have hlt : offset < c.lines.size := (Array.getElem?_eq_some_iff.1 h).1
    rw [line?_push, if_neg (Nat.ne_of_lt hlt)]
    exact h
  constant h := h

/-- The chunk with one more constant, wherever there is room for it. -/
def withConstant (c : Chunk) (v : Value) : Chunk :=
  { c with constants := c.constants.push v }

theorem begins_withConstant (c : Chunk) (v : Value) : c.Begins (c.withConstant v) where
  byte h := h
  line h := h
  constant {i w} h := by
    have hlt : i < c.constants.size := (Array.getElem?_eq_some_iff.1 h).1
    show (c.constants.push v)[i]? = some w
    rw [Array.getElem?_push, if_neg (Nat.ne_of_lt hlt)]
    exact h

/-- The chunk with one more constant and the instruction that loads it. -/
def withLoad (c : Chunk) (v : Value) (line : Nat) : Chunk :=
  ((c.withConstant v).pushOpcode .constant line).push (UInt8.ofNat c.constants.size) line

/-- **A load is added exactly where the pool has room.** -/
theorem pushLoad?_eq_some_iff {c d : Chunk} {v : Value} {line : Nat} {index : UInt8} :
    c.pushLoad? v line = some (index, d) ↔
      c.constants.size < maxConstants ∧ UInt8.ofNat c.constants.size = index ∧
        c.withLoad v line = d := by
  unfold pushLoad? pool?
  by_cases h : c.constants.size < maxConstants
  · rw [if_pos h, Option.map_some, Option.some.injEq, Prod.mk.injEq]
    exact (and_iff_right h).symm
  · rw [if_neg h]
    simp [h]

theorem begins_withLoad (c : Chunk) (v : Value) (line : Nat) :
    c.Begins (c.withLoad v line) :=
  ((c.begins_withConstant v).trans (begins_push _ _ _)).trans (begins_push _ _ _)

theorem IsLevel.withLoad (h : c.IsLevel) (v : Value) (line : Nat) :
    (c.withLoad v line).IsLevel :=
  IsLevel.push (IsLevel.push h _ _) _ _

theorem size_withLoad (c : Chunk) (v : Value) (line : Nat) :
    (c.withLoad v line).size = c.size + 2 := by
  show ((c.push _ line).push _ line).size = c.size + 2
  rw [size_push, size_push]

theorem size_constants_withLoad (c : Chunk) (v : Value) (line : Nat) :
    (c.withLoad v line).constants.size = c.constants.size + 1 :=
  Array.size_push v

/-- **A byte that was appended is found in every later chunk**, and so is its line. -/
theorem Begins.of_push {d : Chunk} {b : UInt8} {line : Nat} (h : (c.push b line).Begins d)
    (level : c.IsLevel) : d.byte? c.size = some b ∧ d.line? c.size = some line := by
  refine ⟨h.byte ?_, h.line ?_⟩
  · rw [byte?_push, if_pos rfl]
  · rw [line?_push, if_pos level.symm]

/-- **A load that was appended is found in every later chunk**: its two bytes, the line of each of
them, and its constant. -/
theorem Begins.of_withLoad {d : Chunk} {v : Value} {line : Nat} (h : (c.withLoad v line).Begins d)
    (level : c.IsLevel) :
    d.byte? c.size = some Opcode.constant.byte ∧
      d.byte? (c.size + 1) = some (UInt8.ofNat c.constants.size) ∧
      d.constants[c.constants.size]? = some v ∧
      d.line? c.size = some line ∧ d.line? (c.size + 1) = some line := by
  -- The chunk between the two bytes, where the code byte is the last one.
  have mid : ((c.withConstant v).pushOpcode .constant line).size = c.size + 1 := size_push _ _ _
  have midLevel : ((c.withConstant v).pushOpcode .constant line).IsLevel := level.push _ _
  have last : ((c.withConstant v).pushOpcode .constant line).Begins d :=
    (begins_push _ _ _).trans h
  obtain ⟨code, place⟩ := last.of_push level
  obtain ⟨operand, place'⟩ := h.of_push midLevel
  rw [mid] at operand place'
  exact ⟨code, operand, h.constant Array.getElem?_push_size, place, place'⟩

end Chunk

/-! ## Instructions in a chunk -/

/-- **From an offset on, a chunk holds a run of instructions and nothing else**, and from
an index on its pool holds their literals and nothing else. -/
inductive Encodes (c : Chunk) : Nat → Nat → List Source.Line → Prop where
  /-- Behind the last instruction both code and pool have ended. -/
  | done {offset pooled : Nat} (last : offset = c.size)
      (used : pooled = c.constants.size) : Encodes c offset pooled []
  /-- An instruction without operand is its code byte. -/
  | plain {offset pooled : Nat} {line : Source.Line} {rest : List Source.Line} {op : Opcode}
      (named : Opcode.ofMnemonic? line.mnemonic = some op) (other : op ≠ .constant)
      (bare : line.operands = []) (code : c.byte? offset = some op.byte)
      (place : c.line? offset = some line.number)
      (tail : Encodes c (offset + 1) pooled rest) :
      Encodes c offset pooled (line :: rest)
  /-- A load is two bytes, and the second is the index of its literal. -/
  | load {offset pooled : Nat} {line : Source.Line} {rest : List Source.Line}
      {word : String} {v : Value} {index : UInt8}
      (named : Opcode.ofMnemonic? line.mnemonic = some .constant)
      (single : line.operands = [word]) (literal : Value.ofLiteral? word = some v)
      (code : c.byte? offset = some Opcode.constant.byte)
      (operand : c.byte? (offset + 1) = some index) (numbered : index.toNat = pooled)
      (found : c.constants[pooled]? = some v)
      (place : c.line? offset = some line.number)
      (place' : c.line? (offset + 1) = some line.number)
      (tail : Encodes c (offset + 2) (pooled + 1) rest) :
      Encodes c offset pooled (line :: rest)

/-- A line stands for an instruction if it names it and has the operands it needs. -/
inductive Source.Line.StandsFor (line : Source.Line) : Opcode → Prop where
  /-- Most instructions need no operand. -/
  | plain {op : Opcode} (named : Opcode.ofMnemonic? line.mnemonic = some op)
      (other : op ≠ .constant) (bare : line.operands = []) : StandsFor line op
  /-- A load needs a literal. -/
  | load {word : String} {v : Value}
      (named : Opcode.ofMnemonic? line.mnemonic = some .constant)
      (single : line.operands = [word]) (literal : Value.ofLiteral? word = some v) :
      StandsFor line .constant

/-- **Instructions that are in order** on a stack of a given depth: each has the operands it
needs, and none reaches below the values that are there for certain. This is all that the
assembler asks for, but for the room in the pool. -/
inductive Proper : Nat → List Source.Line → Prop where
  /-- Nothing is asked for behind the last instruction. -/
  | done {depth : Nat} : Proper depth []
  /-- An instruction finds its inputs and leaves its outputs. -/
  | step {depth : Nat} {line : Source.Line} {rest : List Source.Line} {op : Opcode}
      (stands : line.StandsFor op) (enough : op.inputs ≤ depth)
      (tail : Proper (depth - op.inputs + op.outputs) rest) :
      Proper depth (line :: rest)

theorem Source.Line.StandsFor.named {line : Source.Line} {op : Opcode}
    (h : line.StandsFor op) : Opcode.ofMnemonic? line.mnemonic = some op := by
  cases h with
  | plain named other bare => exact named
  | load named single literal => exact named

namespace Assembly

/-! ## What the assembler takes -/

/-- **What the assembler makes of an instruction that it takes.** -/
inductive Takes (a : Assembly) (line : Source.Line) : Assembly → Prop where
  /-- An instruction without operand. -/
  | plain {op : Opcode} (named : Opcode.ofMnemonic? line.mnemonic = some op)
      (other : op ≠ .constant) (bare : line.operands = []) (enough : op.inputs ≤ a.depth) :
      Takes a line
        ⟨a.chunk.pushOpcode op line.number, a.depth - op.inputs + op.outputs⟩
  /-- A load. -/
  | load {word : String} {v : Value}
      (named : Opcode.ofMnemonic? line.mnemonic = some .constant)
      (single : line.operands = [word]) (literal : Value.ofLiteral? word = some v)
      (room : a.chunk.constants.size < Chunk.maxConstants) :
      Takes a line ⟨a.chunk.withLoad v line.number, a.depth + 1⟩

theorem encode_of_ne_constant {op : Opcode} (h : op ≠ .constant) (c : Chunk)
    (operands : List String) (line : Nat) :
    encode c op operands line = .ok (c.pushOpcode op line) := by
  cases op with
  | constant => exact absurd rfl h
  | _ => rfl

theorem operandCount_of_ne_constant {op : Opcode} (h : op ≠ .constant) :
    op.operandCount = 0 := by
  cases op with
  | constant => exact absurd rfl h
  | _ => rfl

/-- A load is encoded exactly if its literal is one and the pool has room. -/
theorem encode_constant_eq_ok_iff {c d : Chunk} {word : String} {words : List String}
    {line : Nat} :
    encode c .constant (word :: words) line = .ok d ↔
      ∃ v, Value.ofLiteral? word = some v ∧ c.constants.size < Chunk.maxConstants ∧
        c.withLoad v line = d := by
  unfold encode
  dsimp only
  cases hv : Value.ofLiteral? word with
  | none => simp
  | some v =>
    dsimp only
    cases hc : c.pushLoad? v line with
    | none =>
      have hfull : ¬ c.constants.size < Chunk.maxConstants := fun hlt =>
        absurd (Chunk.pushLoad?_eq_some_iff.2 ⟨hlt, rfl, rfl⟩) (by rw [hc]; simp)
      simp [hfull]
    | some p =>
      obtain ⟨index, e⟩ := p
      obtain ⟨hlt, -, rfl⟩ := Chunk.pushLoad?_eq_some_iff.1 hc
      simp [hlt]

/-- **The assembler takes what `Takes` describes and nothing else.** -/
theorem extend_eq_ok_iff {a b : Assembly} {line : Source.Line} :
    a.extend line = .ok b ↔ Takes a line b := by
  constructor
  · intro h
    unfold extend at h
    split at h
    · exact absurd h (by simp)
    rename_i op hop
    split at h
    · exact absurd h (by simp)
    rename_i hleast
    split at h
    · exact absurd h (by simp)
    rename_i hmost
    split at h
    · exact absurd h (by simp)
    rename_i hdepth
    split at h
    · exact absurd h (by simp)
    rename_i chunk hchunk
    -- The two checks on the number of operands leave just one number.
    have hcount : line.operands.length = op.operandCount :=
      Nat.le_antisymm (List.getElem?_eq_none_iff.1 hmost) (Nat.le_of_not_lt hleast)
    rw [← Except.ok.inj h]
    by_cases hc : op = .constant
    · subst hc
      obtain ⟨word, hword⟩ := List.length_eq_one_iff.1 hcount
      rw [hword] at hchunk
      obtain ⟨v, hv, hroom, rfl⟩ := encode_constant_eq_ok_iff.1 hchunk
      exact .load hop hword hv hroom
    · rw [encode_of_ne_constant hc] at hchunk
      rw [← Except.ok.inj hchunk]
      rw [operandCount_of_ne_constant hc] at hcount
      exact .plain hop hc (List.length_eq_zero_iff.1 hcount) (Nat.le_of_not_lt hdepth)
  · intro h
    unfold extend
    cases h with
    | plain named other bare enough =>
      rw [named]
      dsimp only
      rw [operandCount_of_ne_constant other, bare, encode_of_ne_constant other,
        if_neg (Nat.not_lt_zero _), if_neg (Nat.not_lt.2 enough)]
      rfl
    | @load word v named single literal room =>
      have hok : encode a.chunk .constant [word] line.number
          = .ok (a.chunk.withLoad v line.number) :=
        encode_constant_eq_ok_iff.2 ⟨v, literal, room, rfl⟩
      rw [named, single]
      dsimp only [Opcode.operandCount, Opcode.inputs, Opcode.outputs]
      rw [hok]
      rfl

/-- A run of instructions is taken one by one. -/
theorem extendAll_cons_eq_none_iff {a b : Assembly} {line : Source.Line}
    {rest : List Source.Line} :
    a.extendAll (line :: rest) = (b, none) ↔
      ∃ a', Takes a line a' ∧ a'.extendAll rest = (b, none) := by
  rw [extendAll]
  cases h : a.extend line with
  | error fault =>
    constructor
    · intro heq
      exact absurd (congrArg Prod.snd heq) (by simp)
    · rintro ⟨a', htakes, -⟩
      rw [extend_eq_ok_iff.2 htakes] at h
      cases h
  | ok a₁ =>
    constructor
    · intro heq
      exact ⟨a₁, extend_eq_ok_iff.1 h, heq⟩
    · rintro ⟨a', htakes, hrest⟩
      rw [extend_eq_ok_iff.2 htakes] at h
      cases h
      exact hrest

/-- Taking an instruction disturbs nothing that is there. -/
theorem Takes.begins {a b : Assembly} {line : Source.Line} (h : Takes a line b) :
    a.chunk.Begins b.chunk := by
  cases h with
  | plain => exact Chunk.begins_push _ _ _
  | load => exact Chunk.begins_withLoad _ _ _

theorem Takes.isLevel {a b : Assembly} {line : Source.Line} (h : Takes a line b)
    (level : a.chunk.IsLevel) : b.chunk.IsLevel := by
  cases h with
  | plain => exact level.push _ _
  | load => exact level.withLoad _ _

theorem begins_of_extendAll {a b : Assembly} {lines : List Source.Line}
    (h : a.extendAll lines = (b, none)) : a.chunk.Begins b.chunk := by
  induction lines generalizing a with
  | nil =>
    cases h
    exact .refl _
  | cons line rest ih =>
    obtain ⟨a', htakes, hrest⟩ := extendAll_cons_eq_none_iff.1 h
    exact htakes.begins.trans (ih hrest)

/-- **What was just taken is found at the end of the chunk.** The chunk `d` is any later
one, and the instructions that were taken since are in it. -/
theorem Takes.encodes {a b : Assembly} {line : Source.Line} {rest : List Source.Line}
    {d : Chunk} (h : Takes a line b) (level : a.chunk.IsLevel) (hd : b.chunk.Begins d)
    (tail : Encodes d b.chunk.size b.chunk.constants.size rest) :
    Encodes d a.chunk.size a.chunk.constants.size (line :: rest) := by
  cases h with
  | @plain op named other bare enough =>
    rw [Chunk.pushOpcode, Chunk.size_push] at tail
    obtain ⟨code, place⟩ := hd.of_push level
    exact .plain named other bare code place tail
  | @load word v named single literal room =>
    rw [Chunk.size_withLoad, Chunk.size_constants_withLoad] at tail
    obtain ⟨code, operand, found, place, place'⟩ := hd.of_withLoad level
    exact .load named single literal code operand (Nat.mod_eq_of_lt room) found place place' tail

/-- **Assembling lays the instructions out in order.** -/
theorem encodes_of_extendAll {a b : Assembly} {lines : List Source.Line}
    (level : a.chunk.IsLevel) (h : a.extendAll lines = (b, none)) :
    Encodes b.chunk a.chunk.size a.chunk.constants.size lines := by
  induction lines generalizing a with
  | nil =>
    cases h
    exact .done rfl rfl
  | cons line rest ih =>
    obtain ⟨a', htakes, hrest⟩ := extendAll_cons_eq_none_iff.1 h
    exact htakes.encodes level (begins_of_extendAll hrest)
      (ih (htakes.isLevel level) hrest)

/-- **Assembling checks every instruction.** -/
theorem proper_of_extendAll {a b : Assembly} {lines : List Source.Line}
    (h : a.extendAll lines = (b, none)) : Proper a.depth lines := by
  induction lines generalizing a with
  | nil => exact .done
  | cons line rest ih =>
    obtain ⟨a', htakes, hrest⟩ := extendAll_cons_eq_none_iff.1 h
    have htail := ih hrest
    cases htakes with
    | plain named other bare enough => exact .step (.plain named other bare) enough htail
    | load named single literal room =>
      exact .step (.load named single literal) (Nat.zero_le _) htail

end Assembly

/-! ## Whole sources -/

/-- A source is assembled to what the assembler holds once it has taken every
instruction. -/
theorem assemble_eq_ok_iff {source : String} {c : Chunk} :
    assemble source = .ok c ↔
      ∃ a, Assembly.extendAll {} (Source.lines source) = (a, none) ∧ a.chunk = c := by
  have hclear : Assembly.clear {} = {} := rfl
  unfold assemble Assembly.next
  rw [hclear]
  cases Assembly.extendAll {} (Source.lines source) with
  | mk a failure =>
    cases failure with
    | none => simp
    | some rejection => simp

/-- **An assembled chunk holds the instructions of its source**, from its first byte to its
last and from the first constant to the last. -/
theorem encodes_of_assemble {source : String} {c : Chunk} (h : assemble source = .ok c) :
    Encodes c 0 0 (Source.lines source) := by
  obtain ⟨a, ha, rfl⟩ := assemble_eq_ok_iff.1 h
  have level : (Assembly.chunk {}).IsLevel := rfl
  exact Assembly.encodes_of_extendAll level ha

/-- **The instructions of an assembled source are in order** on an empty stack. -/
theorem proper_of_assemble {source : String} {c : Chunk} (h : assemble source = .ok c) :
    Proper 0 (Source.lines source) := by
  obtain ⟨a, ha, -⟩ := assemble_eq_ok_iff.1 h
  exact Assembly.proper_of_extendAll ha

end StackMachine

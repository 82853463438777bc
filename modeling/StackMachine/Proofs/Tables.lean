import StackMachine.Proofs.Writes

/-!
# Every step goes by the tables

What is known of an instruction without running it is written down in tables: its size, how many
values it takes and leaves, and to which family it belongs. The instructions themselves are
performed elsewhere, and nothing in a table makes them obey it. That they do is said here, for
chunks of any bytes and stacks of any depth (`State.step_by_tables`).

At an offset a chunk either breaks the rules of its encoding, in one of four ways (`Chunk.Breaks`),
or holds an instruction (`Chunk.Holds`). In front of an instruction the values on the stack decide.
The instruction reacts to them as its name says (`Opcode.react`), the machine enacts the reaction
(`State.enacts_of_holds`), and which of the four reactions it is can be told from the tables: too
few values for the table of inputs leave it stuck (`Opcode.react_of_shallow`), values that clash
with its family are a fault (`Opcode.react_eq_fault_iff`), and one instruction alone finishes.

What the machine adds is an account of the room on the stack. Whatever an instruction does with its
operands, it comes to taking them off and pushing the result (`State.stack_of_step`), so that only
an instruction without inputs can ever find the stack full.
-/

namespace StackMachine

open Reaction

/-! ## What stands at an offset -/

namespace Chunk

/-- **A chunk breaks the rules of its encoding at an offset.** -/
inductive Breaks (c : Chunk) (offset : Nat) : Malformed → Prop where
  /-- There is no byte. -/
  | pastEnd (ended : c.byte? offset = none) : Breaks c offset (.pastEnd offset)
  /-- The byte is no instruction. -/
  | unknown {byte : UInt8} (code : c.byte? offset = some byte)
      (odd : Opcode.ofByte? byte = none) : Breaks c offset (.unknownOpcode byte offset)
  /-- There is a load and no byte behind it. -/
  | missing (code : c.byte? offset = some Opcode.constant.byte)
      (ended : c.byte? (offset + 1) = none) : Breaks c offset (.missingOperand (offset + 1))
  /-- There is a load, and the byte behind it is no index into the pool. -/
  | outside {index : UInt8} (code : c.byte? offset = some Opcode.constant.byte)
      (operand : c.byte? (offset + 1) = some index)
      (beyond : c.constants.size ≤ index.toNat) :
      Breaks c offset (.constantOutOfRange index (offset + 1))

/-- **A chunk holds an instruction at an offset**, together with the constant that a load names. -/
inductive Holds (c : Chunk) (offset : Nat) : Opcode → Option Value → Prop where
  /-- Most instructions are a code byte. -/
  | plain {op : Opcode} (other : op ≠ .constant) (code : c.byte? offset = some op.byte) :
      Holds c offset op none
  /-- A load is two bytes, and the second finds a constant. -/
  | load {index : UInt8} {v : Value} (code : c.byte? offset = some Opcode.constant.byte)
      (operand : c.byte? (offset + 1) = some index) (found : c.constant? index = some v) :
      Holds c offset .constant (some v)

variable {c : Chunk} {offset : Nat} {op : Opcode} {operand : Option Value}

theorem constant?_eq_none_iff {index : UInt8} :
    c.constant? index = none ↔ c.constants.size ≤ index.toNat :=
  Array.getElem?_eq_none_iff

theorem Holds.code (h : c.Holds offset op operand) : c.byte? offset = some op.byte := by
  cases h with
  | plain other code => exact code
  | load code operand found => exact code

/-- **There is nothing else at an offset.** -/
theorem breaks_or_holds (c : Chunk) (offset : Nat) :
    (∃ m, c.Breaks offset m) ∨ ∃ op operand, c.Holds offset op operand := by
  cases hbyte : c.byte? offset with
  | none => exact Or.inl ⟨_, .pastEnd hbyte⟩
  | some byte =>
    cases hop : Opcode.ofByte? byte with
    | none => exact Or.inl ⟨_, .unknown hbyte hop⟩
    | some op =>
      have code : c.byte? offset = some op.byte := by rw [hbyte, Opcode.eq_byte_of_ofByte? hop]
      by_cases other : op = .constant
      · subst other
        cases operand : c.byte? (offset + 1) with
        | none => exact Or.inl ⟨_, .missing code operand⟩
        | some index =>
          cases found : c.constant? index with
          | none => exact Or.inl ⟨_, .outside code operand (constant?_eq_none_iff.1 found)⟩
          | some v => exact Or.inr ⟨_, _, .load code operand found⟩
      · exact Or.inr ⟨_, _, .plain other code⟩

end Chunk

/-! ## What an instruction makes of the values -/

namespace Opcode

/-- **What an instruction makes of the values it finds**, given the constant that it names if it is
a load. -/
def react (op : Opcode) (operand : Option Value) (values : List Value) : Reaction :=
  match op with
  | constant => pushLiteral operand values
  | op => reaction op.mnemonic values

/-- **The values that an instruction cannot work with**, by its family. -/
inductive Clashes (op : Opcode) (operand : Option Value) (values : List Value) :
    TypeFault → Prop where
  /-- A load names a constant that is no number. -/
  | load {v : Value} (loads : op = .constant) (named : operand = some v)
      (odd : v.isNumber = false) : Clashes op operand values .operand
  /-- The instruction changes the number on top, and there is another kind of value. -/
  | top {v : Value} (family : op.isUnaryNumeric = true) (first : values[0]? = some v)
      (odd : v.isNumber = false) : Clashes op operand values .operand
  /-- The instruction combines or compares two numbers, and one of the two values is none. -/
  | pair {v : Value} (family : op.isArithmetic = true ∨ op.isOrdering = true)
      (near : v ∈ values.take 2) (odd : v.isNumber = false) :
      Clashes op operand values .operands

variable {op : Opcode} {operand : Option Value} {values : List Value}

theorem react_of_ne (other : op ≠ .constant) (operand : Option Value) (values : List Value) :
    op.react operand values = reaction op.mnemonic values := by
  cases op with
  | constant => exact absurd rfl other
  | _ => rfl

theorem outputs_of_ne (going : op ≠ .ret) : op.outputs = 1 := by
  cases op with
  | ret => exact absurd rfl going
  | _ => rfl

/-- With too few values, an instruction gets nowhere. -/
theorem react_of_shallow (operand : Option Value) (shallow : values.length < op.inputs) :
    op.react operand values = .stuck := by
  cases op with
  | constant | pushTrue | pushFalse | pushNil => exact absurd shallow (Nat.not_lt_zero _)
  | ret | negate | increment | decrement | not =>
    obtain rfl := List.length_eq_zero_iff.1 (Nat.lt_one_iff.1 shallow)
    rfl
  | _ =>
    rcases values with _ | ⟨v, _ | ⟨w, rest⟩⟩
    · rfl
    · cases v <;> rfl
    · exact absurd shallow (by simp [inputs])

/-! ### Families

The members of a family react alike, and who belongs to none of them never finds fault. -/

theorem react_of_isUnaryNumeric (family : op.isUnaryNumeric = true) :
    ∃ f, op.react = fun _ => changeNumber f := by
  cases op with
  | negate | increment | decrement => exact ⟨_, rfl⟩
  | _ => exact nomatch family

theorem react_of_isBinary (family : op.isArithmetic = true ∨ op.isOrdering = true) :
    op.inputs = 2 ∧ ∃ f, op.react = fun _ => joinNumbers f := by
  cases op with
  | add | subtract | multiply | divide | greaterEqual | greater | lessEqual | less =>
    exact ⟨rfl, _, rfl⟩
  | _ => exact absurd family (by decide)

theorem react_ne_fault (other : op ≠ .constant) (unary : op.isUnaryNumeric = false)
    (arithmetic : op.isArithmetic = false) (ordering : op.isOrdering = false)
    (f : TypeFault) : op.react operand values ≠ .fault f := by
  cases op with
  | constant => exact absurd rfl other
  | negate | increment | decrement => exact nomatch unary
  | add | subtract | multiply | divide => exact nomatch arithmetic
  | greaterEqual | greater | lessEqual | less => exact nomatch ordering
  | pushTrue | pushFalse | pushNil => exact fun h => nomatch h
  | ret | not =>
    cases values with
    | nil => exact fun h => nomatch h
    | cons v rest => exact fun h => nomatch h
  | and | or | xor | equal | notEqual =>
    rcases values with _ | ⟨v, _ | ⟨w, rest⟩⟩ <;> exact fun h => nomatch h

theorem pushLiteral_eq_fault_iff {f : TypeFault} :
    pushLiteral operand values = .fault f ↔
      .operand = f ∧ ∃ v, operand = some v ∧ v.isNumber = false := by
  cases operand with
  | none => simp [pushLiteral]
  | some v => cases v <;> simp [pushLiteral]

theorem changeNumber_eq_fault_iff {g : Binary64 → Binary64} {f : TypeFault} :
    changeNumber g values = .fault f ↔
      .operand = f ∧ ∃ v, values[0]? = some v ∧ v.isNumber = false := by
  cases values with
  | nil => simp [changeNumber]
  | cons v rest => cases v <;> simp [changeNumber]

theorem joinNumbers_eq_fault_iff {g : Binary64 → Binary64 → Value} {f : TypeFault} :
    joinNumbers g values = .fault f ↔
      .operands = f ∧ 2 ≤ values.length ∧ ∃ v ∈ values.take 2, v.isNumber = false := by
  rcases values with _ | ⟨right, _ | ⟨left, rest⟩⟩
  · simp [joinNumbers]
  · cases right <;> simp [joinNumbers]
  · cases right <;> cases left <;> simp [joinNumbers]

/-- **An instruction finds fault with the values that clash with its family.** -/
theorem react_eq_fault_iff (enough : op.inputs ≤ values.length) {f : TypeFault} :
    op.react operand values = .fault f ↔ op.Clashes operand values f := by
  constructor
  · intro hfault
    by_cases load : op = .constant
    · subst load
      obtain ⟨rfl, v, named, odd⟩ := pushLiteral_eq_fault_iff.1 hfault
      exact .load rfl named odd
    by_cases unary : op.isUnaryNumeric = true
    · obtain ⟨g, hreact⟩ := react_of_isUnaryNumeric unary
      rw [hreact] at hfault
      obtain ⟨rfl, v, first, odd⟩ := changeNumber_eq_fault_iff.1 hfault
      exact .top unary first odd
    by_cases binary : op.isArithmetic = true ∨ op.isOrdering = true
    · obtain ⟨-, g, hreact⟩ := react_of_isBinary binary
      rw [hreact] at hfault
      obtain ⟨rfl, -, v, near, odd⟩ := joinNumbers_eq_fault_iff.1 hfault
      exact .pair binary near odd
    · rw [not_or, Bool.not_eq_true, Bool.not_eq_true] at binary
      rw [Bool.not_eq_true] at unary
      exact absurd hfault (react_ne_fault load unary binary.1 binary.2 f)
  · intro clashes
    cases clashes with
    | load loads named odd =>
      subst loads
      exact pushLiteral_eq_fault_iff.2 ⟨rfl, _, named, odd⟩
    | top family first odd =>
      obtain ⟨g, hreact⟩ := react_of_isUnaryNumeric family
      rw [hreact]
      exact changeNumber_eq_fault_iff.2 ⟨rfl, _, first, odd⟩
    | pair family near odd =>
      obtain ⟨hinputs, g, hreact⟩ := react_of_isBinary family
      rw [hreact]
      exact joinNumbers_eq_fault_iff.2 ⟨rfl, hinputs ▸ enough, _, near, odd⟩

end Opcode

namespace Chunk.Holds

variable {c : Chunk} {offset : Nat} {op : Opcode} {operand : Option Value}

/-- **An instruction sees no more than the values it takes**, wherever it stands. -/
theorem react_cases (h : c.Holds offset op operand) {args : List Value}
    (hargs : args.length = op.inputs) :
    (op = .ret ∧ ∃ v, args = [v] ∧ ∀ below, op.react operand (args ++ below) = .finish v below) ∨
      (op ≠ .ret ∧ Settles fun below => op.react operand (args ++ below)) := by
  cases h with
  | plain other code =>
    have hreact := funext (Opcode.react_of_ne other none)
    rw [hreact]
    by_cases hret : op = .ret
    · subst hret
      obtain ⟨v, rfl⟩ := List.length_eq_one_iff.1 hargs
      exact Or.inl ⟨rfl, v, rfl, fun _ => rfl⟩
    · exact Or.inr ⟨hret, settles_reaction other hret hargs⟩
  | @load index v code operand found =>
    obtain rfl := List.length_eq_zero_iff.1 hargs
    exact Or.inr ⟨by simp, settles_pushLiteral v⟩

/-- **What an instruction makes of values that are enough for it**: it ends the run, or leaves its
outputs in place of its inputs, or finds fault. Values further below make no difference. -/
theorem react_of_enough (h : c.Holds offset op operand) {values : List Value}
    (enough : op.inputs ≤ values.length) :
    (op = .ret ∧ ∃ v rest, values = v :: rest ∧
        ∀ base, op.react operand (values ++ base) = .finish v (rest ++ base)) ∨
      op ≠ .ret ∧
        ((∃ v, ∀ base, op.react operand (values ++ base)
            = .go (v :: (values.drop op.inputs ++ base))) ∨
          ∃ f, ∀ base, op.react operand (values ++ base) = .fault f) := by
  have hargs : (values.take op.inputs).length = op.inputs := List.length_take_of_le enough
  have hsplit : ∀ base, values ++ base
      = values.take op.inputs ++ (values.drop op.inputs ++ base) := by
    intro base
    rw [← List.append_assoc, List.take_append_drop]
  rcases h.react_cases hargs with ⟨hret, v, hv, hfinish⟩ | ⟨going, ⟨v, hgo⟩ | ⟨f, hfault⟩⟩
  · refine Or.inl ⟨hret, v, values.drop op.inputs, ?_, fun base => ?_⟩
    · rw [← List.singleton_append, ← hv, List.take_append_drop]
    · exact (congrArg _ (hsplit base)).trans (hfinish _)
  · refine Or.inr ⟨going, Or.inl ⟨v, fun base => ?_⟩⟩
    exact (congrArg _ (hsplit base)).trans (hgo _)
  · refine Or.inr ⟨going, Or.inr ⟨f, fun base => ?_⟩⟩
    exact (congrArg _ (hsplit base)).trans (hfault _)

end Chunk.Holds

/-! ## The room on the stack -/

namespace OperandStack

/-- A stack has lost values and nothing else. -/
structure Lost (s t : OperandStack) : Prop where
  /-- There are no more values than before. -/
  depth : t.depth ≤ s.depth
  /-- There is room for as many. -/
  capacity : t.capacity = s.capacity
  /-- It has not been doubled. -/
  growths : t.growths = s.growths

theorem lost_refl (s : OperandStack) : s.Lost s := ⟨Nat.le_refl _, rfl, rfl⟩

theorem lost_drop (s : OperandStack) (count : Nat) : s.Lost (s.drop count) :=
  ⟨Nat.sub_le _ _, rfl, rfl⟩

theorem lost_clear (s : OperandStack) : s.Lost s.clear := ⟨Nat.zero_le _, rfl, rfl⟩

variable {s rest : OperandStack} {v : Value}

theorem eq_drop_of_pop (h : s.pop = .ok (v, rest)) : rest = s.drop 1 := by
  cases hvalues : s.values with
  | nil => exact nomatch (pop_of_values_eq_nil hvalues).symm.trans h
  | cons w below =>
    have hdrop := (pop_of_values_eq_cons hvalues).symm.trans h
    exact (Prod.mk.inj (Except.ok.inj hdrop)).2.symm

theorem drop_drop (s : OperandStack) (first second : Nat) :
    (s.drop first).drop second = s.drop (first + second) :=
  OperandStack.ext List.drop_drop rfl rfl

/-- **A value that is changed in place** might as well be taken off and pushed again: the push finds
the room that the value has left. -/
theorem set_zero_eq_push (h : s.peek 0 = .ok v) (room : s.depth ≤ s.capacity) (w : Value) :
    s.set 0 w = (s.drop 1).push w := by
  obtain ⟨below, hvalues⟩ : ∃ below, s.values = v :: below := by
    unfold peek at h
    cases hvalues : s.values with
    | nil => rw [hvalues] at h; exact nomatch h
    | cons first below =>
      rw [hvalues] at h
      cases h
      exact ⟨below, rfl⟩
  have hdepth : s.depth = below.length + 1 := by rw [s.depth_eq, hvalues, List.length_cons]
  have hroom : (s.drop 1).makeRoom = s.drop 1 := by
    rw [makeRoom, if_neg]
    show ¬s.depth - 1 = s.capacity
    omega
  refine OperandStack.ext ?_ ?_ ?_
  · show s.values.set 0 w = w :: s.values.drop 1
    rw [hvalues]
    rfl
  · rw [capacity_push, hroom]
    rfl
  · rw [growths_push, hroom]
    rfl

end OperandStack

/-! ## One step -/

namespace State

variable {c : Chunk} {s t : State} {op : Opcode} {operand : Option Value}

/-- Where the rules of the encoding are broken, a step gives up and leaves stack and sinks alone. -/
theorem step_of_breaks {offset : Nat} {m : Malformed} (h : c.Breaks offset m) :
    ∃ next, ∀ stack out err,
      step c ⟨offset, stack, out, err⟩ = .halt ⟨next, stack, out, err⟩ (.malformed m) := by
  cases h with
  | pastEnd ended =>
    refine ⟨offset, fun stack out err => ?_⟩
    rw [step, Chunk.fetch?, ended]
    rfl
  | unknown code odd =>
    refine ⟨offset + 1, fun stack out err => ?_⟩
    rw [step, Chunk.fetch?, code, Option.map_some]
    dsimp only
    rw [odd]
  | missing code ended =>
    refine ⟨offset + 1, fun stack out err => ?_⟩
    rw [step_of_byte code]
    show load c ⟨offset + 1, stack, out, err⟩ = _
    rw [load, ended]
  | outside code operand beyond =>
    refine ⟨offset + 1, fun stack out err => ?_⟩
    rw [step_of_byte code]
    show load c ⟨offset + 1, stack, out, err⟩ = _
    rw [load, operand]
    dsimp only
    rw [Chunk.constant?_eq_none_iff.2 beyond]

/-- **The machine enacts what an instruction makes of the values.** -/
theorem enacts_of_holds (h : c.Holds s.offset op operand) {r : Reaction}
    (hreact : op.react operand s.stack.values = r) :
    Enacts c { s with offset := s.offset + 1 } op.operandCount r (s.step c) := by
  subst hreact
  cases h with
  | plain other code =>
    rw [step_of_byte code, Assembly.operandCount_of_ne_constant other, Opcode.react_of_ne other]
    exact enacts_perform c { s with offset := s.offset + 1 } other
  | load code operand found =>
    rw [step_of_byte code]
    exact enacts_load c { s with offset := s.offset + 1 } operand found

theorem step_of_go (h : c.Holds s.offset op operand) {values : List Value}
    (hreact : op.react operand s.stack.values = .go values) :
    ∃ stack : OperandStack, stack.values = values ∧
      s.step c = .next ⟨s.offset + op.size, stack, s.out, s.err⟩ := by
  have hsize : s.offset + op.size = s.offset + 1 + op.operandCount := (Nat.add_assoc _ _ _).symm
  rw [hsize]
  match s.step c, enacts_of_holds h hreact with
  | _, .go stack hstack => exact ⟨stack, hstack, rfl⟩

theorem step_of_finish (h : c.Holds s.offset op operand) {v : Value} {values : List Value}
    (hreact : op.react operand s.stack.values = .finish v values) :
    ∃ stack : OperandStack, stack.values = values ∧
      s.step c = .halt ⟨s.offset + 1, stack, s.out.write (v.text ++ "\n"), s.err⟩
        (finishReason s.out v) := by
  match s.step c, enacts_of_holds h hreact with
  | _, .finish _ stack hstack => exact ⟨stack, hstack, rfl⟩

theorem step_of_fault (h : c.Holds s.offset op operand) {f : TypeFault}
    (hreact : op.react operand s.stack.values = .fault f) :
    s.step c = { s with offset := s.offset + 1 }.failType c f := by
  match s.step c, enacts_of_holds h hreact with
  | _, .fault _ => rfl

/-- An instruction that is stuck reaches below the bottom of the stack. -/
theorem step_of_stuck (h : c.Holds s.offset op operand)
    (hreact : op.react operand s.stack.values = .stuck) :
    ∃ t u, s.step c = .halt t (.underflow u) := by
  match s.step c, enacts_of_holds h hreact with
  | _, .stuck t u => exact ⟨t, u, rfl⟩

/-- **An instruction that ends the run** has not read on, and has at most taken values off. -/
theorem of_perform_eq_halt {e : Effect} {reason : Halt} (h : s.perform c e = .halt t reason) :
    t.offset = s.offset ∧ s.stack.Lost t.stack := by
  cases e with
  | finish =>
    simp only [perform, finish] at h
    split at h
    · cases h
      exact ⟨rfl, s.stack.lost_refl⟩
    · rename_i v rest hpop
      rw [OperandStack.eq_drop_of_pop hpop] at h
      split at h <;> cases h <;> exact ⟨rfl, s.stack.lost_drop 1⟩
  | load =>
    simp only [perform, load] at h
    split at h
    · cases h
      exact ⟨rfl, s.stack.lost_refl⟩
    · split at h
      · cases h
        exact ⟨rfl, s.stack.lost_refl⟩
      · cases h
      · cases h
        exact ⟨rfl, s.stack.lost_clear⟩
  | push v => cases h
  | onNumber f =>
    simp only [perform, onNumber] at h
    split at h
    · cases h
      exact ⟨rfl, s.stack.lost_refl⟩
    · cases h
    · cases h
      exact ⟨rfl, s.stack.lost_clear⟩
  | onValue f =>
    simp only [perform, onValue] at h
    split at h
    · cases h
      exact ⟨rfl, s.stack.lost_refl⟩
    · cases h
  | onValues f =>
    simp only [perform, onValues] at h
    split at h
    · cases h
      exact ⟨rfl, s.stack.lost_refl⟩
    · rename_i right rest hpop
      rw [OperandStack.eq_drop_of_pop hpop] at h
      split at h
      · cases h
        exact ⟨rfl, s.stack.lost_drop 1⟩
      · cases h
  | onNumbers f =>
    simp only [perform, onNumbers] at h
    split at h
    · cases h
      exact ⟨rfl, s.stack.lost_refl⟩
    · split at h
      · cases h
        exact ⟨rfl, s.stack.lost_refl⟩
      · split at h
        · cases h
        · cases h
          exact ⟨rfl, s.stack.lost_clear⟩

/-- **An instruction that goes on** has taken its inputs off the stack and pushed a value. -/
theorem stack_of_perform_eq_next {e : Effect} (h : s.perform c e = .next t)
    (room : s.stack.depth ≤ s.stack.capacity) :
    ∃ v, t.stack = (s.stack.drop e.inputs).push v := by
  cases e with
  | finish =>
    simp only [perform, finish] at h
    split at h
    · cases h
    · split at h <;> cases h
  | load =>
    simp only [perform, load] at h
    split at h
    · cases h
    · split at h <;> cases h
      exact ⟨_, rfl⟩
  | push v =>
    cases h
    exact ⟨v, rfl⟩
  | onNumber f =>
    simp only [perform, onNumber] at h
    split at h <;> cases h
    rename_i x hpeek
    exact ⟨_, OperandStack.set_zero_eq_push hpeek room _⟩
  | onValue f =>
    simp only [perform, onValue] at h
    split at h <;> cases h
    rename_i v rest hpop
    rw [OperandStack.eq_drop_of_pop hpop]
    exact ⟨_, rfl⟩
  | onValues f =>
    simp only [perform, onValues] at h
    split at h
    · cases h
    · rename_i right rest hpop
      split at h <;> cases h
      rename_i left rest' hpop'
      rw [OperandStack.eq_drop_of_pop hpop', OperandStack.eq_drop_of_pop hpop,
        OperandStack.drop_drop]
      exact ⟨_, rfl⟩
  | onNumbers f =>
    simp only [perform, onNumbers] at h
    split at h
    · cases h
    · split at h
      · cases h
      · split at h <;> cases h
        exact ⟨_, rfl⟩

theorem of_step_eq_halt (h : c.Holds s.offset op operand) {reason : Halt}
    (hstep : s.step c = .halt t reason) : t.offset = s.offset + 1 ∧ s.stack.Lost t.stack := by
  rw [step_of_byte h.code] at hstep
  exact of_perform_eq_halt hstep

theorem stack_of_step (h : c.Holds s.offset op operand) (hstep : s.step c = .next t)
    (room : s.stack.depth ≤ s.stack.capacity) :
    ∃ v, t.stack = (s.stack.drop op.inputs).push v := by
  rw [step_of_byte h.code] at hstep
  rw [← Opcode.inputs_effect]
  exact stack_of_perform_eq_next (s := { s with offset := s.offset + 1 }) hstep room

/-! ## All of it by the tables -/

/-- **What the tables foretell of a step** in front of an instruction. -/
inductive Foretold (c : Chunk) (s : State) (op : Opcode) (operand : Option Value) :
    Transition → Prop where
  /-- There are too few values, and the stack underflows. -/
  | underflow (shallow : s.stack.depth < op.inputs) (t : State) (u : Underflow) :
      Foretold c s op operand (.halt t (.underflow u))
  /-- The values are enough, but clash with the instruction. -/
  | failure {f : TypeFault} (enough : op.inputs ≤ s.stack.depth)
      (clashes : op.Clashes operand s.stack.values f) :
      Foretold c s op operand ({ s with offset := s.offset + 1 }.failType c f)
  /-- The value on top is handed back. -/
  | handBack {v : Value} {below : List Value} (returns : op = .ret)
      (enough : op.inputs ≤ s.stack.depth) (values : s.stack.values = v :: below)
      (stack : OperandStack) (left : stack.values = below) :
      Foretold c s op operand
        (.halt ⟨s.offset + 1, stack, s.out.write (v.text ++ "\n"), s.err⟩ (finishReason s.out v))
  /-- The run goes on behind the instruction, with a value in place of those it takes. -/
  | go (going : op ≠ .ret) (enough : op.inputs ≤ s.stack.depth)
      (agree : ∀ f, ¬op.Clashes operand s.stack.values f) (v : Value) (stack : OperandStack)
      (left : stack.values = v :: s.stack.values.drop op.inputs)
      (reacts : op.react operand s.stack.values = .go stack.values) :
      Foretold c s op operand (.next ⟨s.offset + op.size, stack, s.out, s.err⟩)

/-- **Every step in front of an instruction is foretold.** -/
theorem foretold_step (h : c.Holds s.offset op operand) : Foretold c s op operand (s.step c) := by
  rcases Nat.lt_or_ge s.stack.depth op.inputs with shallow | enough
  · have hreact := Opcode.react_of_shallow operand (s.stack.depth_eq ▸ shallow)
    obtain ⟨t, u, hstep⟩ := step_of_stuck h hreact
    rw [hstep]
    exact .underflow shallow t u
  have hlength : op.inputs ≤ s.stack.values.length := s.stack.depth_eq ▸ enough
  rcases h.react_of_enough hlength with
    ⟨returns, v, below, values, hfinish⟩ | ⟨going, ⟨v, hgo⟩ | ⟨f, hfault⟩⟩
  · have hreact : op.react operand s.stack.values = .finish v below := by simpa using hfinish []
    obtain ⟨stack, left, hstep⟩ := step_of_finish h hreact
    rw [hstep]
    exact .handBack returns enough values stack left
  · have hreact : op.react operand s.stack.values
        = .go (v :: s.stack.values.drop op.inputs) := by simpa using hgo []
    obtain ⟨stack, left, hstep⟩ := step_of_go h hreact
    rw [hstep]
    refine .go going enough (fun f clashes => ?_) v stack left (left ▸ hreact)
    exact nomatch hreact.symm.trans ((Opcode.react_eq_fault_iff hlength).2 clashes)
  · have hreact : op.react operand s.stack.values = .fault f := by simpa using hfault []
    rw [step_of_fault h hreact]
    exact .failure enough ((Opcode.react_eq_fault_iff hlength).1 hreact)

/-- A value that is handed back arrives or does not fit, and nothing else can come of it. -/
theorem finishReason_ne {out : Sink} {v : Value} {reason : Halt}
    (other : reason ≠ .returned v) (taken : reason ≠ .outputFailed .full) :
    finishReason out v ≠ reason := by
  by_cases hfits : out.fits (v.text ++ "\n") = true
  · rw [finishReason_of_fits hfits]
    exact other.symm
  · rw [finishReason_of_not_fits hfits]
    exact taken.symm

/-- **The stack underflows exactly if it holds fewer values than the instruction takes.** -/
theorem step_eq_underflow_iff (h : c.Holds s.offset op operand) :
    (∃ t u, s.step c = .halt t (.underflow u)) ↔ s.stack.depth < op.inputs := by
  match s.step c, foretold_step h with
  | _, .underflow shallow t u => exact ⟨fun _ => shallow, fun _ => ⟨t, u, rfl⟩⟩
  | _, .failure enough clashes =>
    refine ⟨?_, fun shallow => absurd shallow (Nat.not_lt.2 enough)⟩
    rintro ⟨t, u, hu⟩
    exact nomatch hu
  | _, .handBack _ enough _ _ _ =>
    refine ⟨?_, fun shallow => absurd shallow (Nat.not_lt.2 enough)⟩
    rintro ⟨t, u, hu⟩
    exact absurd (Transition.halt.inj hu).2 (finishReason_ne (by simp) (by simp))
  | _, .go _ enough _ _ _ _ _ =>
    refine ⟨?_, fun shallow => absurd shallow (Nat.not_lt.2 enough)⟩
    rintro ⟨t, u, hu⟩
    exact nomatch hu

theorem step_ne_malformed (h : c.Holds s.offset op operand) {m : Malformed} :
    s.step c ≠ .halt t (.malformed m) := by
  match s.step c, foretold_step h with
  | _, .underflow .. => exact fun hm => nomatch hm
  | _, .failure .. => exact fun hm => nomatch hm
  | _, .handBack .. =>
    intro hm
    exact absurd (Transition.halt.inj hm).2 (finishReason_ne (by simp) (by simp))
  | _, .go .. => exact fun hm => nomatch hm

/-- A failure over operands is put down to the line of the code byte. -/
theorem step_of_clashes (h : c.Holds s.offset op operand) (enough : op.inputs ≤ s.stack.depth)
    {f : TypeFault} (clashes : op.Clashes operand s.stack.values f) {e : RunError}
    (he : e = ⟨f.message, (c.line? s.offset).getD 0⟩) :
    s.step c = .halt ⟨s.offset + 1, s.stack.clear, s.out, s.err.write (e.text ++ "\n")⟩
      (.typeError e) := by
  have hlength : op.inputs ≤ s.stack.values.length := s.stack.depth_eq ▸ enough
  rw [step_of_fault h ((Opcode.react_eq_fault_iff hlength).2 clashes), he]
  rfl

/-- **A step fails over its operands exactly if they clash with the instruction.** -/
theorem step_eq_typeError_iff (h : c.Holds s.offset op operand)
    (enough : op.inputs ≤ s.stack.depth) :
    (∃ t e, s.step c = .halt t (.typeError e)) ↔ ∃ f, op.Clashes operand s.stack.values f := by
  refine ⟨?_, fun ⟨f, clashes⟩ => ⟨_, _, step_of_clashes h enough clashes rfl⟩⟩
  rintro ⟨t, e, hstep⟩
  have foretold := foretold_step h
  rw [hstep] at foretold
  generalize hreason : Halt.typeError e = reason at foretold
  cases foretold with
  | underflow => exact nomatch hreason
  | failure enough clashes => exact ⟨_, clashes⟩
  | handBack => exact absurd hreason.symm (finishReason_ne (by simp) (by simp))

/-- **A step goes by the tables** in front of an instruction. -/
structure GoesBy (c : Chunk) (s : State) (op : Opcode) (operand : Option Value) : Prop where
  /-- The stack underflows if it holds fewer values than the instruction takes, and only then. -/
  underflows : (∃ t u, s.step c = .halt t (.underflow u)) ↔ s.stack.depth < op.inputs
  /-- If there are enough, the step fails over their kinds exactly if they clash with the family of
  the instruction. -/
  fails : op.inputs ≤ s.stack.depth →
    ((∃ t e, s.step c = .halt t (.typeError e)) ↔ ∃ f, op.Clashes operand s.stack.values f)
  /-- The failure is put down to the line of the code byte, and to line zero if the line table is
  too short. Only the code byte has been read. The stack is empty, and has kept its room. -/
  failure : op.inputs ≤ s.stack.depth → ∀ f, op.Clashes operand s.stack.values f →
    ∀ e : RunError, e = ⟨f.message, (c.line? s.offset).getD 0⟩ →
    s.step c = .halt ⟨s.offset + 1, s.stack.clear, s.out, s.err.write (e.text ++ "\n")⟩
      (.typeError e)
  /-- Otherwise the instruction that ends a run takes the value on top off and hands it back. -/
  returns : op.inputs ≤ s.stack.depth → op = .ret →
    ∃ v below stack, s.stack.values = v :: below ∧ stack.values = below ∧
      s.step c = .halt ⟨s.offset + 1, stack, s.out.gain (v.text ++ "\n"), s.err⟩ (.returned v)
  /-- Every other instruction leads to the one behind it. In place of the values it takes it leaves
  as many as it is said to leave, which are those that its name asks for. The values below them and
  both sinks are untouched, and the stack grows only if it is full and the instruction takes
  nothing. -/
  goes : op.inputs ≤ s.stack.depth → (∀ f, ¬op.Clashes operand s.stack.values f) → op ≠ .ret →
    ∃ stack produced, s.step c = .next ⟨s.offset + op.size, stack, s.out, s.err⟩ ∧
      produced.length = op.outputs ∧
      stack.values = produced ++ s.stack.values.drop op.inputs ∧
      op.react operand s.stack.values = .go stack.values ∧
      (s.stack.depth ≤ s.stack.capacity → ∃ v, stack = (s.stack.drop op.inputs).push v)

theorem goesBy_of_holds (h : c.Holds s.offset op operand) (free : s.out.limit = none) :
    GoesBy c s op operand where
  underflows := step_eq_underflow_iff h
  fails := step_eq_typeError_iff h
  failure enough _ clashes _ he := step_of_clashes h enough clashes he
  returns enough hret := by
    have hlength : op.inputs ≤ s.stack.values.length := s.stack.depth_eq ▸ enough
    rcases h.react_of_enough hlength with ⟨-, v, below, values, hfinish⟩ | ⟨going, -⟩
    · obtain ⟨stack, left, hstep⟩ := step_of_finish h (by simpa using hfinish [])
      rw [finishReason_of_fits (Sink.fits_of_limit_eq_none free _),
        Sink.write_of_limit_eq_none free] at hstep
      exact ⟨v, below, stack, values, left, hstep⟩
    · exact absurd hret going
  goes enough agree going := by
    have foretold := foretold_step h
    generalize hstep : s.step c = transition at foretold
    cases foretold with
    | underflow shallow => exact absurd shallow (Nat.not_lt.2 enough)
    | failure _ clashes => exact absurd clashes (agree _)
    | handBack returns => exact absurd returns going
    | go _ _ _ v stack left reacts =>
      exact ⟨stack, [v], rfl, (Opcode.outputs_of_ne going).symm, left, reacts,
        stack_of_step h hstep⟩

theorem of_step_eq_malformed {m : Malformed} (hstep : s.step c = .halt t (.malformed m)) :
    c.Breaks s.offset m ∧ t.stack = s.stack ∧ t.out = s.out ∧ t.err = s.err := by
  rcases c.breaks_or_holds s.offset with ⟨m', hbreaks⟩ | ⟨op, operand, holds⟩
  · obtain ⟨next, hnext⟩ := step_of_breaks hbreaks
    obtain ⟨rfl, hm⟩ := Transition.halt.inj ((hnext s.stack s.out s.err).symm.trans hstep)
    cases hm
    exact ⟨hbreaks, rfl, rfl, rfl⟩
  · exact absurd hstep (step_ne_malformed holds)

/-- **Every step goes by the tables**, on whatever chunk, offset and stack. It finds the chunk
malformed exactly if there is no byte, the byte is no instruction, or it is a load without an
operand byte or with one that is no index into the pool; the stack and the sinks are as they were.
Otherwise there is an instruction, and what it needs, what it fails over, where it leads and what it
leaves are as the tables have it. -/
theorem step_by_tables (c : Chunk) {s : State} (free : s.out.limit = none) :
    ((∃ t m, s.step c = .halt t (.malformed m)) ↔ ∃ m, c.Breaks s.offset m) ∧
      (∀ t m, s.step c = .halt t (.malformed m) →
        c.Breaks s.offset m ∧ t.stack = s.stack ∧ t.out = s.out ∧ t.err = s.err) ∧
      ((∃ m, c.Breaks s.offset m) ∨ ∃ op operand, c.Holds s.offset op operand) ∧
      ∀ op operand, c.Holds s.offset op operand → s.GoesBy c op operand := by
  refine ⟨⟨fun ⟨t, m, hstep⟩ => ⟨m, (of_step_eq_malformed hstep).1⟩, ?_⟩,
    fun t m => of_step_eq_malformed, c.breaks_or_holds s.offset,
    fun op operand holds => goesBy_of_holds holds free⟩
  rintro ⟨m, hbreaks⟩
  obtain ⟨next, hnext⟩ := step_of_breaks hbreaks
  exact ⟨_, m, hnext s.stack s.out s.err⟩

/-- A sum of a truth value and a number, which the line table does not reach: the failure is put
down to line zero, and the stack keeps the room that it has gained. -/
theorem step_by_tables_unlisted_sum :
    ∃ (c : Chunk) (s : State), c = ⟨#[2, 18], #[], #[7]⟩ ∧ s.offset = 1 ∧ s.out.limit = none ∧
      s.stack.contents = [.bool true, .number .one] ∧ s.stack.capacity = 2 ∧
      ∃ t, s.step c = .halt t (.typeError ⟨"Operands must be numbers.", 0⟩) ∧
        t.offset = 2 ∧ t.stack.contents = [] ∧ t.stack.capacity = 2 := by
  obtain ⟨-, -, -, hgoes⟩ := step_by_tables ⟨#[2, 18], #[], #[7]⟩
    (s := ⟨1, ((OperandStack.ofCapacity 1).push (.bool true)).push (.number .one), {}, {}⟩) rfl
  have goesBy := hgoes .add none (.plain (by decide) rfl)
  have hstep := goesBy.failure (Nat.le_refl 2) .operands
    (.pair (Or.inl rfl) (List.mem_cons_of_mem _ List.mem_cons_self) rfl) _ rfl
  exact ⟨_, _, rfl, rfl, rfl, rfl, rfl, _, hstep, rfl, rfl, rfl⟩

end State

end StackMachine

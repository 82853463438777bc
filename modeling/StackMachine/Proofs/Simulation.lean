import StackMachine.Machine.Basic
import StackMachine.Proofs.Evaluation

/-!
# The machine follows the evaluation

A machine in front of an encoded instruction does to its stack what the instruction does to
a list of values. `State.Enacts` says what this comes to for each kind of reaction, and
`State.step_of_encodes` that every step of the machine obeys it. The machine adds what the
evaluation knows nothing of: the offset moves behind the instruction, a value that is handed
back is written to the output, and a fault is reported with the line of the code byte.

A whole run then follows the evaluation of the lines that are left
(`State.run_of_encodes`), by induction on these lines and not on the offset. That the chunk
ends with the last instruction is what makes a run past its end the same thing as an
evaluation without lines.
-/

namespace StackMachine

open Reaction

namespace OperandStack

variable {s : OperandStack} {v w : Value} {rest : List Value}

theorem peek_zero (h : s.values = v :: rest) : s.peek 0 = .ok v := by
  unfold peek
  rw [h]
  rfl

theorem peek_one (h : s.values = w :: v :: rest) : s.peek 1 = .ok v := by
  unfold peek
  rw [h]
  rfl

theorem peek_of_length_le {distance : Nat} (h : s.values.length ≤ distance) :
    s.peek distance = .error (s.missing distance) := by
  unfold peek
  rw [List.getElem?_eq_none h]

end OperandStack

namespace State

/-- Why a run is over that hands back a value: it has done so, or could not write it. -/
def finishReason (out : Sink) (v : Value) : Halt :=
  match out.writeError? (v.text ++ "\n") with
  | some e => .outputFailed e
  | none => .returned v

/-- **What a reaction looks like in the machine**, with the code byte already passed and
`skip` operand bytes still ahead. -/
inductive Enacts (c : Chunk) (t : State) (skip : Nat) : Reaction → Transition → Prop where
  /-- The values are on the stack, and the operand bytes are passed. -/
  | go {values : List Value} (stack : OperandStack) (h : stack.values = values) :
      Enacts c t skip (.go values)
        (.next { t with offset := t.offset + skip, stack := stack })
  /-- The value is gone from the stack, and written as far as there is room. -/
  | finish {values : List Value} (v : Value) (stack : OperandStack)
      (h : stack.values = values) :
      Enacts c t skip (.finish v values)
        (.halt { t with stack := stack, out := t.out.write (v.text ++ "\n") }
          (finishReason t.out v))
  /-- The fault is reported. -/
  | fault (e : TypeFault) : Enacts c t skip (.fault e) (t.failType c e)
  /-- The machine gives up. -/
  | stuck (u : State) (e : Underflow) : Enacts c t skip .stuck (.halt u (.underflow e))

section Effects

variable (c : Chunk) (t : State)

theorem enacts_finish : Enacts c t 0 (handBack t.stack.values) t.finish := by
  cases h : t.stack.values with
  | nil =>
    rw [finish, OperandStack.pop_of_values_eq_nil h]
    exact .stuck t _
  | cons v rest =>
    have hrest : (t.stack.drop 1).values = rest := by
      show t.stack.values.drop 1 = rest
      rw [h, List.drop_one, List.tail_cons]
    have hfinish : t.finish
        = .halt { t with stack := t.stack.drop 1, out := t.out.write (v.text ++ "\n") }
          (finishReason t.out v) := by
      rw [finish, OperandStack.pop_of_values_eq_cons h, finishReason]
      dsimp only
      cases t.out.writeError? (v.text ++ "\n") <;> rfl
    rw [hfinish]
    exact .finish v _ hrest

theorem enacts_onNumber (f : Binary64 → Binary64) :
    Enacts c t 0 (changeNumber f t.stack.values) (t.onNumber c f) := by
  cases h : t.stack.values with
  | nil =>
    rw [onNumber, OperandStack.peek_of_length_le (by rw [h]; exact Nat.le_refl _)]
    exact .stuck t _
  | cons v rest =>
    rw [onNumber, OperandStack.peek_zero h]
    cases v with
    | number x =>
      refine .go (t.stack.set 0 (.number (f x))) ?_
      show t.stack.values.set 0 (.number (f x)) = .number (f x) :: rest
      rw [h, List.set_cons_zero]
    | nil => exact .fault .operand
    | bool b => exact .fault .operand

theorem enacts_onValue (f : Value → Value) :
    Enacts c t 0 (changeValue f t.stack.values) (t.onValue f) := by
  cases h : t.stack.values with
  | nil =>
    rw [onValue, OperandStack.pop_of_values_eq_nil h]
    exact .stuck t _
  | cons v rest =>
    rw [onValue, OperandStack.pop_of_values_eq_cons h]
    refine .go ((t.stack.drop 1).push (f v)) ?_
    show f v :: t.stack.values.drop 1 = f v :: rest
    rw [h, List.drop_one, List.tail_cons]

theorem enacts_onValues (f : Value → Value → Value) :
    Enacts c t 0 (joinValues f t.stack.values) (t.onValues f) := by
  cases h : t.stack.values with
  | nil =>
    rw [onValues, OperandStack.pop_of_values_eq_nil h]
    exact .stuck t _
  | cons right below =>
    have hbelow : (t.stack.drop 1).values = below := by
      show t.stack.values.drop 1 = below
      rw [h, List.drop_one, List.tail_cons]
    rw [onValues, OperandStack.pop_of_values_eq_cons h]
    dsimp only
    cases below with
    | nil =>
      rw [OperandStack.pop_of_values_eq_nil hbelow]
      exact .stuck _ _
    | cons left rest =>
      rw [OperandStack.pop_of_values_eq_cons hbelow]
      refine .go (((t.stack.drop 1).drop 1).push (f left right)) ?_
      show f left right :: (t.stack.drop 1).values.drop 1 = f left right :: rest
      rw [hbelow, List.drop_one, List.tail_cons]

theorem enacts_onNumbers (f : Binary64 → Binary64 → Value) :
    Enacts c t 0 (joinNumbers f t.stack.values) (t.onNumbers c f) := by
  rcases h : t.stack.values with _ | ⟨right, _ | ⟨left, rest⟩⟩
  · rw [onNumbers, OperandStack.peek_of_length_le (by rw [h]; exact Nat.zero_le _)]
    exact .stuck t _
  · rw [onNumbers, OperandStack.peek_of_length_le (by rw [h]; exact Nat.le_refl _)]
    cases right <;> exact .stuck t _
  · rw [onNumbers, OperandStack.peek_one h, OperandStack.peek_zero h]
    cases left with
    | number x =>
      cases right with
      | number y =>
        refine .go ((t.stack.drop 2).push (f x y)) ?_
        show f x y :: t.stack.values.drop 2 = f x y :: rest
        rw [h]
        rfl
      | nil => exact .fault .operands
      | bool b => exact .fault .operands
    | nil => cases right <;> exact .fault .operands
    | bool b => cases right <;> exact .fault .operands

theorem enacts_push (v : Value) :
    Enacts c t 0 (.go (v :: t.stack.values)) (.next (t.push v)) :=
  .go (t.stack.push v) rfl

end Effects

/-! ### What is written down twice -/

theorem not_isFalsey (v : Value) : (!v.isFalsey) = counts v := by
  match v with
  | .nil | .bool false | .bool true | .number _ => rfl

theorem isFalsey_eq (v : Value) : v.isFalsey = !counts v := by
  rw [← not_isFalsey, Bool.not_not]

theorem logical_eq (f : Bool → Bool → Bool) :
    Value.logical f = fun left right => .bool (f (counts left) (counts right)) := by
  funext left right
  rw [Value.logical, not_isFalsey, not_isFalsey]

/-- **The machine's equality is the one told by cases.** -/
theorem equals_eq_same (v w : Value) : v.equals w = same v w := by
  cases v <;> cases w <;> rfl

/-- What is greater is compared by its place on the other side. -/
theorem less_eq_related (x y : Binary64) : y.less x = related (fun a b => a > b) x y := by
  rw [Binary64.less, related, Bool.and_comm (!y.isNaN)]

theorem lessEqual_eq_related (x y : Binary64) :
    y.lessEqual x = related (fun a b => a ≥ b) x y := by
  rw [Binary64.lessEqual, related, Bool.and_comm (!y.isNaN)]

section Effects

variable (c : Chunk) (t : State)

/-- **Every instruction without operand does in the machine what its name says.** Here the
two tables meet: the one that sorts instructions by effect, and the one of names. -/
theorem enacts_perform {op : Opcode} (other : op ≠ .constant) :
    Enacts c t 0 (reaction op.mnemonic t.stack.values) (t.perform c op.effect) := by
  cases op with
  | constant => exact absurd rfl other
  | ret => exact enacts_finish c t
  | pushTrue | pushFalse | pushNil => exact enacts_push c t _
  | negate | increment | decrement => exact enacts_onNumber c t _
  | not =>
    simp only [Opcode.effect, isFalsey_eq]
    exact enacts_onValue c t _
  | and | or | xor =>
    rw [Opcode.effect, logical_eq]
    exact enacts_onValues c t _
  | equal | notEqual =>
    simp only [Opcode.effect, equals_eq_same]
    exact enacts_onValues c t _
  | greaterEqual | greater =>
    simp only [Opcode.effect, less_eq_related, lessEqual_eq_related]
    exact enacts_onNumbers c t _
  | lessEqual | less | add | subtract | multiply | divide => exact enacts_onNumbers c t _

/-- A load does what its literal says, if the byte ahead finds it in the pool. -/
theorem enacts_load {index : UInt8} {v : Value} (operand : c.byte? t.offset = some index)
    (found : c.constant? index = some v) :
    Enacts c t 1 (pushLiteral (some v) t.stack.values) (t.perform c .load) := by
  rw [perform, load, operand]
  dsimp only
  rw [found]
  cases v with
  | number x => exact .go (t.stack.push (.number x)) rfl
  | nil => exact .fault .operand
  | bool b => exact .fault .operand

end Effects

/-! ## One step -/

theorem step_of_byte {c : Chunk} {s : State} {op : Opcode}
    (h : c.byte? s.offset = some op.byte) :
    s.step c = { s with offset := s.offset + 1 }.perform c op.effect := by
  have hfetch : c.fetch? s.offset = some (op.byte, s.offset + 1) :=
    Chunk.fetch?_eq_some_iff.2 ⟨h, rfl⟩
  rw [step, hfetch]
  dsimp only
  rw [Opcode.ofByte?_byte]

/-- **In front of an encoded instruction, a step does what the instruction says**, and leads
to the instructions behind it. -/
theorem step_of_encodes {c : Chunk} {s : State} {pooled : Nat} {line : Source.Line}
    {rest : List Source.Line} (h : Encodes c s.offset pooled (line :: rest)) :
    ∃ skip pooled', Encodes c (s.offset + 1 + skip) pooled' rest ∧
      Enacts c { s with offset := s.offset + 1 } skip (line.react s.stack.values)
        (s.step c) := by
  cases h with
  | plain named other bare code place tail =>
    refine ⟨0, pooled, tail, ?_⟩
    rw [Source.Line.react_of_plain named other bare, step_of_byte code]
    exact enacts_perform c { s with offset := s.offset + 1 } other
  | @load _ _ _ _ word v index named single literal code operand numbered found place place'
      tail =>
    refine ⟨1, pooled + 1, tail, ?_⟩
    have hconstant : c.constant? index = some v :=
      (Chunk.constant?_of_toNat numbered).trans found
    rw [Source.Line.react_of_load named single literal, step_of_byte code]
    exact enacts_load c { s with offset := s.offset + 1 } operand hconstant

theorem step_of_done {c : Chunk} {s : State} {pooled : Nat}
    (h : Encodes c s.offset pooled []) :
    s.offset = c.size ∧ s.step c = .halt s (.malformed (.pastEnd c.size)) := by
  have hoffset : s.offset = c.size := by
    cases h with
    | done last used => exact last
  have hfetch : c.fetch? s.offset = none := by
    rw [Chunk.fetch?, Chunk.byte?, hoffset, Chunk.size, Array.getElem?_size]
    rfl
  refine ⟨hoffset, ?_⟩
  rw [step, hfetch]
  dsimp only
  rw [hoffset]

end State

theorem Encodes.place {c : Chunk} {offset pooled : Nat} {line : Source.Line}
    {rest : List Source.Line} (h : Encodes c offset pooled (line :: rest)) :
    c.line? offset = some line.number := by
  cases h with
  | plain named other bare code place tail => exact place
  | load named single literal code operand numbered found place place' tail => exact place

/-- A fault is reported with the line of the code byte that was read last. -/
theorem State.failType_of_line? {c : Chunk} {s : State} {number : Nat}
    (place : c.line? s.offset = some number) (e : TypeFault) :
    { s with offset := s.offset + 1 }.failType c e
      = .halt
          { s with
            offset := s.offset + 1
            stack := s.stack.clear
            err := s.err.write (RunError.text ⟨e.message, number⟩ ++ "\n") }
          (.typeError ⟨e.message, number⟩) := by
  have hline : c.lineBefore (s.offset + 1) = number := by
    rw [Chunk.lineBefore, place, Option.getD_some]
  unfold failType report
  dsimp only
  rw [hline]

/-! ## Whole runs -/

namespace Sink

/-- The sink once a text has arrived whole. -/
def gain (s : Sink) (text : String) : Sink :=
  { s with written := s.written ++ text.toUTF8 }

theorem write_of_limit_eq_none {s : Sink} (h : s.limit = none) (text : String) :
    s.write text = s.gain text := by
  have hcut : s.cut text = text.toUTF8 := by rw [cut, h]
  rw [write, hcut, gain]

@[simp] theorem gain_empty (s : Sink) : s.gain "" = s := by
  show { s with written := s.written ++ ByteArray.empty } = s
  rw [ByteArray.append_empty]

theorem gain_gain (s : Sink) (first second : String) :
    (s.gain first).gain second = s.gain (first ++ second) := by
  show { s with written := s.written ++ first.toUTF8 ++ second.toUTF8 }
    = { s with written := s.written ++ (first ++ second).toUTF8 }
  rw [ByteArray.append_assoc]
  rfl

end Sink

namespace Verdict

/-- What an evaluation with this verdict prints. -/
def printed : Verdict → String
  | returned .nil => "nil\n"
  | returned (.bool true) => "true\n"
  | returned (.bool false) => "false\n"
  | returned (.number x) => Value.numberText x ++ "\n"
  | _ => ""

/-- What it complains of. -/
def complaint : Verdict → String
  | failed e => e.message ++ "\n[line " ++ Decimal.text e.line ++ "] in script" ++ "\n"
  | _ => ""

/-- The message of a machine that has no more instructions on a chunk of the given size. -/
def exhaustion (size : Nat) : String :=
  "instruction pointer ran past the end of the chunk at offset " ++ Decimal.text size

/-- The outcome of a machine that comes to the same verdict on a chunk of the given size.
There is none for an evaluation that got stuck. -/
def outcome? (size : Nat) : Verdict → Option Outcome
  | returned v => some (.value v)
  | failed e => some (.failure (.typeError e))
  | exhausted => some (.failure (.malformed (exhaustion size)))
  | stuck => none

theorem printed_returned (v : Value) : (returned v).printed = v.text ++ "\n" := by
  match v with
  | .nil | .bool true | .bool false | .number _ => rfl

theorem outcome?_eq_exhaustion_iff {size : Nat} {r : Verdict} :
    r.outcome? size = some (.failure (.malformed (exhaustion size))) ↔ r = .exhausted := by
  cases r <;> simp [outcome?]

end Verdict

namespace State

/-- **A run has followed an evaluation** from the state `s` to its halt in the state `t`. -/
structure Follows (c : Chunk) (s : State) (r : Evaluation) (t : State) (reason : Halt) :
    Prop where
  /-- It ended in the same way. -/
  outcome : r.verdict.outcome? c.size = some reason.outcome
  /-- The same values are left. -/
  values : t.stack.values = r.values
  /-- The same text was printed. -/
  out : t.out = s.out.gain r.verdict.printed
  /-- The same complaint was made. -/
  err : t.err = s.err.gain r.verdict.complaint

theorem turn_false (c : Chunk) (s : State) : s.turn false c = s.step c := rfl

/-- **A run follows the evaluation of the instructions ahead**, unless it is traced or a sink
is full. -/
theorem run_of_encodes {c : Chunk} {s : State} {pooled : Nat} {lines : List Source.Line}
    (laid : Encodes c s.offset pooled lines)
    (settled : (evaluate lines s.stack.values).verdict ≠ .stuck)
    (hout : s.out.limit = none) (herr : s.err.limit = none) :
    Follows c s (evaluate lines s.stack.values) (s.run false c).1 (s.run false c).2 := by
  induction lines generalizing s pooled with
  | nil =>
    rw [run_of_halt ((turn_false c s).trans (step_of_done laid).2)]
    exact ⟨rfl, rfl, (Sink.gain_empty _).symm, (Sink.gain_empty _).symm⟩
  | cons line rest ih =>
    obtain ⟨skip, pooled', tail, enacts⟩ := step_of_encodes laid
    cases hreact : line.react s.stack.values with
    | go values =>
      rw [hreact] at enacts
      rw [evaluate_of_go hreact] at settled ⊢
      generalize hstep : s.step c = transition at enacts
      cases enacts with
      | go stack hstack =>
        subst hstack
        rw [run_of_next ((turn_false c s).trans hstep)]
        -- The sinks have not changed, so what follows is said of `s` as well.
        have hrest := ih (s := ⟨s.offset + 1 + skip, stack, s.out, s.err⟩) tail settled hout herr
        exact ⟨hrest.outcome, hrest.values, hrest.out, hrest.err⟩
    | finish v values =>
      rw [hreact] at enacts
      rw [evaluate_of_finish hreact]
      generalize hstep : s.step c = transition at enacts
      cases enacts with
      | finish _ stack hstack =>
        have hreason : finishReason s.out v = .returned v := by
          rw [finishReason, Sink.writeError?, Sink.fits_of_limit_eq_none hout, if_pos rfl]
        rw [run_of_halt ((turn_false c s).trans hstep)]
        refine ⟨?_, hstack, ?_, (Sink.gain_empty _).symm⟩
        · show some (Outcome.value v) = some (finishReason s.out v).outcome
          rw [hreason]
          rfl
        · rw [Verdict.printed_returned]
          exact Sink.write_of_limit_eq_none hout _
    | fault e =>
      rw [hreact] at enacts
      rw [evaluate_of_fault hreact]
      generalize hstep : s.step c = transition at enacts
      cases enacts with
      | fault =>
        rw [failType_of_line? laid.place] at hstep
        rw [run_of_halt ((turn_false c s).trans hstep)]
        exact ⟨rfl, rfl, (Sink.gain_empty _).symm, Sink.write_of_limit_eq_none herr _⟩
    | stuck =>
      rw [evaluate, hreact] at settled
      exact absurd rfl settled

end State

namespace Machine

/-- **Nothing gets in the way of a machine**: it does not trace, and its sinks take
everything. -/
structure IsUnhindered (m : Machine) : Prop where
  /-- Runs are not traced. -/
  quiet : m.settings.tracing = false
  /-- The output takes every text. -/
  out : m.out.limit = none
  /-- It can be flushed. -/
  flushes : m.out.flushes = true
  /-- The diagnostics are all taken. -/
  err : m.err.limit = none

/-- **An unhindered machine makes of an assembled chunk what the evaluation makes of its
source.** -/
theorem IsUnhindered.execute {m : Machine} (hm : m.IsUnhindered) {source : String} {c : Chunk}
    (h : assemble source = .ok c) {r : Evaluation} (hr : meaning source m.stack.values = r) :
    r.verdict.outcome? c.size = some (m.execute c).2 ∧
      (m.execute c).1.stack.values = r.values ∧
      (m.execute c).1.out = m.out.gain r.verdict.printed ∧
      (m.execute c).1.err = m.err.gain r.verdict.complaint := by
  subst hr
  unfold meaning
  have settled : (evaluate (Source.lines source) m.stack.values).verdict ≠ .stuck :=
    (proper_of_assemble h).evaluate_ne_stuck (Nat.zero_le _)
  have hrun : State.Follows c m.start (evaluate (Source.lines source) m.stack.values)
      (m.start.run false c).1 (m.start.run false c).2 :=
    State.run_of_encodes (encodes_of_assemble h) settled hm.out hm.err
  have hexecute : m.execute c
      = (m.resume (m.start.run false c).1,
        afterFlush (m.start.run false c).1.out (m.start.run false c).2) := by
    rw [Machine.execute, hm.quiet]
  rw [hexecute]
  refine ⟨?_, hrun.values, hrun.out, hrun.err⟩
  -- Flushing succeeds, so the outcome is that of the run.
  have hflush : (m.start.run false c).1.out.flushError? = none := by
    rw [hrun.out]
    show (if m.out.flushes then none else some StreamError.closed) = none
    rw [hm.flushes, if_pos rfl]
  rw [hrun.outcome]
  show _ = some (afterFlush (m.start.run false c).1.out (m.start.run false c).2)
  unfold afterFlush
  rw [hflush]
  split
  · rename_i heq
    cases heq
  · rfl

theorem interpret_assembler {source : String} {c : Chunk} (h : assemble source = .ok c)
    (m : Machine) : m.interpret assembler source = m.execute c := by
  rw [interpret, assembler, h]

/-- **Assembling keeps the meaning of a source.** An unhindered machine that interprets a
source hands back the value that the source means, or fails with the same message at the
same line; it prints and complains of the same, leaves the same values, and runs past the
end of its chunk exactly if the evaluation runs out of lines. -/
theorem interpret_eq_meaning {source : String} {c : Chunk} (h : assemble source = .ok c)
    {m : Machine} (hm : m.IsUnhindered) :
    (meaning source m.stack.values).verdict.outcome? c.size
        = some (m.interpret assembler source).2 ∧
      (m.interpret assembler source).1.stack.values
        = (meaning source m.stack.values).values ∧
      (m.interpret assembler source).1.out.written
        = m.out.written ++ (meaning source m.stack.values).verdict.printed.toUTF8 ∧
      (m.interpret assembler source).1.err.written
        = m.err.written ++ (meaning source m.stack.values).verdict.complaint.toUTF8 ∧
      ((m.interpret assembler source).2
          = .failure (.malformed
            ("instruction pointer ran past the end of the chunk at offset " ++ Decimal.text c.size)) ↔
        (meaning source m.stack.values).verdict = .exhausted) := by
  obtain ⟨houtcome, hvalues, hout, herr⟩ := hm.execute h rfl
  rw [interpret_assembler h]
  refine ⟨houtcome, hvalues, ?_, ?_, ?_⟩
  · rw [hout]
    rfl
  · rw [herr]
    rfl
  · rw [← @Verdict.outcome?_eq_exhaustion_iff c.size, houtcome, Option.some.injEq]
    rfl

/-- Over a value that was there before, the two zeros are equal, and that is handed back and printed;
and a sum fails on the fourth line and takes all values with it. -/
theorem interpret_zeros_and_bad_sum :
    (assemble "CONSTANT 0\nconstant -0\nEQUAL\nRET"
        = .ok ⟨#[1, 0, 1, 1, 12, 0], #[.number (.zero false), .number (.zero true)],
            #[1, 1, 2, 2, 3, 4]⟩ ∧
      ∃ m : Machine, m.IsUnhindered ∧ m.stack.values = [.nil] ∧
        (m.interpret assembler "CONSTANT 0\nconstant -0\nEQUAL\nRET").2 = .value (.bool true) ∧
        (m.interpret assembler "CONSTANT 0\nconstant -0\nEQUAL\nRET").1.stack.values = [.nil] ∧
        (m.interpret assembler "CONSTANT 0\nconstant -0\nEQUAL\nRET").1.out.written
          = m.out.written ++ "true\n".toUTF8) ∧
    assemble "CONSTANT 1\nTRUE\n\nADD ; too early\nRET"
        = .ok ⟨#[1, 0, 2, 18, 0], #[.number .one], #[1, 1, 2, 4, 5]⟩ ∧
      ∃ m : Machine, m.IsUnhindered ∧ m.stack.values = [.nil] ∧
        (m.interpret assembler "CONSTANT 1\nTRUE\n\nADD ; too early\nRET").2
          = .failure (.typeError ⟨"Operands must be numbers.", 4⟩) ∧
        (m.interpret assembler "CONSTANT 1\nTRUE\n\nADD ; too early\nRET").1.stack.values
          = [] := by
  have hzeros : assemble "CONSTANT 0\nconstant -0\nEQUAL\nRET"
      = .ok ⟨#[1, 0, 1, 1, 12, 0], #[.number (.zero false), .number (.zero true)],
          #[1, 1, 2, 2, 3, 4]⟩ := by decide +kernel
  have hequal : meaning "CONSTANT 0\nconstant -0\nEQUAL\nRET" [.nil]
      = ⟨.returned (.bool true), [.nil]⟩ := by decide +kernel
  have hsum : assemble "CONSTANT 1\nTRUE\n\nADD ; too early\nRET"
      = .ok ⟨#[1, 0, 2, 18, 0], #[.number .one], #[1, 1, 2, 4, 5]⟩ := by decide +kernel
  have hbad : meaning "CONSTANT 1\nTRUE\n\nADD ; too early\nRET" [.nil]
      = ⟨.failed ⟨"Operands must be numbers.", 4⟩, []⟩ := by decide +kernel
  have hm : IsUnhindered ⟨{}, (OperandStack.ofCapacity 1).push .nil, {}, {}⟩ :=
    ⟨rfl, rfl, rfl, rfl⟩
  obtain ⟨hvalue, hleft, hout, -, -⟩ := interpret_eq_meaning hzeros hm
  rw [OperandStack.values_push, OperandStack.ofCapacity, hequal] at hvalue hleft hout
  obtain ⟨hfault, hvalues, -, -, -⟩ := interpret_eq_meaning hsum hm
  rw [OperandStack.values_push, OperandStack.ofCapacity, hbad] at hfault hvalues
  exact ⟨⟨hzeros, _, hm, rfl, (Option.some.inj hvalue).symm, hleft, hout⟩,
    hsum, _, hm, rfl, (Option.some.inj hfault).symm, hvalues⟩

end Machine

end StackMachine

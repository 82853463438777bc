import StackMachine.Proofs.Composition
import StackMachine.Proofs.Safety
import StackMachine.Proofs.Writes

/-!
# Code behind the end of a run

Whatever stands behind the instruction that ends a run makes no difference to the run. A source
that hands back a value, or fails over its operands, does so with any text behind it, and nothing
else changes either: not what it prints or complains of, traced or not, nor what it leaves on the
stack and how much room there is (`Machine.execute_append`).

The reason is not in the sources but in the machine, which reads no further than it gets. It
looks at a chunk in three ways: a step looks at the bytes of an instruction and at the constant
it names, a trace also at the line of the byte before, and a complaint at the line of the byte
just read. `Chunk.IsWholeAt` says that an instruction is there with all that belongs to it. In
front of such an instruction a chunk may go on as it likes (`State.turn_of_begins`), and in front
of anything else the run is about to break off over the chunk (`State.turn_of_not_whole`).
-/

namespace StackMachine

/-! ## What a chunk has to hold for a turn -/

/-- **There is a whole instruction at an offset**: its code byte, and if it is a load also an
operand byte that finds a constant. -/
inductive Chunk.IsWholeAt (c : Chunk) (offset : Nat) : Prop where
  /-- A code byte is enough for most instructions. -/
  | plain {op : Opcode} (other : op ≠ .constant) (code : c.byte? offset = some op.byte)
  /-- A load is two bytes and a constant. -/
  | load {index : UInt8} {v : Value} (code : c.byte? offset = some Opcode.constant.byte)
      (operand : c.byte? (offset + 1) = some index) (found : c.constant? index = some v)

/-- Whether a run was ended by an instruction, and not because the chunk or the output gave
out. -/
def Halt.IsDecided : Halt → Prop
  | returned _ | typeError _ | underflow _ => True
  | malformed _ | outputFailed _ => False

variable {c d : Chunk} {offset : Nat}

theorem Chunk.IsWholeAt.lt_size (h : c.IsWholeAt offset) : offset < c.size := by
  cases h with
  | plain other code => exact Chunk.lt_size_of_byte? code
  | load code operand found => exact Chunk.lt_size_of_byte? code

/-- A chunk that has a line for each byte shares its lines with every chunk it begins. -/
theorem Chunk.Begins.line?_eq (h : c.Begins d) (level : c.IsLevel) (hlt : offset < c.size) :
    d.line? offset = c.line? offset := by
  have hlines : offset < c.lines.size := level ▸ hlt
  have hsome : c.line? offset = some c.lines[offset] := Array.getElem?_eq_getElem hlines
  rw [hsome]
  exact h.line hsome

/-- **A whole instruction is listed in the same way**, whatever follows it. -/
theorem Listing.rowAt_of_begins (h : c.Begins d) (level : c.IsLevel)
    (whole : c.IsWholeAt offset) : rowAt d offset = rowAt c offset := by
  have hmark : markAt d offset = markAt c offset := by
    have hbefore : offset - 1 < c.size := Nat.lt_of_le_of_lt (Nat.sub_le _ _) whole.lt_size
    rw [markAt, markAt, h.line?_eq level whole.lt_size, h.line?_eq level hbefore]
  have hcontent : contentAt d offset = contentAt c offset := by
    cases whole with
    | plain other code => rw [contentAt_of_plain other code, contentAt_of_plain other (h.byte code)]
    | load code operand found =>
      rw [contentAt_of_load code operand found,
        contentAt_of_load (h.byte code) (h.byte operand) (h.constant found)]
  rw [rowAt, rowAt, hmark, hcontent]

namespace State

variable {tracing : Bool} {s t : State}

/-! ## One turn -/

theorem failType_of_lineBefore (h : d.lineBefore s.offset = c.lineBefore s.offset)
    (fault : TypeFault) : s.failType d fault = s.failType c fault := by
  unfold failType report
  rw [h]

/-- An instruction without operand looks at the chunk only to complain. -/
theorem perform_of_lineBefore (h : d.lineBefore s.offset = c.lineBefore s.offset) {op : Opcode}
    (other : op ≠ .constant) : s.perform d op.effect = s.perform c op.effect := by
  have hnumber : ∀ f, s.onNumber d f = s.onNumber c f := by
    intro f
    unfold onNumber
    rw [failType_of_lineBefore h]
  have hnumbers : ∀ f, s.onNumbers d f = s.onNumbers c f := by
    intro f
    unfold onNumbers
    rw [failType_of_lineBefore h]
  cases op with
  | constant => exact absurd rfl other
  | negate | increment | decrement => exact hnumber _
  | greaterEqual | greater | lessEqual | less | add | subtract | multiply | divide =>
    exact hnumbers _
  | _ => rfl

/-- A load looks at its operand byte and the constant, and at a line to complain. -/
theorem load_of_lineBefore (h : d.lineBefore s.offset = c.lineBefore s.offset) {index : UInt8}
    {v : Value} (operand : c.byte? s.offset = some index)
    (operand' : d.byte? s.offset = some index) (found : c.constant? index = some v)
    (found' : d.constant? index = some v) : s.load d = s.load c := by
  unfold load
  rw [operand, operand']
  dsimp only
  rw [found, found', failType_of_lineBefore h]

/-- **A step over a whole instruction is the same step**, whatever follows the instruction. -/
theorem step_of_begins (h : c.Begins d) (level : c.IsLevel) (whole : c.IsWholeAt s.offset) :
    s.step d = s.step c := by
  have hline : d.lineBefore (s.offset + 1) = c.lineBefore (s.offset + 1) :=
    congrArg (Option.getD · 0) (h.line?_eq level whole.lt_size)
  cases whole with
  | plain other code =>
    rw [step_of_byte code, step_of_byte (h.byte code)]
    exact perform_of_lineBefore hline other
  | load code operand found =>
    rw [step_of_byte code, step_of_byte (h.byte code)]
    exact load_of_lineBefore hline operand (h.byte operand) found (h.constant found)

/-- **So is a turn**, with its trace. -/
theorem turn_of_begins (h : c.Begins d) (level : c.IsLevel) (whole : c.IsWholeAt s.offset) :
    s.turn tracing d = s.turn tracing c := by
  have htrace : s.traceText d = s.traceText c := by
    rw [traceText, traceText, Listing.rowAt_of_begins h level whole]
  have hwrite : s.writeTrace d = s.writeTrace c := by
    rw [writeTrace, writeTrace, htrace]
  have hwritten : c.IsWholeAt (s.writeTrace c).offset := whole
  rw [turn, turn, htrace, hwrite, step_of_begins h level whole, step_of_begins h level hwritten]

/-- Where there is no whole instruction, a step gives up over the chunk. -/
theorem step_of_not_whole (h : ¬c.IsWholeAt s.offset) :
    ∃ t m, s.step c = .halt t (.malformed m) := by
  cases hbyte : c.byte? s.offset with
  | none =>
    refine ⟨s, .pastEnd s.offset, ?_⟩
    rw [step, Chunk.fetch?, hbyte]
    rfl
  | some byte =>
    cases hop : Opcode.ofByte? byte with
    | none =>
      refine ⟨{ s with offset := s.offset + 1 }, .unknownOpcode byte s.offset, ?_⟩
      rw [step, Chunk.fetch?, hbyte, Option.map_some]
      dsimp only
      rw [hop]
    | some op =>
      have code : c.byte? s.offset = some op.byte := by
        rw [hbyte, Opcode.eq_byte_of_ofByte? hop]
      by_cases other : op = .constant
      · subst other
        let passed : State := { s with offset := s.offset + 1 }
        rw [step_of_byte code]
        show ∃ t m, load c passed = .halt t (.malformed m)
        cases operand : c.byte? (s.offset + 1) with
        | none =>
          refine ⟨passed, .missingOperand (s.offset + 1), ?_⟩
          rw [load, operand]
        | some index =>
          cases found : c.constant? index with
          | none =>
            refine ⟨passed, .constantOutOfRange index (s.offset + 1), ?_⟩
            rw [load, operand]
            dsimp only
            rw [found]
          | some v => exact absurd (.load code operand found) h
      · exact absurd (.plain other code) h

/-- **Where there is no whole instruction, the run breaks off** over the chunk, or because the
trace cannot be written. -/
theorem turn_of_not_whole (tracing : Bool) (h : ¬c.IsWholeAt s.offset) :
    ∃ t reason, s.turn tracing c = .halt t reason ∧ ¬reason.IsDecided := by
  rcases turn_eq_step_or tracing c s with ⟨out, hturn⟩ | ⟨t, e, hturn⟩
  · have hout : ¬c.IsWholeAt { s with out := out }.offset := h
    obtain ⟨t, m, hstep⟩ := step_of_not_whole hout
    exact ⟨t, _, hturn.trans hstep, id⟩
  · exact ⟨t, _, hturn, id⟩

/-! ## Whole runs -/

/-- **A run that an instruction ends goes the same way in every chunk that its chunk begins.** -/
theorem run_of_begins (h : c.Begins d) (level : c.IsLevel)
    (decided : (s.run tracing c).2.IsDecided) : s.run tracing d = s.run tracing c := by
  induction s using run_induction tracing c with
  | turn s ih =>
    by_cases whole : c.IsWholeAt s.offset
    · have hsame : s.turn tracing d = s.turn tracing c := turn_of_begins h level whole
      cases hturn : s.turn tracing c with
      | next t =>
        rw [run_of_next hturn] at decided
        rw [run_of_next hturn, run_of_next (hsame.trans hturn)]
        exact ih t hturn decided
      | halt t reason => rw [run_of_halt hturn, run_of_halt (hsame.trans hturn)]
    · obtain ⟨t, reason, hturn, hreason⟩ := turn_of_not_whole tracing whole
      rw [run_of_halt hturn] at decided
      exact absurd decided hreason

end State

namespace Machine

/-- A machine that hands back a value, or fails over the operands of an instruction, was stopped
by an instruction. -/
theorem isDecided_of_afterFlush {out : Sink} {reason : Halt}
    (h : (∃ v, afterFlush out reason = .value v) ∨
      ∃ e, afterFlush out reason = .failure (.typeError e)) : reason.IsDecided := by
  cases reason with
  | returned v => trivial
  | typeError e => trivial
  | underflow u => trivial
  | malformed m => simp [afterFlush, Halt.outcome] at h
  | outputFailed e => simp [afterFlush, Halt.outcome] at h

/-- **What stands behind the end of a run is dead.** If the chunk of a source hands back a value
or fails over its operands, on any stack, with any settings and sinks, then so does the chunk of
the source with any text behind it, if that can be assembled at all: the outcome is the same, and
the machine is left with the same stack, its room included, and the same in both sinks. -/
theorem execute_append {front back : String} {c d : Chunk} (hc : assemble front = .ok c)
    (hd : assemble (front ++ "\n" ++ back) = .ok d) {m : Machine}
    (ends : (∃ v, (m.execute c).2 = .value v) ∨
      ∃ e, (m.execute c).2 = .failure (.typeError e)) :
    m.execute d = m.execute c := by
  have hrun : m.start.run m.settings.tracing d = m.start.run m.settings.tracing c :=
    State.run_of_begins (begins_of_assemble_append hc hd) (isLevel_of_assemble hc)
      (isDecided_of_afterFlush ends)
  rw [execute, execute, hrun]

/-- A traced sum that fails on the third line, over a value that was there before. Behind it there
is one more constant, and an instruction that would have handed it back. -/
theorem execute_append_failed_sum :
    ∃ (c d : Chunk) (m : Machine),
      assemble "CONSTANT 1\nTRUE\nADD" = .ok c ∧
      assemble "CONSTANT 1\nTRUE\nADD\nCONSTANT 2\nRET" = .ok d ∧ c.size = 4 ∧ d.size = 7 ∧
      m.settings.tracing = true ∧ m.stack.values = [.nil] ∧
      (m.execute d).2 = .failure (.typeError ⟨"Operands must be numbers.", 3⟩) ∧
      m.execute d = m.execute c := by
  have hc : assemble "CONSTANT 1\nTRUE\nADD"
      = .ok ⟨#[1, 0, 2, 18], #[.number .one], #[1, 1, 2, 3]⟩ := by decide +kernel
  have hd : assemble ("CONSTANT 1\nTRUE\nADD" ++ "\n" ++ "CONSTANT 2\nRET")
      = .ok ⟨#[1, 0, 2, 18, 1, 1, 0], #[.number .one, .number (.add .one .one)],
          #[1, 1, 2, 3, 4, 4, 5]⟩ := by decide +kernel
  have houtcome : (execute ⟨{ tracing := true }, (OperandStack.ofCapacity 1).push .nil, {}, {}⟩
      ⟨#[1, 0, 2, 18], #[.number .one], #[1, 1, 2, 3]⟩).2
        = .failure (.typeError ⟨"Operands must be numbers.", 3⟩) := by decide +kernel
  have hsame := execute_append hc hd (Or.inr ⟨_, houtcome⟩)
  exact ⟨_, _, _, hc, hd, rfl, rfl, rfl, rfl, hsame ▸ houtcome, hsame⟩

end Machine

end StackMachine

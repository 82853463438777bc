import StackMachine.Proofs.Simulation

/-!
# Assembled chunks are safe to run

The machine answers for chunks of any bytes, and two of its answers mean that the chunk was
at fault: it broke the rules of its encoding, or it reached below the bottom of the stack.
An assembled chunk does neither, on whatever stack it is run, traced or not, and however
little the sinks take. The one thing that can be held against it is that it ends without an
instruction that ends the run, and then its source had none (`execute_of_assemble`).

What is true all along a run is `State.Faces`: the machine stands in front of an instruction
and not inside one, and the stack is at least as deep as the assembler counted. It may be
deeper, as the assembler counts from an empty stack and the machine starts with what earlier
runs have left. A turn of the run keeps it or ends the run (`State.Faces.turn_cases`).
-/

namespace StackMachine

/-- Whether a run came to a halt that its chunk is not to blame for. -/
def Halt.IsOrderly : Halt → Prop
  | returned _ | typeError _ | outputFailed _ => True
  | malformed _ | underflow _ => False

namespace State

/-- **The machine faces these instructions**: they lie ahead of its offset, and its stack is
deep enough for them. -/
structure Faces (c : Chunk) (lines : List Source.Line) (s : State) : Prop where
  /-- The instructions lie ahead. -/
  laid : ∃ pooled, Encodes c s.offset pooled lines
  /-- They are in order on a stack that is no deeper than the one there is. -/
  fed : ∃ depth, Proper depth lines ∧ depth ≤ s.stack.values.length

/-- A turn is a step with another output, or ends over the trace and has not touched the stack. -/
theorem turn_eq_step_or_stack_eq (tracing : Bool) (c : Chunk) (s : State) :
    (∃ out, s.turn tracing c = { s with out := out }.step c) ∨
      ∃ t e, s.turn tracing c = .halt t (.outputFailed e) ∧ t.stack = s.stack := by
  unfold turn
  cases tracing with
  | false => exact Or.inl ⟨s.out, rfl⟩
  | true =>
    rw [if_pos rfl]
    cases s.out.writeError? (s.traceText c) with
    | none => exact Or.inl ⟨s.out.write (s.traceText c), rfl⟩
    | some e => exact Or.inr ⟨_, e, rfl, rfl⟩

/-- A turn is a step with another output, or ends because the trace cannot be written. -/
theorem turn_eq_step_or (tracing : Bool) (c : Chunk) (s : State) :
    (∃ out, s.turn tracing c = { s with out := out }.step c) ∨
      ∃ t e, s.turn tracing c = .halt t (.outputFailed e) := by
  rcases turn_eq_step_or_stack_eq tracing c s with hstep | ⟨t, e, hhalt, -⟩
  · exact Or.inl hstep
  · exact Or.inr ⟨t, e, hhalt⟩

theorem isOrderly_finishReason (out : Sink) (v : Value) :
    (finishReason out v).IsOrderly := by
  unfold finishReason
  split <;> trivial

namespace Faces

variable {c : Chunk} {s : State} {line : Source.Line} {rest lines : List Source.Line}

/-- Behind an instruction that lets the run go on, the machine faces the next one. -/
theorem step_cases (h : s.Faces c (line :: rest)) :
    (Opcode.ofMnemonic? line.mnemonic ≠ some .ret ∧
        ∃ t, s.step c = .next t ∧ t.Faces c rest) ∨
      ∃ t reason, s.step c = .halt t reason ∧ reason.IsOrderly := by
  obtain ⟨⟨pooled, laid⟩, depth, proper, deep⟩ := h
  obtain ⟨skip, pooled', tail, enacts⟩ := step_of_encodes laid
  rcases proper.react_cases deep with
    ⟨-, v, left, hv⟩ | ⟨going, ⟨left, depth', hgo, hdeep, htail⟩ | ⟨e, he⟩⟩
  · have hreact : line.react s.stack.values = .finish v left := by simpa using hv []
    rw [hreact] at enacts
    generalize s.step c = transition at enacts
    cases enacts with
    | finish _ stack hstack => exact Or.inr ⟨_, _, rfl, isOrderly_finishReason _ _⟩
  · have hreact : line.react s.stack.values = .go left := by simpa using hgo []
    rw [hreact] at enacts
    generalize s.step c = transition at enacts
    cases enacts with
    | go stack hstack =>
      refine Or.inl ⟨going, _, rfl, ⟨pooled', tail⟩, depth', htail, ?_⟩
      show depth' ≤ stack.values.length
      rw [hstack]
      exact hdeep
  · have hreact : line.react s.stack.values = .fault e := by simpa using he []
    rw [hreact] at enacts
    generalize s.step c = transition at enacts
    cases enacts with
    | fault => exact Or.inr ⟨_, _, rfl, trivial⟩

/-- **A turn of the run keeps to the instructions or ends the run in order**, whether it
writes a trace or not. -/
theorem turn_cases (h : s.Faces c (line :: rest)) (tracing : Bool) :
    (Opcode.ofMnemonic? line.mnemonic ≠ some .ret ∧
        ∃ t, s.turn tracing c = .next t ∧ t.Faces c rest) ∨
      ∃ t reason, s.turn tracing c = .halt t reason ∧ reason.IsOrderly := by
  rcases turn_eq_step_or tracing c s with ⟨out, hturn⟩ | ⟨t, e, hturn⟩
  · rw [hturn]
    have hout : Faces c (line :: rest) { s with out := out } := ⟨h.laid, h.fed⟩
    exact hout.step_cases
  · exact Or.inr ⟨t, _, hturn, trivial⟩

/-- Behind the last instruction there is nothing left to read. -/
theorem turn_of_done (h : s.Faces c []) (tracing : Bool) :
    ∃ t reason, s.turn tracing c = .halt t reason ∧
      (reason.IsOrderly ∨ reason = .malformed (.pastEnd c.size)) := by
  obtain ⟨⟨pooled, laid⟩, -⟩ := h
  rcases turn_eq_step_or tracing c s with ⟨out, hturn⟩ | ⟨t, e, hturn⟩
  · have hdone : Encodes c { s with out := out }.offset pooled [] := laid
    exact ⟨_, _, hturn.trans (step_of_done hdone).2, Or.inr rfl⟩
  · exact ⟨t, _, hturn, Or.inl trivial⟩

/-- **A run over instructions that are in order ends in order**, or runs past the last of
them because none ends the run. -/
theorem run_cases (h : s.Faces c lines) (tracing : Bool) :
    (s.run tracing c).2.IsOrderly ∨
      ((s.run tracing c).2 = .malformed (.pastEnd c.size) ∧
        ∀ line ∈ lines, Opcode.ofMnemonic? line.mnemonic ≠ some .ret) := by
  induction lines generalizing s with
  | nil =>
    obtain ⟨t, reason, hturn, hreason⟩ := h.turn_of_done tracing
    rw [run_of_halt hturn]
    refine hreason.imp id fun heq => ⟨heq, ?_⟩
    intro line hmem
    exact absurd hmem List.not_mem_nil
  | cons line rest ih =>
    rcases h.turn_cases tracing with ⟨going, t, hturn, hfaces⟩ | ⟨t, reason, hturn, hreason⟩
    · rw [run_of_next hturn]
      refine (ih hfaces).imp id fun hend => ⟨hend.1, ?_⟩
      intro other hmem
      rcases List.mem_cons.1 hmem with rfl | hrest
      · exact going
      · exact hend.2 other hrest
    · rw [run_of_halt hturn]
      exact Or.inl hreason

end Faces

end State

namespace Machine

/-- A machine about to run an assembled chunk faces the instructions of its source. -/
theorem faces_start {source : String} {c : Chunk} (h : assemble source = .ok c)
    (m : Machine) : m.start.Faces c (Source.lines source) :=
  ⟨⟨0, encodes_of_assemble h⟩, 0, proper_of_assemble h, Nat.zero_le _⟩

theorem execute_snd (m : Machine) (c : Chunk) :
    (m.execute c).2 = afterFlush (m.start.run m.settings.tracing c).1.out
      (m.start.run m.settings.tracing c).2 := rfl

/-- Flushing adds nothing to a failure of the chunk, nor does it bring one about. -/
theorem afterFlush_of_isOrderly (out : Sink) {reason : Halt} (h : reason.IsOrderly) :
    (∀ u, afterFlush out reason ≠ .crash u) ∧
      ∀ text, afterFlush out reason ≠ .failure (.malformed text) := by
  unfold afterFlush
  cases reason with
  | returned v => cases out.flushError? <;> simp [Halt.outcome]
  | typeError e => simp [Halt.outcome]
  | outputFailed e => simp [Halt.outcome]
  | malformed m => exact absurd h id
  | underflow u => exact absurd h id

/-- **Assembled chunks are safe to run**, on any stack, with any settings and sinks: the
machine never reaches below the bottom of its stack, and of all the ways in which a chunk
can break the rules of its encoding only one is open to it, which is to end. It does so at
its own size and only if no line of the source ends the run. -/
theorem execute_of_assemble {source : String} {c : Chunk} (h : assemble source = .ok c)
    (m : Machine) :
    (∀ u, (m.execute c).2 ≠ .crash u) ∧
      (∀ text, (m.execute c).2 = .failure (.malformed text) →
        text = "instruction pointer ran past the end of the chunk at offset "
            ++ Decimal.text c.size ∧
          ∀ line ∈ Source.lines source, Opcode.ofMnemonic? line.mnemonic ≠ some .ret) ∧
      ∀ fault, (m.start.run m.settings.tracing c).2 = .malformed fault →
        fault = .pastEnd c.size := by
  rw [execute_snd]
  rcases (m.faces_start h).run_cases m.settings.tracing with hreason | ⟨hreason, hlines⟩
  · obtain ⟨hcrash, hmalformed⟩ :=
      afterFlush_of_isOrderly (m.start.run m.settings.tracing c).1.out hreason
    refine ⟨hcrash, fun text htext => absurd htext (hmalformed text), ?_⟩
    intro fault hfault
    rw [hfault] at hreason
    exact absurd hreason id
  · rw [hreason]
    refine ⟨?_, ?_, ?_⟩
    · intro u hu
      exact absurd hu (by simp [afterFlush, Halt.outcome])
    · intro text htext
      have heq : (Malformed.pastEnd c.size).message = text := by
        simpa [afterFlush, Halt.outcome] using htext
      exact ⟨heq.symm, hlines⟩
    · intro fault hfault
      exact (Halt.malformed.inj hfault).symm

/-- A chunk that no instruction ends, traced into a sink that soon is full, over a value
that was there before. -/
theorem execute_endless :
    ∃ (c : Chunk) (m : Machine),
      assemble "CONSTANT 1\n\nNEGATE ; and then?" = .ok c ∧ m.settings.tracing = true ∧
        m.stack.values = [.nil] ∧ m.out.limit = some 20 ∧
        (∀ u, (m.execute c).2 ≠ .crash u) ∧
        (∀ text, (m.execute c).2 = .failure (.malformed text) →
          text = "instruction pointer ran past the end of the chunk at offset 3") ∧
        ∀ fault, (m.start.run m.settings.tracing c).2 = .malformed fault →
          fault = .pastEnd 3 := by
  have h : assemble "CONSTANT 1\n\nNEGATE ; and then?"
      = .ok ⟨#[1, 0, 5], #[.number .one], #[1, 1, 3]⟩ := by decide +kernel
  obtain ⟨hcrash, htext, hfault⟩ := execute_of_assemble h
    ⟨{ tracing := true }, (OperandStack.ofCapacity 1).push .nil, { limit := some 20 }, {}⟩
  exact ⟨_, _, h, rfl, rfl, rfl, hcrash, fun text heq => (htext text heq).1, hfault⟩

end Machine

end StackMachine

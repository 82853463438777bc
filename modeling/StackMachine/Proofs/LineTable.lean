import StackMachine.Proofs.Streams

/-!
# The line table is for diagnostics only

A chunk holds a line for each byte of its code, or is meant to: nothing keeps it from holding fewer
lines or more. For a run this makes no difference. It asks for a line only when it fails over its
operands, in order to write it into the diagnostic, and then the run is over.

So the runs of two chunks with other line tables go side by side. A step is the same for both of
them, or it is the same failure as each of them reports it (`State.step_withLines`), and since the
run is over with a failure, no later step can find its state changed by a line
(`State.run_withLines`). This is said of runs without a trace, since a trace shows lines.
-/

namespace StackMachine

/-- The chunk with another line table. -/
def Chunk.withLines (c : Chunk) (lines : Array Nat) : Chunk := { c with lines := lines }

/-- **Two halts that differ at most in a line.** -/
inductive Halt.AlikeButLine : Halt → Halt → Prop where
  /-- They are the same. -/
  | same (reason : Halt) : AlikeButLine reason reason
  /-- Both are type errors that read the same but for the line. -/
  | typeError (message : String) (line line' : Nat) :
      AlikeButLine (.typeError ⟨message, line⟩) (.typeError ⟨message, line'⟩)

/-- **Two transitions that differ at most in a failure**, which each of two chunks is told of in its
own lines. -/
inductive Transition.AlikeButLine (c d : Chunk) : Transition → Transition → Prop where
  /-- They are the same. -/
  | same (t : Transition) : AlikeButLine c d t t
  /-- Both are the same failure over operands. -/
  | failure (s : State) (fault : TypeFault) :
      AlikeButLine c d (s.failType c fault) (s.failType d fault)

namespace State

variable {c : Chunk} {lines : Array Nat} {s : State}

/-! ## One step -/

section Effects

variable (c : Chunk) (lines : Array Nat) (s : State)

theorem load_withLines : (s.load c).AlikeButLine c (c.withLines lines)
    (s.load (c.withLines lines)) := by
  have hbyte : (c.withLines lines).byte? s.offset = c.byte? s.offset := rfl
  have hconstant : (c.withLines lines).constant? = c.constant? := rfl
  unfold load
  rw [hbyte, hconstant]
  cases c.byte? s.offset with
  | none => exact .same _
  | some index =>
    dsimp only
    cases c.constant? index with
    | none => exact .same _
    | some v =>
      cases v with
      | number x => exact .same _
      | nil | bool => exact .failure s .operand

theorem onNumber_withLines (f : Binary64 → Binary64) :
    (s.onNumber c f).AlikeButLine c (c.withLines lines) (s.onNumber (c.withLines lines) f) := by
  unfold onNumber
  cases s.stack.peek 0 with
  | error u => exact .same _
  | ok v =>
    cases v with
    | number x => exact .same _
    | nil | bool => exact .failure s .operand

theorem onNumbers_withLines (f : Binary64 → Binary64 → Value) :
    (s.onNumbers c f).AlikeButLine c (c.withLines lines) (s.onNumbers (c.withLines lines) f) := by
  unfold onNumbers
  cases s.stack.peek 1 with
  | error u => exact .same _
  | ok left =>
    dsimp only
    cases s.stack.peek 0 with
    | error u => exact .same _
    | ok right =>
      cases left with
      | number x =>
        cases right with
        | number y => exact .same _
        | nil | bool => exact .failure s .operands
      | nil | bool => exact .failure s .operands

theorem perform_withLines (e : Effect) :
    (s.perform c e).AlikeButLine c (c.withLines lines) (s.perform (c.withLines lines) e) := by
  cases e with
  | load => exact load_withLines c lines s
  | onNumber f => exact onNumber_withLines c lines s f
  | onNumbers f => exact onNumbers_withLines c lines s f
  -- The other effects do not look at the chunk.
  | finish | push | onValue | onValues => exact .same _

/-- **A step by another line table is the same step**, but for the line of a failure. -/
theorem step_withLines :
    (s.step c).AlikeButLine c (c.withLines lines) (s.step (c.withLines lines)) := by
  have hfetch : (c.withLines lines).fetch? s.offset = c.fetch? s.offset := rfl
  unfold step
  rw [hfetch]
  cases c.fetch? s.offset with
  | none => exact .same _
  | some read =>
    dsimp only
    cases Opcode.ofByte? read.1 with
    | none => exact .same _
    | some op => exact perform_withLines c lines { s with offset := read.2 } op.effect

end Effects

/-! ## Whole runs -/

/-- **A run by another line table is the same run**, or both runs end with the same failure as each
of the two chunks has it reported. -/
theorem run_withLines (c : Chunk) (lines : Array Nat) (s : State) :
    s.run false (c.withLines lines) = s.run false c ∨
      ∃ (t : State) (fault : TypeFault), ∀ d, d = c ∨ d = c.withLines lines →
        s.run false d
          = ((t.report d fault.message).2, .typeError (t.report d fault.message).1) := by
  induction s using run_induction false c with
  | turn s ih =>
    have halike := step_withLines c lines s
    generalize hstep : s.step c = transition at halike
    generalize hother : s.step (c.withLines lines) = transition' at halike
    cases halike with
    | same =>
      cases transition with
      | next t =>
        have hrun : s.run false c = t.run false c := run_of_next hstep
        have hrun' : s.run false (c.withLines lines) = t.run false (c.withLines lines) :=
          run_of_next hother
        rw [hrun, hrun']
        refine (ih t hstep).imp id ?_
        rintro ⟨u, fault, hreport⟩
        refine ⟨u, fault, fun d hd => ?_⟩
        rw [← hreport d hd]
        rcases hd with rfl | rfl
        · exact hrun
        · exact hrun'
      | halt t reason =>
        have hrun : s.run false c = (t, reason) := run_of_halt hstep
        have hrun' : s.run false (c.withLines lines) = (t, reason) := run_of_halt hother
        exact Or.inl (hrun'.trans hrun.symm)
    | failure t fault =>
      refine Or.inr ⟨t, fault, fun d hd => ?_⟩
      rcases hd with rfl | rfl
      · exact run_of_halt hstep
      · exact run_of_halt hother

/-- What a run writes to the stream for diagnostics can be told from how it ends. -/
theorem err_run (tracing : Bool) (c : Chunk) (s : State) :
    (s.run tracing c).1.err = s.err.write (s.run tracing c).2.complaint :=
  congrArg (fun ended => ended.1.err) (run_with_err tracing c s s.err)

/-- **The line table has a say in nothing but diagnostics.** Two chunks with the same code and the
same constants, whatever lines they hold and however many, are run in the same way from any offset,
on any stack and any sinks: both hand back the same value, or find the chunk malformed in the same
way, or reach below the bottom of the stack in the same way, or fail with messages that differ in
their line at most. They end at the same offset, with the same stack, its room included, and the
same output. To the other stream goes the text of the failure and nothing else. -/
theorem run_apart_from_lines {c d : Chunk} (code : c.code = d.code)
    (constants : c.constants = d.constants) (s : State) :
    (s.run false c).2.AlikeButLine (s.run false d).2 ∧
      (s.run false c).1.offset = (s.run false d).1.offset ∧
      (s.run false c).1.stack = (s.run false d).1.stack ∧
      (s.run false c).1.out = (s.run false d).1.out ∧
      (s.run false c).1.err = s.err.write (s.run false c).2.complaint ∧
      (s.run false d).1.err = s.err.write (s.run false d).2.complaint := by
  have hd : d = c.withLines d.lines := by rw [Chunk.withLines, code, constants]
  have herr := err_run false c s
  have herr' := err_run false d s
  rcases run_withLines c d.lines s with hrun | ⟨t, fault, hreport⟩
  · rw [← hd] at hrun
    rw [hrun]
    exact ⟨.same _, rfl, rfl, rfl, herr, herr⟩
  · rw [hreport c (Or.inl rfl)] at herr ⊢
    rw [hreport d (Or.inr hd)] at herr' ⊢
    exact ⟨.typeError _ _ _, rfl, rfl, rfl, herr, herr'⟩

/-- A sum of nil and a truth value, behind an instruction that is passed over: one chunk has no
lines at all, the other has more than it has bytes. -/
theorem run_apart_from_lines_none_and_five :
    ∃ (c d : Chunk) (s : State), c = ⟨#[2, 4, 3, 18], #[], #[]⟩ ∧
      d = ⟨#[2, 4, 3, 18], #[], #[1, 1, 2, 7, 9]⟩ ∧ s = ⟨1, .ofCapacity 1, {}, {}⟩ ∧
      (s.run false c).2 = .typeError ⟨"Operands must be numbers.", 0⟩ ∧
      (s.run false d).2 = .typeError ⟨"Operands must be numbers.", 7⟩ ∧
      (s.run false c).2.AlikeButLine (s.run false d).2 ∧
      (s.run false c).1.offset = (s.run false d).1.offset ∧
      (s.run false c).1.stack = (s.run false d).1.stack ∧
      (s.run false c).1.out = (s.run false d).1.out := by
  obtain ⟨halike, hoffset, hstack, hout, -⟩ := run_apart_from_lines
    (c := ⟨#[2, 4, 3, 18], #[], #[]⟩) (d := ⟨#[2, 4, 3, 18], #[], #[1, 1, 2, 7, 9]⟩) rfl rfl
    ⟨1, .ofCapacity 1, {}, {}⟩
  refine ⟨_, _, _, rfl, rfl, rfl, ?_, ?_, halike, hoffset, hstack, hout⟩ <;> decide +kernel

end State

end StackMachine

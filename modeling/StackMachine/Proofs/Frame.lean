import StackMachine.Proofs.Tables

/-!
# What lies below is left alone

An instruction addresses the values on the stack from the top, and so does a whole run: what lies
below the values that a run works with neither makes a difference to it nor is touched by it
(`State.run_on_top`). The chunk may hold anything. All that is asked for is that the run gets by
with the values it is given, for a run that reaches below them would find others there.

There is one exception, and it is no oversight. A failure over operands empties the stack, and does
not stop at the values that the run has put there itself.

`Transition.Above` says of two transitions that they differ only in what lies below. A step keeps it
(`State.step_above`), since the reaction of an instruction does (`Chunk.Holds.react_of_enough`), and
so does a run from one step to the next.
-/

namespace StackMachine

/-- **The same transition with further values below.** A failure over operands has taken these with
the others. -/
inductive Transition.Above (base : List Value) : Transition → Transition → Prop where
  /-- Both runs go on. -/
  | next {offset : Nat} {stack deeper : OperandStack} {out err : Sink}
      (values : deeper.values = stack.values ++ base) :
      Above base (.next ⟨offset, stack, out, err⟩) (.next ⟨offset, deeper, out, err⟩)
  /-- Both runs are over for the same reason. -/
  | halt {offset : Nat} {stack deeper : OperandStack} {out err : Sink} {reason : Halt}
      (other : ∀ e, reason ≠ .typeError e) (values : deeper.values = stack.values ++ base) :
      Above base (.halt ⟨offset, stack, out, err⟩ reason) (.halt ⟨offset, deeper, out, err⟩ reason)
  /-- Both runs have failed over the same operands. -/
  | failure {offset : Nat} {stack deeper : OperandStack} {out err : Sink} {e : RunError}
      (empty : stack.values = []) (empty' : deeper.values = []) :
      Above base (.halt ⟨offset, stack, out, err⟩ (.typeError e))
        (.halt ⟨offset, deeper, out, err⟩ (.typeError e))

namespace State

variable {c : Chunk} {s : State} {stack deeper : OperandStack} {base : List Value}

/-- **A step with further values below is the same step**, unless it reaches for them. -/
theorem step_above (values : deeper.values = s.stack.values ++ base)
    (alive : ∀ t u, s.step c ≠ .halt t (.underflow u)) :
    (s.step c).Above base (step c ⟨s.offset, deeper, s.out, s.err⟩) := by
  rcases c.breaks_or_holds s.offset with ⟨m, hbreaks⟩ | ⟨op, operand, holds⟩
  · obtain ⟨next, hnext⟩ := step_of_breaks hbreaks
    have hstep : s.step c = _ := hnext s.stack s.out s.err
    rw [hstep, hnext]
    exact .halt (by simp) values
  have enough : op.inputs ≤ s.stack.values.length := by
    rw [← s.stack.depth_eq]
    refine Nat.le_of_not_lt fun shallow => ?_
    obtain ⟨t, u, hu⟩ := (step_eq_underflow_iff holds).2 shallow
    exact alive t u hu
  have holds' : c.Holds (State.mk s.offset deeper s.out s.err).offset op operand := holds
  rcases holds.react_of_enough enough with ⟨-, v, rest, -, h⟩ | ⟨-, ⟨v, h⟩ | ⟨f, h⟩⟩
  · obtain ⟨stack, left, hstep⟩ := step_of_finish holds (List.append_nil _ ▸ h [])
    obtain ⟨stack', left', hstep'⟩ := step_of_finish holds' (values ▸ h base)
    rw [hstep, hstep']
    refine .halt (fun e he => ?_) (by rw [left', left, List.append_nil])
    exact finishReason_ne (by simp) (by simp) he
  · obtain ⟨stack, left, hstep⟩ := step_of_go holds (List.append_nil _ ▸ h [])
    obtain ⟨stack', left', hstep'⟩ := step_of_go holds' (values ▸ h base)
    rw [hstep, hstep']
    exact .next (by rw [left', left, List.append_nil, List.cons_append])
  · rw [step_of_fault holds (List.append_nil _ ▸ h []), step_of_fault holds' (values ▸ h base)]
    exact .failure rfl rfl

/-- **So is a run.** -/
theorem run_above (values : deeper.values = s.stack.values ++ base)
    (alive : ∀ u, (s.run false c).2 ≠ .underflow u) :
    Transition.Above base (.halt (s.run false c).1 (s.run false c).2)
      (.halt (run false c ⟨s.offset, deeper, s.out, s.err⟩).1
        (run false c ⟨s.offset, deeper, s.out, s.err⟩).2) := by
  induction s using run_induction false c generalizing deeper with
  | turn s ih =>
    have hturn : ∀ s, turn false c s = step c s := turn_false c
    generalize hdeeper : step c ⟨s.offset, deeper, s.out, s.err⟩ = transition
    cases hstep : s.step c with
    | next t =>
      have habove := step_above (c := c) values fun _ _ hu => nomatch hstep.symm.trans hu
      rw [hstep, hdeeper] at habove
      cases habove with
      | next values' =>
        rw [run_of_next ((hturn s).trans hstep)] at alive ⊢
        rw [run_of_next ((hturn _).trans hdeeper)]
        exact ih _ ((hturn s).trans hstep) values' alive
    | halt t reason =>
      rw [run_of_halt ((hturn s).trans hstep)] at alive ⊢
      have habove := step_above (c := c) values fun t u hu =>
        alive u (Transition.halt.inj (hstep.symm.trans hu)).2
      rw [hstep, hdeeper] at habove
      cases habove with
      | halt other values' =>
        rw [run_of_halt ((hturn _).trans hdeeper)]
        exact .halt other values'
      | failure empty empty' =>
        rw [run_of_halt ((hturn _).trans hdeeper)]
        exact .failure empty empty'

/-- **What lies below is left alone**, whatever the bytes of the chunk and wherever the run starts.
A run that does not reach below its own values ends in the same way with further values below them:
with the same value, failure or malformation, at the same offset, and with the same in both sinks.
The further values lie below what it leaves, unless it fails over its operands; then both stacks are
empty. -/
theorem run_on_top (c : Chunk) (offset : Nat) (out err : Sink)
    (contents : deeper.contents = base ++ stack.contents) {reason : Halt}
    (hrun : run false c ⟨offset, stack, out, err⟩ = (s, reason))
    (alive : ∀ u, reason ≠ .underflow u) :
    ∃ t, run false c ⟨offset, deeper, out, err⟩ = (t, reason) ∧
      t.offset = s.offset ∧ t.out = s.out ∧ t.err = s.err ∧
      (∀ e, reason = .typeError e → s.stack.contents = [] ∧ t.stack.contents = []) ∧
      ((∀ e, reason ≠ .typeError e) → t.stack.contents = base ++ s.stack.contents) := by
  have values : deeper.values = stack.values ++ base.reverse := by
    rw [← List.reverse_inj, List.reverse_append, List.reverse_reverse]
    exact contents
  have hend : ∀ u, (run false c ⟨offset, stack, out, err⟩).2 ≠ .underflow u := by
    rw [hrun]
    exact alive
  have habove := run_above (s := ⟨offset, stack, out, err⟩) values hend
  rw [hrun] at habove
  generalize hdeeper : run false c ⟨offset, deeper, out, err⟩ = ended at habove
  obtain ⟨t, reason'⟩ := ended
  cases habove with
  | halt other values' =>
    refine ⟨_, rfl, rfl, rfl, rfl, fun e he => absurd he (other e), fun _ => ?_⟩
    show List.reverse _ = _
    rw [values', List.reverse_append, List.reverse_reverse]
    rfl
  | failure empty empty' =>
    refine ⟨_, rfl, rfl, rfl, rfl, fun _ _ => ⟨?_, ?_⟩, fun hother => absurd rfl (hother _)⟩
    · exact congrArg List.reverse empty
    · exact congrArg List.reverse empty'

/-- A run that starts inside a load, takes the operand byte for an instruction and stops at a byte
that is none: the number below its two values comes to lie below the one it leaves. -/
theorem run_on_top_inside_load :
    ∃ (c : Chunk) (stack deeper : OperandStack) (s t : State), c = ⟨#[1, 9, 99], #[], #[]⟩ ∧
      stack.contents = [.nil, .bool true] ∧
      deeper.contents = [.number .one, .nil, .bool true] ∧
      run false c ⟨1, stack, {}, {}⟩ = (s, .malformed (.unknownOpcode 99 2)) ∧
      run false c ⟨1, deeper, {}, {}⟩ = (t, .malformed (.unknownOpcode 99 2)) ∧
      s.stack.contents = [.bool false] ∧ t.stack.contents = [.number .one, .bool false] ∧
      t.offset = s.offset := by
  obtain ⟨s, hleft, hrun⟩ : ∃ s : State, s.stack.contents = [.bool false] ∧
      run false ⟨#[1, 9, 99], #[], #[]⟩
          ⟨1, ((OperandStack.ofCapacity 1).push .nil).push (.bool true), {}, {}⟩
        = (s, .malformed (.unknownOpcode 99 2)) := by
    refine ⟨_, ?_, Prod.ext rfl ?_⟩ <;> decide +kernel
  have hcontents : OperandStack.contents
      ((((OperandStack.ofCapacity 1).push (.number .one)).push .nil).push (.bool true))
        = [.number .one]
          ++ (((OperandStack.ofCapacity 1).push .nil).push (.bool true)).contents := rfl
  obtain ⟨t, hrun', hoffset, -, -, -, hbelow⟩ := run_on_top _ _ _ _ hcontents hrun (by simp)
  refine ⟨_, _, _, s, t, rfl, rfl, rfl, hrun, hrun', hleft, ?_, hoffset⟩
  rw [hbelow (by simp), hleft]
  rfl

end State

end StackMachine

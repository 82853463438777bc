import StackMachine.Machine.Step

/-!
# Running a chunk

A run repeats steps until one of them halts. Before each step it may write a trace: the
picture of the stack and the row of the listing that is about to be performed.

That every run ends is not in the code of the loop but in the steps: a step that does
not halt has read a byte, so there was one, and has moved the offset past it
(`State.lt_of_step_eq_next`). The bytes that are left get fewer with every turn.
-/

namespace StackMachine

/-- Performing an effect never takes the offset back. -/
theorem State.offset_le_of_perform {c : Chunk} {s t : State} {e : Effect}
    (h : s.perform c e = .next t) : s.offset ≤ t.offset := by
  cases e with
  | finish =>
    simp only [perform, finish] at h
    split at h
    · exact absurd h (by simp)
    · split at h <;> exact absurd h (by simp)
  | load =>
    simp only [perform, load] at h
    split at h
    · exact absurd h (by simp)
    · split at h
      · exact absurd h (by simp)
      · cases h
        exact Nat.le_succ _
      · exact absurd h (by simp [failType, report])
  | push v =>
    cases h
    exact Nat.le_refl _
  | onNumber f =>
    simp only [perform, onNumber] at h
    split at h
    · exact absurd h (by simp)
    · cases h
      exact Nat.le_refl _
    · exact absurd h (by simp [failType, report])
  | onValue f =>
    simp only [perform, onValue] at h
    split at h
    · exact absurd h (by simp)
    · cases h
      exact Nat.le_refl _
  | onValues f =>
    simp only [perform, onValues] at h
    split at h
    · exact absurd h (by simp)
    · split at h
      · exact absurd h (by simp)
      · cases h
        exact Nat.le_refl _
  | onNumbers f =>
    simp only [perform, onNumbers] at h
    split at h
    · exact absurd h (by simp)
    · split at h
      · exact absurd h (by simp)
      · split at h
        · cases h
          exact Nat.le_refl _
        · exact absurd h (by simp [failType, report])

/-- **A step that does not halt has read a byte and moved past it.** -/
theorem State.lt_of_step_eq_next {c : Chunk} {s t : State} (h : s.step c = .next t) :
    s.offset < c.size ∧ s.offset < t.offset := by
  unfold step at h
  split at h
  · exact absurd h (by simp)
  · rename_i byte next hfetch
    obtain ⟨hbyte, rfl⟩ := Chunk.fetch?_eq_some_iff.1 hfetch
    split at h
    · exact absurd h (by simp)
    · exact ⟨Chunk.lt_size_of_byte? hbyte, offset_le_of_perform h⟩

namespace State

/-- What is written before a step when the run is traced. -/
def traceText (c : Chunk) (s : State) : String :=
  s.stack.picture ++ (Listing.rowAt c s.offset).text ++ "\n"

/-- Writes the trace of the step to come. -/
def writeTrace (c : Chunk) (s : State) : State :=
  { s with out := s.out.write (s.traceText c) }

/-- **One turn of a run**: the trace, if it is asked for and can be written, and the
step. -/
def turn (tracing : Bool) (c : Chunk) (s : State) : Transition :=
  if tracing then
    match s.out.writeError? (s.traceText c) with
    | some e => .halt (s.writeTrace c) (.outputFailed e)
    | none => (s.writeTrace c).step c
  else s.step c

/-- A turn that does not halt has read a byte and moved past it. -/
theorem lt_of_turn_eq_next {tracing : Bool} {c : Chunk} {s t : State}
    (h : s.turn tracing c = .next t) : s.offset < c.size ∧ s.offset < t.offset := by
  unfold turn at h
  split at h
  · split at h
    · exact absurd h (by simp)
    · have hlt := lt_of_step_eq_next h
      exact hlt
  · exact lt_of_step_eq_next h

/-- **Runs a chunk** from a state until it halts. -/
def run (tracing : Bool) (c : Chunk) (s : State) : State × Halt :=
  match _h : s.turn tracing c with
  | .next t => t.run tracing c
  | .halt t reason => (t, reason)
termination_by c.size - s.offset
decreasing_by
  have := lt_of_turn_eq_next _h
  omega

/-- A run whose turn goes on is the run from where the turn leads. -/
theorem run_of_next {tracing : Bool} {c : Chunk} {s t : State}
    (h : s.turn tracing c = .next t) : s.run tracing c = t.run tracing c := by
  rw [run]
  split
  · rename_i u hu
    rw [Transition.next.inj (hu.symm.trans h)]
  · rename_i u r hu
    exact absurd (hu.symm.trans h) (by simp)

/-- A run whose turn halts is over. -/
theorem run_of_halt {tracing : Bool} {c : Chunk} {s t : State} {reason : Halt}
    (h : s.turn tracing c = .halt t reason) : s.run tracing c = (t, reason) := by
  rw [run]
  split
  · rename_i u hu
    exact absurd (hu.symm.trans h) (by simp)
  · rename_i u r hu
    obtain ⟨rfl, rfl⟩ := Transition.halt.injEq .. ▸ hu.symm.trans h
    rfl

end State

end StackMachine

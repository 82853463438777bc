import StackMachine.Proofs.Safety
import StackMachine.Proofs.Streams

/-!
# Complete inputs

An input of a dialogue is run once it is complete, and whether it is complete is judged from the
name of its last instruction alone, before anybody has tried to assemble it. Still the judgement
is good enough. A complete input that can be assembled has an instruction that ends the run, and
no run gets past that one, so the end of the chunk is out of reach: whatever the session was
asked before and however little its streams take, a complete input is turned down, fails over its
operands, fails over a stream, or hands back a value (`Session.submit_of_isComplete`).

In the last case nothing is left of the past either. The input starts on an emptied stack, and a
run that gets as far as a value has evaluated its source, traced or not
(`State.evaluate_of_returned`). So what lies on the stack afterwards is a matter of the source.
-/

namespace StackMachine

variable {c : Chunk}

/-- A complete source has an instruction that ends the run. -/
theorem Source.exists_ret_of_isComplete {source : String} (h : isComplete source = true) :
    ∃ line ∈ lines source, Opcode.ofMnemonic? line.mnemonic = some .ret := by
  unfold isComplete at h
  split at h
  · exact nomatch h
  · rename_i line hlast
    exact ⟨line, List.mem_of_getLast? hlast, of_decide_eq_true h⟩

namespace State

theorem eq_of_finishReason {out : Sink} {v w : Value}
    (h : finishReason out w = .returned v) : w = v := by
  unfold finishReason at h
  split at h
  · exact nomatch h
  · exact Halt.returned.inj h

/-- **A run that hands back a value has evaluated the instructions ahead**, whether it was traced
and whatever its sinks take. -/
theorem evaluate_of_returned {tracing : Bool} {s : State} {pooled : Nat}
    {lines : List Source.Line} {v : Value} (laid : Encodes c s.offset pooled lines)
    (h : (s.run tracing c).2 = .returned v) :
    evaluate lines s.stack.values = ⟨.returned v, (s.run tracing c).1.stack.values⟩ := by
  induction lines generalizing s pooled with
  | nil =>
    rcases turn_eq_step_or tracing c s with ⟨out, hturn⟩ | ⟨t, e, hturn⟩
    · have hdone : Encodes c { s with out := out }.offset pooled [] := laid
      rw [run_of_halt (hturn.trans (step_of_done hdone).2)] at h
      exact nomatch h
    · rw [run_of_halt hturn] at h
      exact nomatch h
  | cons line rest ih =>
    rcases turn_eq_step_or tracing c s with ⟨out, hturn⟩ | ⟨t, e, hturn⟩
    · have hlaid : Encodes c { s with out := out }.offset pooled (line :: rest) := laid
      obtain ⟨skip, pooled', tail, enacts⟩ := step_of_encodes hlaid
      generalize hstep : step c { s with out := out } = transition at enacts
      rw [hstep] at hturn
      cases hreact : line.react s.stack.values with
      | go values =>
        rw [hreact] at enacts
        cases enacts with
        | go stack hstack =>
          rw [run_of_next hturn] at h ⊢
          rw [evaluate_of_go hreact, ← hstack]
          exact ih (s := ⟨s.offset + 1 + skip, stack, out, s.err⟩) tail h
      | finish w values =>
        rw [hreact] at enacts
        cases enacts with
        | finish _ stack hstack =>
          rw [run_of_halt hturn] at h ⊢
          rw [evaluate_of_finish hreact, ← hstack, eq_of_finishReason h]
      | fault e =>
        rw [hreact] at enacts
        cases enacts with
        | fault =>
          rw [run_of_halt hturn] at h
          exact nomatch h
      | stuck =>
        rw [hreact] at enacts
        cases enacts with
        | stuck u e =>
          rw [run_of_halt hturn] at h
          exact nomatch h
    · rw [run_of_halt hturn] at h
      exact nomatch h

end State

namespace Machine

/-- Once an orderly run is flushed, there is a value, or an error of the operands or of the
output. -/
theorem afterFlush_cases (out : Sink) {reason : Halt} (h : reason.IsOrderly) :
    (∃ v, afterFlush out reason = .value v) ∨
      (∃ e, afterFlush out reason = .failure (.typeError e)) ∨
      ∃ text, afterFlush out reason = .failure (.output text) := by
  unfold afterFlush
  cases reason with
  | returned v =>
    cases out.flushError? with
    | none => exact Or.inl ⟨v, rfl⟩
    | some e => exact Or.inr (Or.inr ⟨e.message, rfl⟩)
  | typeError e => exact Or.inr (Or.inl ⟨e, rfl⟩)
  | outputFailed e => exact Or.inr (Or.inr ⟨e.message, rfl⟩)
  | malformed m => exact absurd h id
  | underflow u => exact absurd h id

theorem eq_returned_of_afterFlush {out : Sink} {reason : Halt} {v : Value}
    (h : afterFlush out reason = .value v) : reason = .returned v := by
  unfold afterFlush at h
  cases reason with
  | returned w =>
    cases hflush : out.flushError? with
    | none =>
      rw [hflush] at h
      exact congrArg Halt.returned (Outcome.value.inj h)
    | some e =>
      rw [hflush] at h
      exact nomatch h
  | typeError e => exact nomatch h
  | outputFailed e => exact nomatch h
  | malformed m => exact nomatch h
  | underflow u => exact nomatch h

/-- **The chunk of a complete source ends in order**, on any stack and with any sinks. -/
theorem isOrderly_of_isComplete {source : String} (h : assemble source = .ok c)
    (complete : Source.isComplete source = true) (m : Machine) :
    (m.start.run m.settings.tracing c).2.IsOrderly := by
  rcases (m.faces_start h).run_cases m.settings.tracing with horderly | ⟨-, hnone⟩
  · exact horderly
  · obtain ⟨line, hmem, hret⟩ := Source.exists_ret_of_isComplete complete
    exact absurd hret (hnone line hmem)

/-- So a machine that runs it hands back a value, or fails over its operands or its output. -/
theorem execute_of_isComplete {source : String} (h : assemble source = .ok c)
    (complete : Source.isComplete source = true) (m : Machine) :
    (∃ v, (m.execute c).2 = .value v) ∨ (∃ e, (m.execute c).2 = .failure (.typeError e)) ∨
      ∃ text, (m.execute c).2 = .failure (.output text) := by
  rw [execute_snd]
  exact afterFlush_cases _ (isOrderly_of_isComplete h complete m)

/-- **A machine that hands back a value on an empty stack has evaluated its source**, and is left
with the values that the evaluation leaves. -/
theorem meaning_of_execute {source : String} (h : assemble source = .ok c) {m : Machine}
    (hempty : m.stack.values = []) {v : Value} (hv : (m.execute c).2 = .value v) :
    meaning source [] = ⟨.returned v, (m.execute c).1.stack.values⟩ := by
  have hreason : (m.start.run m.settings.tracing c).2 = .returned v :=
    eq_returned_of_afterFlush hv
  have hevaluate : evaluate (Source.lines source) m.stack.values
      = ⟨.returned v, (m.start.run m.settings.tracing c).1.stack.values⟩ :=
    State.evaluate_of_returned (encodes_of_assemble h) hreason
  rw [hempty] at hevaluate
  exact hevaluate

end Machine

namespace Session

/-- Listing and running a chunk fails over the listing, or runs the chunk with the listing in the
output. -/
theorem listAndExecute_cases (s : Session) (c : Chunk) :
    (∃ text, (s.listAndExecute c).2 = .failure (.file text)) ∨
      ∃ out, s.listAndExecute c = (s.onSink out).execute c := by
  rw [listAndExecute_eq_deliver]
  cases s.machine.out.deliver (s.heading c) with
  | ok listed => exact Or.inr ⟨listed, rfl⟩
  | error stop => exact Or.inl ⟨_, rfl⟩

/-- **A complete input never meets the end of its chunk or the bottom of the stack.** Whatever a
session holds, how it is set and how much its streams take, the input hands back a value, is
turned down, fails over its operands, or fails over a stream or a listing. If it hands back a
value, that is the value which the source means on an empty stack, and so are the values that are
left: nothing of the session shows in them. -/
theorem submit_of_isComplete {source : String} (complete : Source.isComplete source = true)
    (s : Session) {t : Session} {outcome : Outcome} (hsubmit : s.submit source = (t, outcome)) :
    ((∃ v, outcome = .value v) ∨ (∃ e, outcome = .failure (.rejected e)) ∨
        (∃ e, outcome = .failure (.typeError e)) ∨ (∃ text, outcome = .failure (.output text)) ∨
        ∃ text, outcome = .failure (.file text)) ∧
      ∀ v, outcome = .value v →
        (meaning source []).verdict = .returned v ∧
          t.machine.stack.contents = (meaning source []).values.reverse := by
  cases h : assemble source with
  | error r =>
    have hrejected : outcome = .failure (.rejected r.toSourceError) := by
      rw [← (evaluate_of_error (s := s.reset) h).2]
      exact (congrArg Prod.snd hsubmit).symm
    rw [hrejected]
    exact ⟨Or.inr (Or.inl ⟨_, rfl⟩), fun v hv => nomatch hv⟩
  | ok c =>
    have hlisted : listAndExecute { s.reset with assembly := (s.assembly.next source).1 } c
        = (t, outcome) := (evaluate_of_assemble h s.reset).symm.trans hsubmit
    rcases listAndExecute_cases { s.reset with assembly := (s.assembly.next source).1 } c with
      ⟨text, hfile⟩ | ⟨out, hexecute⟩
    · rw [hlisted] at hfile
      rw [show outcome = .failure (.file text) from hfile]
      exact ⟨Or.inr (Or.inr (Or.inr (Or.inr ⟨text, rfl⟩))), fun v hv => nomatch hv⟩
    · -- The machine that runs the chunk has an empty stack and the listing in its output.
      let m : Machine := { s.machine.reset with out := out }
      have hanswer := hlisted.symm.trans hexecute
      have houtcome : outcome = (m.execute c).2 := congrArg Prod.snd hanswer
      have hstack : t.machine.stack = (m.execute c).1.stack :=
        congrArg (fun answer : Session × Outcome => answer.1.machine.stack) hanswer
      refine ⟨?_, fun v hv => ?_⟩
      · rw [houtcome]
        rcases Machine.execute_of_isComplete h complete m with hv | he | htext
        · exact Or.inl hv
        · exact Or.inr (Or.inr (Or.inl he))
        · exact Or.inr (Or.inr (Or.inr (Or.inl htext)))
      · have hmeaning := Machine.meaning_of_execute h (m := m) rfl (houtcome.symm.trans hv)
        rw [hmeaning, hstack]
        exact ⟨rfl, rfl⟩

/-- An input with two instructions that end a run, listed and traced in a session that was left
with a value. It hands back its own value, and what is left is its own as well. -/
theorem submit_two_endings :
    ∃ s t : Session, s.listing = true ∧ s.machine.settings.tracing = true ∧
      s.machine.stack.contents = [.bool true] ∧
      Source.isComplete "NIL\nFALSE\nret\nRET ; again" = true ∧
      s.submit "NIL\nFALSE\nret\nRET ; again" = (t, .value (.bool false)) ∧
      t.machine.stack.contents = [.nil] := by
  let s : Session :=
    ⟨⟨{ tracing := true }, (OperandStack.ofCapacity 1).push (.bool true), {}, {}⟩, true, {}⟩
  have hcomplete : Source.isComplete "NIL\nFALSE\nret\nRET ; again" = true := by decide +kernel
  have hvalue : (s.submit "NIL\nFALSE\nret\nRET ; again").2 = .value (.bool false) := by
    decide +kernel
  have hmeaning : meaning "NIL\nFALSE\nret\nRET ; again" []
      = ⟨.returned (.bool false), [.nil]⟩ := by
    decide +kernel
  have hsubmit : s.submit "NIL\nFALSE\nret\nRET ; again"
      = ((s.submit "NIL\nFALSE\nret\nRET ; again").1, .value (.bool false)) :=
    Prod.ext rfl hvalue
  obtain ⟨-, hleft⟩ := submit_of_isComplete hcomplete s hsubmit
  have hcontents := (hleft _ rfl).2
  rw [hmeaning] at hcontents
  exact ⟨s, _, rfl, rfl, rfl, hcomplete, hsubmit, hcontents⟩

end Session

end StackMachine

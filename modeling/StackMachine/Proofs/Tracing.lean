import StackMachine.Proofs.Columns
import StackMachine.Proofs.Streams

/-!
# Traces and listings

A trace shows each instruction before it is performed, whatever the chunk holds at that place,
so the machine has to show bytes that it has not looked at yet. Two things are asked of it.

A trace must not change what it shows. A traced run ends as the run would have ended without a
trace, and what it writes is the trace of every turn and then what the other run writes
(`State.run_traced`). Both runs are followed at once, and the only difference between their
states is what their outputs have got so far.

A trace must agree with the listing. The machine finds the next instruction by reading bytes,
the listing by the width of its rows, and in a chunk of any bytes they might lose each other at
the first byte that is no instruction. They do not, because the machine stops there
(`Listing.run_keeps_to_rows`).
-/

namespace StackMachine

namespace State

variable {tracing : Bool} {c : Chunk} {s t : State}

/-! ## A traced run and the run without a trace -/

theorem texts_foreword (c : Chunk) (s : State) :
    Write.texts (s.foreword true c) = s.traceText c := by
  show Write.texts [⟨s.traceText c, s.offset, s.stack⟩] = s.traceText c
  rw [Write.texts_cons, Write.texts_nil, String.append_empty]

/-- The text of the traces of so many turns. -/
def traceTexts (c : Chunk) (ts : List State) : String :=
  String.join (ts.map fun t => t.stack.picture ++ (Listing.rowAt c t.offset).text ++ "\n")

theorem traceTexts_cons (c : Chunk) (s : State) (ts : List State) :
    traceTexts c (s :: ts) = s.traceText c ++ traceTexts c ts := String.join_cons

theorem traceTexts_singleton (c : Chunk) (s : State) : traceTexts c [s] = s.traceText c := by
  rw [traceTexts_cons]
  exact String.append_empty

/-- On sinks that take everything, a step goes on, or it halts with the same words for all of
them. -/
theorem step_on_free (c : Chunk) (offset : Nat) (stack : OperandStack) :
    (∃ next left, ∀ out err,
        step c ⟨offset, stack, out, err⟩ = .next ⟨next, left, out, err⟩) ∨
      ∃ last left printed reason, ∀ out err, out.limit = none →
        step c ⟨offset, stack, out, err⟩
          = .halt ⟨last, left, out.gain printed, err.write reason.complaint⟩ reason := by
  have hfree : ({} : Sink).limit = none := rfl
  refine (step_on_sinks c offset stack hfree {}).imp id ?_
  rintro ⟨t, reason, -, h⟩
  refine ⟨t.offset, t.stack, Write.texts (afterword t reason), reason, fun out err hout => ?_⟩
  rw [h, Sink.deliver_of_limit_eq_none hout]
  rfl

/-- **A traced run is the run without a trace**, with the traces of its turns in front of what
that run writes. The two may write to different sinks as long as these take everything. -/
theorem run_traced_onto (hfree : s.out.limit = none) {out : Sink} (hout : out.limit = none) :
    ∃ printed,
      (s.run false c).1.out = s.out.gain printed ∧
      run true c ⟨s.offset, s.stack, out, s.err⟩
        = (⟨(s.run false c).1.offset, (s.run false c).1.stack,
              out.gain (traceTexts c (s.turns false c) ++ printed), (s.run false c).1.err⟩,
            (s.run false c).2) := by
  -- The induction is along the run without a trace. The output of the other run is left open,
  -- since it is ahead by one more trace after every turn.
  induction s using run_induction false c generalizing out with
  | turn s ih =>
    have htraced : turn true c ⟨s.offset, s.stack, out, s.err⟩
        = step c ⟨s.offset, s.stack, out.gain (s.traceText c), s.err⟩ := by
      rw [← texts_foreword]
      exact turn_of_limit_eq_none hout
    have hgain : (out.gain (s.traceText c)).limit = none := hout
    rcases step_on_free c s.offset s.stack with
      ⟨next, left, h⟩ | ⟨last, left, printed, reason, h⟩
    · have hnext : s.turn false c = .next ⟨next, left, s.out, s.err⟩ := h s.out s.err
      obtain ⟨printed, hprinted, hrest⟩ := ih _ hnext hfree hgain
      refine ⟨printed, ?_, ?_⟩
      · rw [run_of_next hnext]
        exact hprinted
      · rw [run_of_next (htraced.trans (h _ _)), hrest, run_of_next hnext, turns_of_next hnext,
          traceTexts_cons, Sink.gain_gain, String.append_assoc]
    · have hend := h s.out s.err hfree
      rw [← turn_false] at hend
      refine ⟨printed, ?_, ?_⟩
      · rw [run_of_halt hend]
      · rw [run_of_halt (htraced.trans (h _ _ hgain)), run_of_halt hend, turns_of_halt hend,
          traceTexts_singleton, Sink.gain_gain]

/-- **Tracing changes nothing but the output.** On an output that takes everything, a run ends
in the same way whether it is traced or not, for chunks of any bytes and from any offset: with
the same offset, the same stack with the same account of its room, and the same diagnostics. The
output of the traced run is, for every turn in order, the picture of the stack before it and
the row at its offset, and after all of them the output of the run without a trace. -/
theorem run_traced (hout : s.out.limit = none) :
    (s.run true c).2 = (s.run false c).2 ∧
      (s.run true c).1.offset = (s.run false c).1.offset ∧
      (s.run true c).1.stack = (s.run false c).1.stack ∧
      (s.run true c).1.err = (s.run false c).1.err ∧
      ∃ printed : String,
        (s.run false c).1.out.written = s.out.written ++ printed.toUTF8 ∧
        (s.run true c).1.out.written = s.out.written
          ++ (String.join ((s.turns false c).map fun t =>
                t.stack.picture ++ (Listing.rowAt c t.offset).text ++ "\n")
              ++ printed).toUTF8 := by
  obtain ⟨printed, hprinted, htraced⟩ := run_traced_onto (c := c) hout hout
  have hrun : s.run true c = _ := htraced
  rw [hrun]
  refine ⟨rfl, rfl, rfl, rfl, printed, ?_, rfl⟩
  rw [hprinted]
  rfl

/-- A sum of truth values that lacks its left operand, under a line table that is too short: the
trace shows both instructions, and the run gives up over the second. -/
theorem run_traced_underflow :
    ∃ (c : Chunk) (s : State), c = ⟨#[2, 9], #[], #[7]⟩ ∧ s.out.limit = none ∧
      (s.run true c).2 = .underflow .empty ∧ (s.run true c).1.offset = 2 ∧
      ∃ printed : String,
        (s.run false c).1.out.written = s.out.written ++ printed.toUTF8 ∧
        (s.run true c).1.out.written = s.out.written
          ++ ("\n0000    7 TRUE\n[ true ]\n\n0001    ? AND\n" ++ printed).toUTF8 := by
  obtain ⟨hreason, hoffset, -, -, printed, hprinted, htraced⟩ :=
    run_traced (c := ⟨#[2, 9], #[], #[7]⟩) (s := ⟨0, .ofCapacity 1, {}, {}⟩) rfl
  have hrun : (State.run false ⟨#[2, 9], #[], #[7]⟩ ⟨0, .ofCapacity 1, {}, {}⟩).2
      = .underflow .empty := by decide +kernel
  have hlast : (State.run false ⟨#[2, 9], #[], #[7]⟩ ⟨0, .ofCapacity 1, {}, {}⟩).1.offset = 2 := by
    decide +kernel
  have htrace : String.join ((State.turns false ⟨#[2, 9], #[], #[7]⟩
      ⟨0, .ofCapacity 1, {}, {}⟩).map fun t => t.stack.picture
        ++ (Listing.rowAt ⟨#[2, 9], #[], #[7]⟩ t.offset).text ++ "\n")
      = "\n0000    7 TRUE\n[ true ]\n\n0001    ? AND\n" := by decide +kernel
  rw [htrace] at htraced
  exact ⟨_, _, rfl, rfl, hreason.trans hrun, hoffset.trans hlast, printed, hprinted, htraced⟩

/-! ## The rows that a run comes by -/

/-- Whether a turn that begins in a state gets to read a byte: the trace, if there is to be one,
has to fit, and the code must not be over. -/
def reads (tracing : Bool) (c : Chunk) (s : State) : Bool :=
  (!tracing || s.out.fits (s.traceText c)) && (c.fetch? s.offset).isSome

theorem reads_iff : s.reads tracing c = true ↔
    (tracing = true → s.out.fits (s.traceText c) = true) ∧ s.offset < c.size := by
  have hfetch : (c.fetch? s.offset).isSome = true ↔ s.offset < c.size := by
    rw [Chunk.fetch?, Option.isSome_map]
    show (c.code[s.offset]?).isSome = true ↔ s.offset < c.code.size
    simp
  rw [reads, Bool.and_eq_true_iff, hfetch]
  cases tracing <;> simp

/-- **The offsets at which a run reads a code byte**, in the order in which it does. -/
def fetches (tracing : Bool) (c : Chunk) (s : State) : List Nat :=
  ((s.turns tracing c).filter (reads tracing c)).map State.offset

/-- The rows for the offsets of the turns of a run: those that a trace shows. -/
def turnRows (tracing : Bool) (c : Chunk) (s : State) : List Listing.Row :=
  (s.turns tracing c).map fun t => Listing.rowAt c t.offset

/-- **A step that goes on has passed a whole instruction**, and leads to the next row. -/
theorem of_step_eq_next (h : s.step c = .next t) :
    t.out = s.out ∧ t.offset = (Listing.rowAt c s.offset).next ∧ t.offset ≤ c.size := by
  rcases acts_step c s.offset s.stack with
    ⟨next, stack, behind, inside, hgo⟩ | ⟨v, last, stack, hhalt⟩ | ⟨e, last, stack, hhalt⟩ |
      ⟨reason, blame, last, stack, hhalt⟩
  · have ht : t = ⟨next, stack, s.out, s.err⟩ :=
      Transition.next.inj (h.symm.trans (hgo s.out s.err))
    rw [ht]
    exact ⟨rfl, behind, inside⟩
  · exact nomatch h.symm.trans (hhalt s.out s.err)
  · exact nomatch h.symm.trans (hhalt s.out s.err)
  · exact nomatch h.symm.trans (hhalt s.out s.err)

/-- A step runs past the end only where there is no byte. -/
theorem size_le_of_step_eq_pastEnd {n : Nat}
    (h : s.step c = .halt t (.malformed (.pastEnd n))) : c.size ≤ s.offset := by
  rcases acts_step c s.offset s.stack with
    ⟨next, stack, behind, inside, hgo⟩ | ⟨v, last, stack, hhalt⟩ | ⟨e, last, stack, hhalt⟩ |
      ⟨reason, blame, last, stack, hhalt⟩
  · exact nomatch h.symm.trans (hgo s.out s.err)
  · have hreason := (Transition.halt.inj (h.symm.trans (hhalt s.out s.err))).2
    unfold finishReason at hreason
    split at hreason <;> exact nomatch hreason
  · exact nomatch (Transition.halt.inj (h.symm.trans (hhalt s.out s.err))).2
  · have hreason := (Transition.halt.inj (h.symm.trans (hhalt s.out s.err))).2
    subst hreason
    cases blame with
    | pastEnd hle => exact hle
    | malformed hother => exact absurd rfl (hother n)

theorem step_of_size_le (h : c.size ≤ s.offset) :
    s.step c = .halt s (.malformed (.pastEnd s.offset)) := by
  have hbyte : c.byte? s.offset = none := Array.getElem?_eq_none h
  rw [step, Chunk.fetch?, hbyte]
  rfl

/-- A turn that goes on has read a byte and led to the next row. -/
theorem of_turn_eq_next (h : s.turn tracing c = .next t) :
    s.reads tracing c = true ∧ t.offset = (Listing.rowAt c s.offset).next ∧
      t.offset ≤ c.size := by
  rw [turn_eq_deliver] at h
  cases hfore : s.out.deliver (s.foreword tracing c) with
  | error stop =>
    rw [hfore] at h
    cases h
  | ok out =>
    rw [hfore] at h
    obtain ⟨-, behind, inside⟩ := of_step_eq_next h
    have hlt : s.offset < c.size :=
      Nat.lt_of_lt_of_le (behind ▸ (Listing.rowAt c s.offset).lt_next) inside
    refine ⟨?_, behind, inside⟩
    refine reads_iff.2 ⟨fun htracing => ?_, hlt⟩
    by_contra hfull
    rw [foreword, if_pos htracing, Sink.deliver, if_neg hfull] at hfore
    cases hfore

theorem fetches_of_halt {reason : Halt} (h : s.turn tracing c = .halt t reason) :
    s.fetches tracing c = if s.reads tracing c then [s.offset] else [] := by
  rw [fetches, turns_of_halt h, List.filter_cons]
  by_cases hreads : s.reads tracing c = true
  · rw [if_pos hreads, if_pos hreads]
    rfl
  · rw [if_neg hreads, if_neg hreads]
    rfl

/-- **A run reads where the rows of the listing are**, from its first offset on and in their
order. -/
theorem fetches_isPrefix (tracing : Bool) (c : Chunk) (s : State) :
    s.fetches tracing c <+: (Listing.rowsFrom c s.offset).map Listing.Row.offset := by
  induction s using run_induction tracing c with
  | turn s ih =>
    cases hturn : s.turn tracing c with
    | next t =>
      obtain ⟨hreads, behind, inside⟩ := of_turn_eq_next hturn
      have hlt := (lt_of_turn_eq_next hturn).1
      rw [fetches, turns_of_next hturn, List.filter_cons_of_pos hreads, List.map_cons,
        Listing.rowsFrom_of_lt hlt, List.map_cons, ← behind]
      exact (List.prefix_cons_inj _).2 (ih t hturn)
    | halt t reason =>
      rw [fetches_of_halt hturn]
      by_cases hreads : s.reads tracing c = true
      · have hlt : s.offset < c.size := (reads_iff.1 hreads).2
        rw [if_pos hreads, Listing.rowsFrom_of_lt hlt, List.map_cons]
        exact (List.prefix_cons_inj _).2 List.nil_prefix
      · rw [if_neg hreads]
        exact List.nil_prefix

/-- **The rows that a run comes by are those of the listing**, on a sink that takes everything:
all of them and one more for the end of the code if the run gets there, and otherwise the first
few. -/
theorem turnRows_cases (hfree : s.out.limit = none) (hstart : s.offset ≤ c.size) :
    ((s.run tracing c).2 = .malformed (.pastEnd c.size) ∧
        s.turnRows tracing c = Listing.rowsFrom c s.offset ++ [Listing.rowAt c c.size]) ∨
      ((∀ n, (s.run tracing c).2 ≠ .malformed (.pastEnd n)) ∧
        s.turnRows tracing c <+: Listing.rowsFrom c s.offset) := by
  induction s using run_induction tracing c with
  | turn s ih =>
    have hstep : s.turn tracing c = _ := turn_of_limit_eq_none hfree
    cases hturn : s.turn tracing c with
    | next t =>
      obtain ⟨hsink, behind, inside⟩ := of_step_eq_next (hstep.symm.trans hturn)
      have hlt := (lt_of_turn_eq_next hturn).1
      have hlimit : t.out.limit = none := by
        rw [hsink]
        exact hfree
      have hrows : s.turnRows tracing c = Listing.rowAt c s.offset :: t.turnRows tracing c := by
        rw [turnRows, turns_of_next hturn]
        rfl
      rw [run_of_next hturn, hrows, Listing.rowsFrom_of_lt hlt, ← behind]
      refine (ih t hturn hlimit inside).imp ?_ ?_
      · rintro ⟨hreason, hall⟩
        exact ⟨hreason, congrArg (Listing.rowAt c s.offset :: ·) hall⟩
      · rintro ⟨hreason, hsome⟩
        exact ⟨hreason, (List.prefix_cons_inj _).2 hsome⟩
    | halt t reason =>
      have hrows : s.turnRows tracing c = [Listing.rowAt c s.offset] := by
        rw [turnRows, turns_of_halt hturn]
        rfl
      rw [run_of_halt hturn, hrows]
      -- Inside the code a run may end for any reason but one, and behind it for no other.
      by_cases hlt : s.offset < c.size
      · refine Or.inr ⟨?_, ?_⟩
        · rintro n rfl
          have hle := size_le_of_step_eq_pastEnd (hstep.symm.trans hturn)
          exact Nat.not_le.2 hlt hle
        · rw [Listing.rowsFrom_of_lt hlt]
          exact (List.prefix_cons_inj _).2 List.nil_prefix
      · have hend : s.offset = c.size := Nat.le_antisymm hstart (Nat.le_of_not_lt hlt)
        have hpast := (hstep.symm.trans hturn).symm.trans (step_of_size_le (Nat.le_of_not_lt hlt))
        refine Or.inl ⟨?_, ?_⟩
        · rw [(Transition.halt.inj hpast).2]
          exact congrArg (fun n => Halt.malformed (.pastEnd n)) hend
        · rw [Listing.rowsFrom_of_eq hend, hend]
          rfl

theorem texts_flatMap_foreword (c : Chunk) (ts : List State) :
    Write.texts (ts.flatMap (foreword true c)) = traceTexts c ts := by
  induction ts with
  | nil => rfl
  | cons s ts ih =>
    rw [List.flatMap_cons, Write.texts_append, texts_foreword, ih, traceTexts_cons]

end State

/-- What a session writes that lists a chunk and traces it: the listing, the trace of every
turn, and what the run has to say in the end. -/
theorem Session.texts_programWrites {s : Session} {c : Chunk} (hlisting : s.listing = true)
    (htracing : s.machine.settings.tracing = true) :
    Write.texts (s.programWrites c)
      = Listing.text c Listing.programName
        ++ State.traceTexts c ((s.prefaced c).start.turns true c)
        ++ Write.texts (State.afterword ((s.prefaced c).start.run true c).1
            ((s.prefaced c).start.run true c).2) := by
  rw [programWrites, heading, if_pos hlisting, htracing, State.writes, Write.texts_append,
    Write.texts_cons, Write.texts_nil, String.append_empty, Write.texts_append,
    State.texts_flatMap_foreword, String.append_assoc]

/-- On an output that takes everything, listing and running a chunk writes all it has to. -/
theorem Session.written_listAndExecute {s : Session} (hout : s.machine.out.limit = none)
    (c : Chunk) :
    (s.listAndExecute c).1.machine.out.written
      = s.machine.out.written ++ (Write.texts (s.programWrites c)).toUTF8 := by
  have hconclude : s.listAndExecute c = s.conclude c s.machine.out :=
    listAndExecute_onSink hout c s.machine.out
  have hshown := shown_conclude_of_ok
    (Sink.deliver_of_limit_eq_none hout (s.programWrites c)) rfl
  rw [hconclude]
  exact congrArg Answer.printed hshown

namespace Listing

/-- Behind the last byte there is only the end to show. -/
theorem content_rowAt_size (c : Chunk) : (rowAt c c.size).content = .endOfCode := by
  have hbyte : c.byte? c.size = none := Array.getElem?_size
  show contentAt c c.size = .endOfCode
  rw [contentAt, hbyte]

/-- **The machine and the listing agree on where instructions begin.** In a chunk of any bytes,
the offsets at which a run from the first byte reads code bytes are the first few offsets that
the listing has rows for, traced or not, on any stack and any sinks. What is printed as the listing
is its heading and these rows, each of them a line that begins with its offset. So a session that
lists a chunk and then traces it shows first the rows of the listing, and then, with the stack
before each of them, rows of that same listing in the same order; if the run gets to the end of the
code, these are all its rows and a last one that says so. -/
theorem run_keeps_to_rows (c : Chunk) :
    (∀ (tracing : Bool) (stack : OperandStack) (out err : Sink),
        State.fetches tracing c ⟨0, stack, out, err⟩ <+: (rows c).map Row.offset) ∧
      text c programName
        = "== code ==\n" ++ String.join ((rows c).map fun r => r.text ++ "\n") ∧
      (∀ r ∈ rows c, '\n' ∉ r.text.toList ∧ offsetColumn r.text.toList = r.offset) ∧
      ∀ (s : Session) (start : State), s.listing = true →
        s.machine.settings.tracing = true → s.machine.out.limit = none →
        (s.prefaced c).start = start →
        (∃ printed : String,
          (s.listAndExecute c).1.machine.out.written = s.machine.out.written
            ++ (text c programName
              ++ String.join ((start.turns true c).map fun t =>
                  t.stack.picture ++ (rowAt c t.offset).text ++ "\n")
              ++ printed).toUTF8) ∧
          ((start.run true c).2 = .malformed (.pastEnd c.size) ∧
              (start.turns true c).map (fun t => rowAt c t.offset)
                = rows c ++ [rowAt c c.size] ∧
              (rowAt c c.size).content = .endOfCode ∧
              instructionColumn (rowAt c c.size).text.toList = "<end of chunk>".toList ∨
            (∀ n, (start.run true c).2 ≠ .malformed (.pastEnd n)) ∧
              (start.turns true c).map (fun t => rowAt c t.offset) <+: rows c) := by
  refine ⟨fun tracing stack out err => State.fetches_isPrefix tracing c _, rfl,
    fun r _ => ⟨r.isOneLine, offsetColumn_text r⟩, ?_⟩
  rintro s start hlisting htracing hout rfl
  refine ⟨⟨Write.texts (State.afterword ((s.prefaced c).start.run true c).1
    ((s.prefaced c).start.run true c).2), ?_⟩, ?_⟩
  · rw [Session.written_listAndExecute hout, Session.texts_programWrites hlisting htracing]
    rfl
  · have hfree : (s.prefaced c).start.out.limit = none := hout
    refine (State.turnRows_cases hfree (Nat.zero_le c.size)).imp ?_ id
    rintro ⟨hreason, hall⟩
    have hend : (rowAt c c.size).content = .endOfCode := content_rowAt_size c
    refine ⟨hreason, hall, hend, ?_⟩
    rw [instructionColumn_text]
    exact Content.text_eq_endOfCode_iff.2 hend

/-- A load whose operand byte is the code of another instruction, and no line for any byte: the
run does not take the operand for an instruction, and comes by both rows of the listing and the
end. -/
theorem run_keeps_to_rows_past_end :
    ∃ (c : Chunk) (s : Session), c = ⟨#[1, 0, 2], #[.number .one], #[]⟩ ∧
      (rows c).map Row.offset = [0, 2] ∧
      State.fetches false c s.machine.start <+: [0, 2] ∧
      text c programName
        = "== code ==\n0000    ? CONSTANT            0 '1.000000'\n0002    | TRUE\n" ∧
      (∀ r ∈ rows c, '\n' ∉ r.text.toList ∧ offsetColumn r.text.toList = r.offset) ∧
      s.listing = true ∧ s.machine.settings.tracing = true ∧ s.machine.out.limit = none ∧
      ((s.prefaced c).start.turns true c).map (fun t => rowAt c t.offset)
        = rows c ++ [rowAt c c.size] ∧
      instructionColumn (rowAt c c.size).text.toList = "<end of chunk>".toList := by
  obtain ⟨hfetches, hprinted, hlines, hrows⟩ :=
    run_keeps_to_rows ⟨#[1, 0, 2], #[.number .one], #[]⟩
  obtain ⟨-, hall⟩ := hrows ⟨⟨{ tracing := true }, .ofCapacity 1, {}, {}⟩, true, {}⟩ _ rfl rfl rfl
    rfl
  have hoffsets : (rows ⟨#[1, 0, 2], #[.number .one], #[]⟩).map Row.offset = [0, 2] := by
    decide +kernel
  have hshown : "== code ==\n" ++ String.join
      ((rows ⟨#[1, 0, 2], #[.number .one], #[]⟩).map fun r => r.text ++ "\n")
      = "== code ==\n0000    ? CONSTANT            0 '1.000000'\n0002    | TRUE\n" := by
    decide +kernel
  have hreason : (State.run true ⟨#[1, 0, 2], #[.number .one], #[]⟩
      (Session.prefaced ⟨⟨{ tracing := true }, .ofCapacity 1, {}, {}⟩, true, {}⟩
        ⟨#[1, 0, 2], #[.number .one], #[]⟩).start).2 = .malformed (.pastEnd 3) := by
    decide +kernel
  have hfirst := hfetches false (.ofCapacity 1) {} {}
  rw [hoffsets] at hfirst
  refine ⟨_, ⟨⟨{ tracing := true }, .ofCapacity 1, {}, {}⟩, true, {}⟩, rfl, hoffsets, hfirst,
    hprinted.trans hshown, hlines, rfl, rfl, rfl, ?_⟩
  rcases hall with ⟨-, hcovered, -, hend⟩ | ⟨hother, -⟩
  · exact ⟨hcovered, hend⟩
  · exact absurd hreason (hother 3)

end Listing

end StackMachine

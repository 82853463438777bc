import StackMachine.Proofs.History
import StackMachine.Proofs.Writes

/-!
# Streams that fill up

Neither of the two streams has a say in what a program does, but they matter in different
ways.

The stream for diagnostics does not matter at all. What fits of a diagnostic is written, and
that is the end of it: how a run ends, where it stands, its stack and its output are the same
whatever that stream takes (`State.run_complains`).

The output matters where it is full. Everything a request writes there, the listing, the trace
and the value, is one sequence of texts, and a stream with room for `n` bytes gets the first `n`
bytes of it. If that is all, nobody can tell the difference. If it is not, the request fails at
the text that did not fit, and everything is left as it was at that moment
(`Session.answer_onStream`). A stream that cannot be flushed turns a value into a failure and
changes nothing else.
-/

namespace StackMachine

namespace Sink

/-! ## Sinks with so much room -/

/-- The sink that takes so many bytes more, or everything. -/
def withRoom (out : Sink) (room : Option Nat) : Sink :=
  { out with limit := room.map (out.written.size + ·) }

/-- There is room for so many bytes more. -/
def HasRoom (out : Sink) (n : Nat) : Prop := out.limit = some (out.written.size + n)

theorem hasRoom_withRoom (out : Sink) (n : Nat) : (out.withRoom (some n)).HasRoom n := rfl

/-- The first bytes of two pieces, if they reach into the second. -/
theorem extract_append_of_le {first second : ByteArray} {n : Nat} (h : first.size ≤ n) :
    (first ++ second).extract 0 n = first ++ second.extract 0 (n - first.size) := by
  have hfirst : first.extract 0 (max n first.size) = first := ByteArray.extract_zero_max_size
  rw [Nat.max_eq_left h] at hfirst
  rw [ByteArray.extract_append, hfirst, Nat.zero_sub]

/-- The first bytes of two pieces, if they do not. -/
theorem extract_append_of_ge {first second : ByteArray} {n : Nat} (h : n ≤ first.size) :
    (first ++ second).extract 0 n = first.extract 0 n := by
  rw [ByteArray.extract_append, Nat.zero_sub, Nat.sub_eq_zero_of_le h, ByteArray.extract_same,
    ByteArray.append_empty]

namespace HasRoom

variable {out : Sink} {n : Nat} {text : String}

theorem fits_iff (h : out.HasRoom n) : out.fits text = true ↔ text.utf8ByteSize ≤ n := by
  rw [fits, h]
  show decide (out.written.size + text.utf8ByteSize ≤ out.written.size + n) = true ↔ _
  rw [decide_eq_true_iff, Nat.add_le_add_iff_left]

/-- As much is written as there is room for. -/
theorem written_write (h : out.HasRoom n) :
    (out.write text).written = out.written ++ text.toUTF8.extract 0 n := by
  show out.written ++ out.cut text = _
  rw [cut, h]
  show out.written ++ text.toUTF8.extract 0 (out.written.size + n - out.written.size) = _
  rw [Nat.add_sub_cancel_left]

theorem write_of_le (h : out.HasRoom n) (hle : text.utf8ByteSize ≤ n) :
    out.write text = out.gain text := by
  have hwritten : (out.write text).written = out.written ++ text.toUTF8 :=
    written_write_of_fits (h.fits_iff.2 hle)
  show { out with written := (out.write text).written } = out.gain text
  rw [hwritten, gain]

/-- What has arrived takes up room. -/
theorem gain (h : out.HasRoom n) (hle : text.utf8ByteSize ≤ n) :
    (out.gain text).HasRoom (n - text.utf8ByteSize) := by
  show out.limit = some ((out.written ++ text.toUTF8).size + (n - text.utf8ByteSize))
  rw [h, ByteArray.size_append]
  show _ = some (out.written.size + text.utf8ByteSize + (n - text.utf8ByteSize))
  rw [Nat.add_assoc, Nat.add_sub_cancel' hle]

/-- **Texts for which there is room arrive.** -/
theorem deliver_of_le {ws : List Write} (h : out.HasRoom n)
    (hle : (Write.texts ws).utf8ByteSize ≤ n) :
    out.deliver ws = .ok (out.gain (Write.texts ws)) := by
  induction ws generalizing out n with
  | nil => rw [deliver, Write.texts_nil, gain_empty]
  | cons w ws ih =>
    rw [Write.texts_cons, String.utf8ByteSize_append] at hle
    have hw : w.text.utf8ByteSize ≤ n := Nat.le_trans (Nat.le_add_right _ _) hle
    rw [deliver, if_pos (h.fits_iff.2 hw), h.write_of_le hw, ih (h.gain hw) (by omega),
      gain_gain, Write.texts_cons]

/-- **If there is not room for all of them, one text is cut**: those before it have arrived,
and in all the sink has as many bytes more as it had room for. -/
theorem deliver_of_lt {ws : List Write} (h : out.HasRoom n)
    (hlt : n < (Write.texts ws).utf8ByteSize) :
    ∃ before w after cut, ws = before ++ w :: after ∧
      (Write.texts before).utf8ByteSize ≤ n ∧
      n < (Write.texts before).utf8ByteSize + w.text.utf8ByteSize ∧
      out.deliver ws = .error (w, cut) ∧
      cut.written = out.written ++ (Write.texts ws).toUTF8.extract 0 n := by
  induction ws generalizing out n with
  | nil => exact absurd hlt (Nat.not_lt_zero n)
  | cons w ws ih =>
    have hsplit : (Write.texts (w :: ws)).toUTF8 = w.text.toUTF8 ++ (Write.texts ws).toUTF8 := by
      rw [Write.texts_cons]
      rfl
    rw [hsplit]
    by_cases hw : w.text.utf8ByteSize ≤ n
    · -- The first text arrives, and the one that is cut comes later.
      rw [Write.texts_cons, String.utf8ByteSize_append] at hlt
      obtain ⟨before, v, after, cut, hws, hle, hcut, hdeliver, hwritten⟩ :=
        ih (h.gain hw) (by omega)
      refine ⟨w :: before, v, after, cut, by rw [hws]; rfl, ?_, ?_, ?_, ?_⟩
      · rw [Write.texts_cons, String.utf8ByteSize_append]
        omega
      · rw [Write.texts_cons, String.utf8ByteSize_append]
        omega
      · rw [deliver, if_pos (h.fits_iff.2 hw), h.write_of_le hw, hdeliver]
      · have hfirst : w.text.toUTF8.size ≤ n := hw
        rw [hwritten, extract_append_of_le hfirst, ← ByteArray.append_assoc]
        rfl
    · refine ⟨[], w, ws, out.write w.text, rfl, Nat.zero_le n, ?_, ?_, ?_⟩
      · show n < 0 + w.text.utf8ByteSize
        omega
      · rw [deliver, if_neg (fun hfits => hw (h.fits_iff.1 hfits))]
      · have hfirst : n ≤ w.text.toUTF8.size := Nat.le_of_not_le hw
        rw [h.written_write, extract_append_of_ge hfirst]

end HasRoom

/-- Whether a sink can be flushed makes no difference to what is delivered. -/
theorem deliver_flushes (out : Sink) (flushes : Bool) (ws : List Write) :
    { out with flushes := flushes }.deliver ws
      = match out.deliver ws with
        | .ok arrived => .ok { arrived with flushes := flushes }
        | .error (w, cut) => .error (w, { cut with flushes := flushes }) := by
  induction ws generalizing out with
  | nil => rfl
  | cons w ws ih =>
    rw [deliver, deliver]
    by_cases h : out.fits w.text
    · rw [if_pos h, ← ih]
      exact if_pos h
    · rw [if_neg h]
      exact if_neg h

end Sink

namespace State

/-! ## The stream for diagnostics -/

theorem settle_complains (t : State) (reason : Halt) (delivery : Except (Write × Sink) Sink)
    (err other : Sink) :
    settle other t reason delivery
      = ({ (settle err t reason delivery).1 with
            err := other.write (settle err t reason delivery).2.complaint },
          (settle err t reason delivery).2) := by
  cases delivery with
  | ok out => rfl
  | error stop =>
    show (_, _) = (State.mk _ _ _ (other.write ""), _)
    rw [Sink.write_empty]
    rfl

/-- **A run on another stream for diagnostics is the same run**, with its complaint in that
other stream. -/
theorem run_with_err (tracing : Bool) (c : Chunk) (s : State) (err : Sink) :
    { s with err := err }.run tracing c
      = ({ (s.run tracing c).1 with err := err.write (s.run tracing c).2.complaint },
          (s.run tracing c).2) := by
  have hfree : { s with out := s.out.withRoom none }.out.limit = none := rfl
  have hs : s.run tracing c = _ := run_on_sinks hfree s.out s.err
  have hother : { s with err := err }.run tracing c = _ := run_on_sinks hfree s.out err
  rw [hother, settle_complains _ _ _ s.err err, ← hs]

/-- **The stream for diagnostics does not matter, and gets what it is due.** Whatever stream a
run is given for its diagnostics, it ends in the same way, at the same offset, with the same
stack and the same output. A stream that takes everything gets the text of a type error and a
line end if this is how the run ended, and nothing otherwise; one with room for `n` bytes gets
the first `n` of these bytes. -/
theorem run_complains (tracing : Bool) (c : Chunk) (s : State) :
    (∀ err : Sink,
        ({ s with err := err }.run tracing c).2 = (s.run tracing c).2 ∧
        ({ s with err := err }.run tracing c).1.offset = (s.run tracing c).1.offset ∧
        ({ s with err := err }.run tracing c).1.stack = (s.run tracing c).1.stack ∧
        ({ s with err := err }.run tracing c).1.out = (s.run tracing c).1.out) ∧
      ({ s with err := s.err.withRoom none }.run tracing c).1.err.written
        = s.err.written ++ (s.run tracing c).2.complaint.toUTF8 ∧
      ∀ n, ({ s with err := s.err.withRoom (some n) }.run tracing c).1.err.written
        = s.err.written ++ (s.run tracing c).2.complaint.toUTF8.extract 0 n := by
  refine ⟨fun err => ?_, ?_, fun n => ?_⟩
  · rw [run_with_err]
    exact ⟨rfl, rfl, rfl, rfl⟩
  · rw [run_with_err]
    rfl
  · rw [run_with_err]
    exact (s.err.hasRoom_withRoom n).written_write

end State

/-- **Running a chunk on another output**, from what the run writes if everything arrives. -/
theorem Machine.execute_on_sink {m : Machine} (hfree : m.out.limit = none) (c : Chunk)
    (out : Sink) {t : State} {reason : Halt}
    (hrun : m.start.run m.settings.tracing c = (t, reason)) :
    { m with out := out }.execute c
      = match out.deliver (m.start.writes m.settings.tracing c) with
        | .ok arrived =>
          (⟨m.settings, t.stack, arrived, m.err.write reason.complaint⟩,
            afterFlush arrived reason)
        | .error (w, cut) =>
          (⟨m.settings, w.stack, cut, m.err⟩, .failure (.output StreamError.full.message)) := by
  have hother : { m with out := out }.start.run m.settings.tracing c
      = State.settle m.err (m.start.run m.settings.tracing c).1
          (m.start.run m.settings.tracing c).2
          (out.deliver (m.start.writes m.settings.tracing c)) :=
    State.run_on_sinks (s := m.start) hfree out m.err
  rw [hrun] at hother
  rw [execute]
  dsimp only
  rw [hother]
  cases out.deliver (m.start.writes m.settings.tracing c) with
  | ok arrived => rfl
  | error stop => rfl

/-- What becomes of an outcome if the output cannot be flushed: a value does not come back, and
a failure is what it was. -/
def Outcome.unflushed : Outcome → Outcome
  | value _ => .failure (.output StreamError.closed.message)
  | outcome => outcome

namespace Session

/-! ## The output -/

/-- The same session with another output. -/
def onSink (s : Session) (out : Sink) : Session :=
  { s with machine := { s.machine with out := out } }

/-- The same session with an output that takes so many bytes more, or everything, and that can
be flushed or not. -/
def onStream (s : Session) (room : Option Nat) (flushes : Bool) : Session :=
  s.onSink { s.machine.out.withRoom room with flushes := flushes }

/-- What a session prints of a program before it runs, as texts on their way. -/
def heading (s : Session) (c : Chunk) : List Write :=
  if s.listing then [⟨Listing.text c Listing.programName, 0, s.machine.stack⟩] else []

/-- The machine when the program has been printed. -/
def prefaced (s : Session) (c : Chunk) : Machine := s.machine.print (s.preface c)

/-- What listing and running a chunk writes to the output, if that takes everything. -/
def programWrites (s : Session) (c : Chunk) : List Write :=
  s.heading c ++ (s.prefaced c).start.writes s.machine.settings.tracing c

/-- **What a request writes to the output**, if that takes everything: nothing for a source
that is turned down. -/
def writes (s : Session) (source : String) : List Write :=
  match assemble source with
  | .error _ => []
  | .ok c => s.programWrites c

/-- **What a request shows to the outside.** -/
structure Answer where
  /-- How it ended. -/
  outcome : Outcome
  /-- What the output holds then. -/
  printed : ByteArray
  /-- What the stream for diagnostics holds then. -/
  complained : ByteArray
  /-- The operand stack. -/
  stack : OperandStack

/-- What a session shows after a request. -/
def shown (answer : Session × Outcome) : Answer :=
  ⟨answer.2, answer.1.machine.out.written, answer.1.machine.err.written,
    answer.1.machine.stack⟩

/-- The answer to a source. -/
def answer (s : Session) (source : String) : Answer := shown (s.evaluate source)

/-- The same answer where the output cannot be flushed. -/
def Answer.unflushed (a : Answer) : Answer := { a with outcome := a.outcome.unflushed }

/-- How a request fails whose output is full: trouble with the listing counts as trouble with
a file. -/
def overflow (s : Session) (c : Chunk) (out : Sink) : Failure :=
  match out.deliver (s.heading c) with
  | .error _ => .file StreamError.full.message
  | .ok _ => .output StreamError.full.message

/-- How listing and running a chunk ends on an output, from how the run ends if everything
arrives and how far the delivery has come. -/
def conclude (s : Session) (c : Chunk) (out : Sink) : Session × Outcome :=
  let (t, reason) := (s.prefaced c).start.run s.machine.settings.tracing c
  match out.deliver (s.programWrites c) with
  | .ok arrived =>
    ({ s with machine :=
        ⟨s.machine.settings, t.stack, arrived, s.machine.err.write reason.complaint⟩ },
      Machine.afterFlush arrived reason)
  | .error (w, cut) =>
    ({ s with machine := ⟨s.machine.settings, w.stack, cut, s.machine.err⟩ },
      .failure (s.overflow c out))

/-- A listing is delivered, and then the chunk is run. -/
theorem listAndExecute_eq_deliver (s : Session) (c : Chunk) :
    s.listAndExecute c
      = match s.machine.out.deliver (s.heading c) with
        | .ok listed => (s.onSink listed).execute c
        | .error (w, cut) =>
          ({ s with machine := ⟨s.machine.settings, w.stack, cut, s.machine.err⟩ },
            .failure (.file StreamError.full.message)) := by
  unfold listAndExecute heading
  by_cases hlisting : s.listing = true
  · rw [if_pos hlisting, if_pos hlisting, Sink.deliver]
    dsimp only
    rw [Sink.writeError?]
    by_cases hfits : s.machine.out.fits (Listing.text c Listing.programName) = true
    · rw [if_pos hfits, if_pos hfits]
      rfl
    · rw [if_neg hfits, if_neg hfits]
      rfl
  · rw [if_neg hlisting, if_neg hlisting]
    rfl

/-- **Listing and running a chunk is the delivery of what this writes.** -/
theorem listAndExecute_onSink {s : Session} (hfree : s.machine.out.limit = none) (c : Chunk)
    (out : Sink) : (s.onSink out).listAndExecute c = s.conclude c out := by
  have hlisted : (s.onSink out).listAndExecute c
      = match out.deliver (s.heading c) with
        | .ok listed => (s.onSink listed).execute c
        | .error (w, cut) =>
          ({ s with machine := ⟨s.machine.settings, w.stack, cut, s.machine.err⟩ },
            .failure (.file StreamError.full.message)) :=
    (s.onSink out).listAndExecute_eq_deliver c
  rw [hlisted, conclude, overflow, programWrites, Sink.deliver_append]
  cases hheading : out.deliver (s.heading c) with
  | error stop => rfl
  | ok listed =>
    have hprefaced : (s.prefaced c).out.limit = none := hfree
    have hexecute := Machine.execute_on_sink hprefaced c listed rfl
    show ({ s with machine := ({ s.prefaced c with out := listed }.execute c).1 },
      ({ s.prefaced c with out := listed }.execute c).2) = _
    rw [hexecute]
    show _ = (match listed.deliver ((s.prefaced c).start.writes
        (s.prefaced c).settings.tracing c) with
      | .ok arrived => _
      | .error (w, cut) => _)
    cases listed.deliver ((s.prefaced c).start.writes (s.prefaced c).settings.tracing c) <;> rfl

section Answers

variable {s : Session} {source : String} {c : Chunk} {out : Sink}

theorem shown_conclude_of_ok {arrived : Sink}
    (h : out.deliver (s.programWrites c) = .ok arrived) {t : State} {reason : Halt}
    (hrun : (s.prefaced c).start.run s.machine.settings.tracing c = (t, reason)) :
    shown (s.conclude c out)
      = ⟨Machine.afterFlush arrived reason, arrived.written,
          (s.machine.err.write reason.complaint).written, t.stack⟩ := by
  rw [conclude, h, hrun]
  rfl

theorem shown_conclude_of_error {w : Write} {cut : Sink}
    (h : out.deliver (s.programWrites c) = .error (w, cut)) :
    shown (s.conclude c out)
      = ⟨.failure (s.overflow c out), cut.written, s.machine.err.written, w.stack⟩ := by
  rw [conclude, h]
  rfl

/-- What the assembler is left with does not show. -/
theorem answer_of_assemble (h : assemble source = .ok c) (s : Session) :
    s.answer source = shown (s.listAndExecute c) := by
  rw [answer, evaluate_of_assemble h, listAndExecute_eq_deliver, listAndExecute_eq_deliver]
  show shown (match s.machine.out.deliver (s.heading c) with
    | .ok listed => _
    | .error (w, cut) => _) = _
  cases s.machine.out.deliver (s.heading c) <;> rfl

theorem answer_of_rejected {r : Assembly.Rejection} (h : assemble source = .error r)
    (s : Session) :
    s.answer source
      = ⟨.failure (.rejected r.toSourceError), s.machine.out.written, s.machine.err.written,
          s.machine.stack⟩ := by
  obtain ⟨hmachine, houtcome⟩ := evaluate_of_error (s := s) h
  rw [answer, shown, hmachine, houtcome]

/-- On a stream, the answer is that of the delivery of what the request writes if everything
arrives. -/
theorem answer_onStream_of_assemble (h : assemble source = .ok c) (s : Session)
    (room : Option Nat) (flushes : Bool) :
    (s.onStream room flushes).answer source
      = shown ((s.onStream none true).conclude c (s.onStream room flushes).machine.out) := by
  rw [answer_of_assemble h]
  exact congrArg shown (listAndExecute_onSink (s := s.onStream none true) rfl c
    (s.onStream room flushes).machine.out)

theorem writes_of_assemble (h : assemble source = .ok c) (s : Session) :
    s.writes source = s.programWrites c := by
  rw [writes, h]

theorem writes_of_rejected {r : Assembly.Rejection} (h : assemble source = .error r)
    (s : Session) : s.writes source = [] := by
  rw [writes, h]

/-- If everything arrives, the output has all that the request writes. -/
theorem printed_onStream (s : Session) (source : String) :
    ((s.onStream none true).answer source).printed
      = s.machine.out.written
        ++ (Write.texts ((s.onStream none true).writes source)).toUTF8 := by
  cases h : assemble source with
  | error r =>
    rw [answer_of_rejected h, writes_of_rejected h]
    exact ByteArray.append_empty.symm
  | ok c =>
    have hfree : (s.onStream none true).machine.out.limit = none := rfl
    rw [answer_onStream_of_assemble h, writes_of_assemble h,
      shown_conclude_of_ok (Sink.deliver_of_limit_eq_none hfree _) rfl]
    rfl

/-- **With room for all that it writes, a request is answered as if everything arrived.** -/
theorem answer_of_le {n : Nat}
    (hle : (Write.texts ((s.onStream none true).writes source)).utf8ByteSize ≤ n) :
    (s.onStream (some n) true).answer source = (s.onStream none true).answer source := by
  cases h : assemble source with
  | error r =>
    rw [answer_of_rejected h, answer_of_rejected h]
    rfl
  | ok c =>
    have hfree : (s.onStream none true).machine.out.limit = none := rfl
    have hroom : (s.onStream (some n) true).machine.out.HasRoom n := rfl
    rw [writes_of_assemble h] at hle
    rw [answer_onStream_of_assemble h, answer_onStream_of_assemble h,
      shown_conclude_of_ok (Sink.deliver_of_limit_eq_none hfree _) rfl,
      shown_conclude_of_ok (hroom.deliver_of_le hle) rfl]
    rfl

theorem overflow_eq_or (s : Session) (c : Chunk) (out : Sink) :
    s.overflow c out = .file "stream full" ∨ s.overflow c out = .output "stream full" := by
  unfold overflow
  cases out.deliver (s.heading c) with
  | error stop => exact Or.inl rfl
  | ok listed => exact Or.inr rfl

/-- **Without room for all of it, a request fails at the text that does not fit.** -/
theorem answer_of_lt {n : Nat}
    (hlt : n < (Write.texts ((s.onStream none true).writes source)).utf8ByteSize) :
    ∃ failure before w after,
      (s.onStream (some n) true).answer source
        = ⟨.failure failure,
            s.machine.out.written
              ++ (Write.texts ((s.onStream none true).writes source)).toUTF8.extract 0 n,
            s.machine.err.written, w.stack⟩ ∧
      (failure = .file "stream full" ∨ failure = .output "stream full") ∧
      (s.onStream none true).writes source = before ++ w :: after ∧
      (Write.texts before).utf8ByteSize ≤ n ∧
      n < (Write.texts before).utf8ByteSize + w.text.utf8ByteSize := by
  cases h : assemble source with
  | error r =>
    rw [writes_of_rejected h] at hlt
    exact absurd hlt (Nat.not_lt_zero n)
  | ok c =>
    have hroom : (s.onStream (some n) true).machine.out.HasRoom n := rfl
    rw [writes_of_assemble h] at hlt ⊢
    obtain ⟨before, w, after, cut, hsplit, hle, hcut, hdeliver, hwritten⟩ :=
      hroom.deliver_of_lt hlt
    have hanswer := answer_onStream_of_assemble h s (some n) true
    rw [shown_conclude_of_error hdeliver, hwritten] at hanswer
    exact ⟨_, before, w, after, hanswer, overflow_eq_or (s.onStream none true) c _, hsplit, hle,
      hcut⟩

theorem overflow_flushes (s : Session) (c : Chunk) (out : Sink) (flushes : Bool) :
    s.overflow c { out with flushes := flushes } = s.overflow c out := by
  rw [overflow, overflow, Sink.deliver_flushes]
  cases out.deliver (s.heading c) <;> rfl

theorem afterFlush_closed (arrived : Sink) (reason : Halt) :
    Machine.afterFlush { arrived with flushes := false } reason
      = (Machine.afterFlush { arrived with flushes := true } reason).unflushed := by
  cases reason <;> rfl

/-- **A stream that cannot be flushed takes the place of a value**, and of nothing else. -/
theorem answer_unflushed (s : Session) (source : String) (room : Option Nat) :
    (s.onStream room false).answer source
      = ((s.onStream room true).answer source).unflushed := by
  cases h : assemble source with
  | error r =>
    rw [answer_of_rejected h, answer_of_rejected h]
    rfl
  | ok c =>
    rw [answer_onStream_of_assemble h, answer_onStream_of_assemble h]
    -- The two streams are one but for the flag.
    have hflag : ∀ flushes, (s.onStream room flushes).machine.out
        = { s.machine.out.withRoom room with flushes := flushes } := fun _ => rfl
    have hdeliver := fun flushes => (s.machine.out.withRoom room).deliver_flushes flushes
      ((s.onStream none true).programWrites c)
    rw [hflag, hflag]
    cases hbase : (s.machine.out.withRoom room).deliver
        ((s.onStream none true).programWrites c) with
    | ok arrived =>
      rw [hbase] at hdeliver
      rw [shown_conclude_of_ok (hdeliver false) rfl, shown_conclude_of_ok (hdeliver true) rfl,
        afterFlush_closed]
      rfl
    | error stop =>
      have hoverflow := (s.onStream none true).overflow_flushes c (s.machine.out.withRoom room)
      rw [hbase] at hdeliver
      rw [shown_conclude_of_error (hdeliver false), shown_conclude_of_error (hdeliver true),
        hoverflow false, hoverflow true]
      rfl

/-- **What a full stream does to a request.** Let a request on an output that takes everything
write the texts `writes`, which are the bytes `T`. An output with room for `n` bytes shows no
difference if `T` has no more than these. If it has more, the request fails over the stream:
the output has the first `n` bytes of `T`, no diagnostic is written, and the stack is the one
that the machine had when it wrote the first text that does not fit. If moreover the output
cannot be flushed, a failure takes the place of the value, and nothing else changes. -/
theorem answer_onStream (s : Session) (source : String) {writes : List Write}
    (hwrites : (s.onStream none true).writes source = writes) {T : ByteArray}
    (hT : (Write.texts writes).toUTF8 = T) :
    ((s.onStream none true).answer source).printed = s.machine.out.written ++ T ∧
      (∀ n, T.size ≤ n →
        (s.onStream (some n) true).answer source = (s.onStream none true).answer source) ∧
      (∀ n, n < T.size → ∃ failure before w after,
        (s.onStream (some n) true).answer source
          = ⟨.failure failure, s.machine.out.written ++ T.extract 0 n, s.machine.err.written,
              w.stack⟩ ∧
        (failure = .file "stream full" ∨ failure = .output "stream full") ∧
        failure.exitCode = 74 ∧
        writes = before ++ w :: after ∧
        (Write.texts before).utf8ByteSize ≤ n ∧
        n < (Write.texts before).utf8ByteSize + w.text.utf8ByteSize) ∧
      ∀ room, (s.onStream room false).answer source
        = ((s.onStream room true).answer source).unflushed := by
  subst hwrites hT
  refine ⟨printed_onStream s source, fun n hle => answer_of_le hle, fun n hlt => ?_,
    answer_unflushed s source⟩
  obtain ⟨failure, before, w, after, hanswer, hfailure, hsplit, hle, hcut⟩ := answer_of_lt hlt
  refine ⟨failure, before, w, after, hanswer, hfailure, ?_, hsplit, hle, hcut⟩
  rcases hfailure with rfl | rfl <;> rfl

/-- A listing, two traces and a value make 99 bytes. With room for 70 of them the second trace is
cut, and a stream that takes all of them but cannot be flushed withholds the value. -/
theorem answer_onStream_cut :
    ∃ s : Session, s.listing = true ∧ s.machine.settings.tracing = true ∧
      s.machine.stack.values = [.bool true] ∧
      ∃ T : ByteArray,
        (Write.texts ((s.onStream none true).writes "NIL\nRET")).toUTF8 = T ∧ T.size = 99 ∧
        (∃ failure w,
          (s.onStream (some 70) true).answer "NIL\nRET"
            = ⟨.failure failure, s.machine.out.written ++ T.extract 0 70, s.machine.err.written,
                w.stack⟩ ∧
          failure.exitCode = 74 ∧ w ∈ (s.onStream none true).writes "NIL\nRET") ∧
        ((s.onStream (some 99) false).answer "NIL\nRET").outcome
          = .failure (.output "stream closed") := by
  obtain ⟨-, hle, hlt, hflush⟩ := answer_onStream
    ⟨⟨{ tracing := true }, (OperandStack.ofCapacity 1).push (.bool true), {}, {}⟩, true, {}⟩
    "NIL\nRET" rfl rfl
  have hsize : (Write.texts (writes (onStream ⟨⟨{ tracing := true },
      (OperandStack.ofCapacity 1).push (.bool true), {}, {}⟩, true, {}⟩ none true)
      "NIL\nRET")).toUTF8.size = 99 := by decide +kernel
  have hvalue : ((onStream ⟨⟨{ tracing := true }, (OperandStack.ofCapacity 1).push (.bool true),
      {}, {}⟩, true, {}⟩ none true).answer "NIL\nRET").outcome = .value .nil := by decide +kernel
  obtain ⟨failure, before, w, after, hanswer, -, hcode, hsplit, -⟩ := hlt 70 (by rw [hsize]; decide)
  refine ⟨_, rfl, rfl, rfl, _, rfl, hsize, ⟨failure, w, hanswer, hcode, ?_⟩, ?_⟩
  · rw [hsplit]
    exact List.mem_append_right before List.mem_cons_self
  · rw [hflush, hle 99 (Nat.le_of_eq hsize), Answer.unflushed, hvalue]
    rfl

end Answers

end Session

end StackMachine

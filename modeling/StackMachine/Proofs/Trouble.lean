import StackMachine.Program
import StackMachine.Proofs.Submission

/-!
# Trouble with files and streams

A session that runs the source in a file can meet trouble in three places. The file cannot be read
as text, the output does not take what is written to it, or the output cannot be flushed. There are
two kinds of failure for this, one that speaks of a file and one that speaks of the output, and
`Session.load_eq_failure_iff` says which of the two is reported over what.

The output is written to in two places. What does not fit while a program runs is trouble with the
output, and so is a failed flush. What does not fit while the program is listed is reported as
trouble with the file, though the file has been read by then and there was nothing wrong with it
(`Session.load_unlisted`). So a session that lists its programs cannot be taken at its word about
files. A session that does not, or whose output has room for the listing, can.

That nothing else is trouble takes one fact about runs: on an output that takes everything, no run
fails over it (`State.run_ne_outputFailed`).
-/

namespace StackMachine

namespace State

variable {c : Chunk} {tracing : Bool}

/-- On an output that takes everything, a step leaves it so or halts for another reason. -/
theorem step_of_limit_eq_none {s : State} (free : s.out.limit = none) :
    (∃ t, s.step c = .next t ∧ t.out.limit = none) ∨
      ∃ t reason, s.step c = .halt t reason ∧ ∀ e, reason ≠ .outputFailed e := by
  cases acts_step c s.offset s.stack with
  | go next stack behind inside h => exact Or.inl ⟨_, h s.out s.err, free⟩
  | handBack v last stack h =>
    refine Or.inr ⟨_, _, h s.out s.err, fun e => ?_⟩
    rw [finishReason_of_fits (Sink.fits_of_limit_eq_none free _)]
    exact nofun
  | complain e last stack h => exact Or.inr ⟨_, _, h s.out s.err, nofun⟩
  | giveUp reason blame last stack h =>
    refine Or.inr ⟨_, _, h s.out s.err, fun e => ?_⟩
    rintro rfl
    exact nomatch blame

/-- **On an output that takes everything, no run fails over it.** -/
theorem run_ne_outputFailed {s : State} (free : s.out.limit = none) (e : StreamError) :
    (s.run tracing c).2 ≠ .outputFailed e := by
  induction s using run_induction tracing c with
  | turn s ih =>
    have hturn : s.turn tracing c
        = step c ⟨s.offset, s.stack, s.out.gain (Write.texts (s.foreword tracing c)), s.err⟩ :=
      turn_of_limit_eq_none free
    have hgain : (s.out.gain (Write.texts (s.foreword tracing c))).limit = none := free
    rcases step_of_limit_eq_none
        (s := ⟨s.offset, s.stack, s.out.gain (Write.texts (s.foreword tracing c)), s.err⟩) hgain with
      ⟨t, hnext, hfree⟩ | ⟨t, reason, hhalt, hreason⟩
    · rw [run_of_next (hturn.trans hnext)]
      exact ih t (hturn.trans hnext) hfree
    · rw [run_of_halt (hturn.trans hhalt)]
      exact hreason e

end State

namespace Machine

variable {out : Sink} {reason : Halt} {text : String}

theorem afterFlush_ne_file : afterFlush out reason ≠ .failure (.file text) := by
  unfold afterFlush
  cases reason with
  | returned v => cases out.flushError? <;> exact nofun
  | _ => exact nofun

/-- If the run has not failed over the output, only flushing can. -/
theorem afterFlush_eq_output_iff (h : ∀ e, reason ≠ .outputFailed e) :
    afterFlush out reason = .failure (.output text) ↔
      out.flushes = false ∧ (∃ v, reason = .returned v) ∧ text = "stream closed" := by
  unfold afterFlush Sink.flushError?
  cases reason with
  | returned v =>
    cases out.flushes with
    | true => simp [Halt.outcome]
    | false => simp [Halt.outcome, StreamError.message, eq_comm]
  | outputFailed e => exact absurd rfl (h e)
  | _ => simp [Halt.outcome]

end Machine

theorem Sink.flushes_of_deliver {out arrived : Sink} {ws : List Write}
    (h : out.deliver ws = .ok arrived) : arrived.flushes = out.flushes := by
  induction ws generalizing out with
  | nil =>
    cases h
    rfl
  | cons w ws ih =>
    rw [deliver] at h
    split at h
    · exact (ih h).trans (out.flushes_write w.text)
    · cases h

namespace Session

variable {s : Session} {c : Chunk} {source reason : String}

/-- **The listing of a program is lost**: it is asked for, and the output has no room for it. -/
def LosesListing (s : Session) (c : Chunk) : Prop :=
  s.listing = true ∧ s.machine.out.fits (Listing.text c Listing.programName) = false

/-- **The output overflows**: it has no room for all that would be written, the listing, the traces
and the value, if it took everything. -/
def Overflows (s : Session) (c : Chunk) : Prop :=
  ∃ stop, s.machine.out.deliver ((s.onStream none true).programWrites c) = .error stop

theorem losesListing_iff :
    s.LosesListing c ↔ ∃ stop, s.machine.out.deliver (s.heading c) = .error stop := by
  unfold LosesListing heading
  cases s.listing with
  | false => simp [Sink.deliver]
  | true =>
    cases hfits : s.machine.out.fits (Listing.text c Listing.programName) with
    | false => simp [Sink.deliver, hfits]
    | true => simp [Sink.deliver, hfits]

/-- A session whose listing is not lost runs the program. -/
theorem exists_listed (h : ¬s.LosesListing c) :
    ∃ listed, s.machine.out.deliver (s.heading c) = .ok listed := by
  rw [losesListing_iff] at h
  cases hdeliver : s.machine.out.deliver (s.heading c) with
  | ok listed => exact ⟨listed, rfl⟩
  | error stop => exact absurd ⟨stop, hdeliver⟩ h

/-- **Over a listing, and over nothing else, running a program fails as if over a file.** -/
theorem listAndExecute_eq_file_iff :
    (s.listAndExecute c).2 = .failure (.file reason) ↔
      s.LosesListing c ∧ reason = "stream full" := by
  rw [listAndExecute_eq_deliver, losesListing_iff]
  cases s.machine.out.deliver (s.heading c) with
  | error stop =>
    show Outcome.failure (.file "stream full") = .failure (.file reason) ↔ _
    simp [eq_comm]
  | ok listed =>
    have hne : ((s.onSink listed).execute c).2 ≠ .failure (.file reason) :=
      Machine.afterFlush_ne_file
    simp [hne]

/-- How the run of a program ends on an output that takes everything. -/
def freeEnd (s : Session) (c : Chunk) : Halt :=
  (((s.onStream none true).prefaced c).start.run s.machine.settings.tracing c).2

theorem freeEnd_ne_outputFailed (s : Session) (c : Chunk) (e : StreamError) :
    s.freeEnd c ≠ .outputFailed e :=
  State.run_ne_outputFailed rfl e

/-- The outcome of a program, from how it ends on an output that takes everything. -/
theorem snd_listAndExecute (s : Session) (c : Chunk) :
    (s.listAndExecute c).2
      = match s.machine.out.deliver ((s.onStream none true).programWrites c) with
        | .ok arrived => Machine.afterFlush arrived (s.freeEnd c)
        | .error _ => .failure ((s.onStream none true).overflow c s.machine.out) := by
  have hconclude : s.listAndExecute c = (s.onStream none true).conclude c s.machine.out :=
    listAndExecute_onSink (s := s.onStream none true) rfl c s.machine.out
  rw [hconclude, conclude]
  cases s.machine.out.deliver ((s.onStream none true).programWrites c) <;> rfl

/-- On an output that takes everything and can be flushed, a value comes back exactly if the run
hands it back. -/
theorem listAndExecute_onStream_eq_value_iff {v : Value} :
    ((s.onStream none true).listAndExecute c).2 = .value v ↔ s.freeEnd c = .returned v := by
  have hfree : (s.onStream none true).machine.out.limit = none := rfl
  have hend : (s.onStream none true).freeEnd c = s.freeEnd c := rfl
  rw [snd_listAndExecute, Sink.deliver_of_limit_eq_none hfree, hend]
  constructor
  · exact Machine.eq_returned_of_afterFlush
  · intro h
    rw [h]
    rfl

/-- **What a program fails over as over the output**: a text that does not fit, unless it is the
listing, and a flush that fails behind a value. -/
theorem listAndExecute_eq_output_iff :
    (s.listAndExecute c).2 = .failure (.output reason) ↔
      ¬s.LosesListing c ∧
        ((s.Overflows c ∧ reason = "stream full") ∨
          (¬s.Overflows c ∧ s.machine.out.flushes = false ∧
            (∃ v, ((s.onStream none true).listAndExecute c).2 = .value v) ∧
            reason = "stream closed")) := by
  by_cases hlost : s.LosesListing c
  · rw [listAndExecute_eq_file_iff.2 ⟨hlost, rfl⟩]
    simp [hlost]
  · obtain ⟨listed, hlisted⟩ := exists_listed hlost
    -- The listing has arrived, so what overflows is a text of the run.
    have hoverflow : (s.onStream none true).overflow c s.machine.out = .output "stream full" := by
      have hheading : s.machine.out.deliver ((s.onStream none true).heading c) = .ok listed :=
        hlisted
      rw [overflow, hheading]
      rfl
    rw [snd_listAndExecute, and_iff_right hlost, Overflows]
    cases hdeliver : s.machine.out.deliver ((s.onStream none true).programWrites c) with
    | error stop =>
      show Outcome.failure ((s.onStream none true).overflow c s.machine.out) = _ ↔ _
      rw [hoverflow]
      constructor
      · intro h
        cases h
        exact Or.inl ⟨⟨stop, rfl⟩, rfl⟩
      · rintro (⟨-, rfl⟩ | ⟨hfits, -⟩)
        · rfl
        · exact absurd ⟨stop, rfl⟩ hfits
    | ok arrived =>
      show Machine.afterFlush arrived (s.freeEnd c) = _ ↔ _
      rw [Machine.afterFlush_eq_output_iff (s.freeEnd_ne_outputFailed c),
        Sink.flushes_of_deliver hdeliver]
      simp [listAndExecute_onStream_eq_value_iff]

/-- **Whom a session blames for trouble with a file or a stream.** It speaks of the file exactly if
the file cannot be read as text, or if it can, is assembled, and its listing is lost. It speaks of
the output exactly if the output overflows with anything but the listing, or if everything arrives,
the run hands back a value and the output cannot be flushed. -/
theorem load_eq_failure_iff (s : Session) (file : Except FileError ByteArray) (reason : String) :
    ((s.load file).2 = .failure (.file reason) ↔
        (∃ e, FileTree.textOf file = .error e ∧ reason = e.message) ∨
          ∃ source c, FileTree.textOf file = .ok source ∧ assemble source = .ok c ∧
            s.LosesListing c ∧ reason = "stream full") ∧
      ((s.load file).2 = .failure (.output reason) ↔
        ∃ source c, FileTree.textOf file = .ok source ∧ assemble source = .ok c ∧
          ¬s.LosesListing c ∧
          ((s.Overflows c ∧ reason = "stream full") ∨
            (¬s.Overflows c ∧ s.machine.out.flushes = false ∧
              (∃ v, ((s.onStream none true).evaluate source).2 = .value v) ∧
              reason = "stream closed"))) := by
  unfold load
  cases hread : FileTree.textOf file with
  | error e =>
    constructor
    · constructor
      · intro h
        cases h
        exact Or.inl ⟨e, rfl, rfl⟩
      · rintro (⟨_, hfailed, rfl⟩ | ⟨_, _, hread, -⟩)
        · cases hfailed
          rfl
        · exact nomatch hread
    · constructor
      · exact nofun
      · rintro ⟨_, _, hread, -⟩
        exact nomatch hread
  | ok source =>
    show ((s.evaluate source).2 = _ ↔ _) ∧ ((s.evaluate source).2 = _ ↔ _)
    cases htaken : assemble source with
    | error r =>
      rw [(evaluate_of_error htaken).2]
      simp [htaken]
    | ok c =>
      have hfree := evaluate_of_assemble htaken (s.onStream none true)
      rw [evaluate_of_assemble htaken s]
      constructor
      · rw [listAndExecute_eq_file_iff]
        constructor
        · rintro ⟨hlost, rfl⟩
          exact Or.inr ⟨source, c, rfl, htaken, hlost, rfl⟩
        · rintro (⟨_, hfailed, -⟩ | ⟨_, c', hsame, hc, hlost, rfl⟩)
          · exact nomatch hfailed
          · cases hsame
            obtain rfl : c' = c := Except.ok.inj (hc.symm.trans htaken)
            exact ⟨hlost, rfl⟩
      · rw [listAndExecute_eq_output_iff]
        constructor
        · rintro ⟨hlisted, hblame⟩
          refine ⟨source, c, rfl, htaken, hlisted, ?_⟩
          rw [hfree]
          exact hblame
        · rintro ⟨_, c', hsame, hc, hlisted, hblame⟩
          cases hsame
          obtain rfl : c' = c := Except.ok.inj (hc.symm.trans htaken)
          rw [hfree] at hblame
          exact ⟨hlisted, hblame⟩

/-- There is nothing wrong with the file, but the output takes nothing: the listing is lost, and
the diagnostic blames the file. -/
theorem load_unlisted :
    FileTree.textOf (.ok "NIL\nRET\n".toUTF8) = .ok "NIL\nRET\n" ∧
      ((new {} { limit := some 0 } {} true).load (.ok "NIL\nRET\n".toUTF8)).2
        = .failure (.file "stream full") ∧
      Program.lastWords { file := some "nil.asm", listing := true } (.file "stream full")
        = "Could not read file \"nil.asm\": stream full\n" := by
  refine ⟨FileTree.textOf_toUTF8 _, ?_, by decide⟩
  rw [load, FileTree.textOf_toUTF8]
  decide +kernel

end Session

end StackMachine

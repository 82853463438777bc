import StackMachine.Program
import StackMachine.Proofs.History
import StackMachine.Proofs.Writes

/-!
# What a process leaves behind

A process that evaluates a source leaves three things behind: a status, what it printed, and its
diagnostics. `Program.Reports` says which, from the source alone, in four cases and no more: the
source is turned down, hands back a value, fails over its operands, or runs out of instructions.
There is no case for a crash, as an assembled source never reaches below the bottom of a stack.

Of the three failures one is reported by the machine while it runs and two by the process when
everything is over. Each process writes just one diagnostic, because the machine and the process
agree on whose business it is (`Failure.isReported`).

What a source means is told by the evaluation that knows no chunk, so that
`Program.run_of_code` goes all the way from the arguments of a process to the text it prints.
-/

namespace StackMachine

namespace CommandLine

/-- At most one way to run is asked for. -/
structure Options.IsSingle (o : Options) : Prop where
  /-- A file and a source exclude each other. -/
  file_code : o.file = none ∨ o.code = none
  /-- So do a file and a dialogue. -/
  file_interactive : o.file = none ∨ o.interactive = false
  /-- And so do a source and a dialogue. -/
  code_interactive : o.code = none ∨ o.interactive = false

namespace Reader

theorem isTorn_eq_false_iff {r : Reader} :
    r.isTorn = false ↔
      (r.file = none ∨ r.code = none) ∧ (r.file = none ∨ r.interactive = false) ∧
        (r.code = none ∨ r.interactive = false) := by
  unfold isTorn
  cases r.file <;> cases r.code <;> cases r.interactive <;> simp

theorem isSingle_of_finish {r : Reader} {o : Options} (h : r.finish = .ok o) : o.IsSingle := by
  unfold finish at h
  split at h
  · exact nomatch h
  · rename_i settled hsettled
    split at h
    · exact nomatch h
    · rename_i htorn
      cases h
      obtain ⟨hcode, hinteractive, hboth⟩ := isTorn_eq_false_iff.1 (Bool.eq_false_iff.2 htorn)
      exact ⟨hcode, hinteractive, hboth⟩

/-- **No command line asks for two ways to run at once.** -/
theorem isSingle_of_readAll {r : Reader} {arguments : List String} {o : Options}
    (h : r.readAll arguments = .ok o) : o.IsSingle := by
  fun_induction readAll r arguments with
  | case1 r => exact isSingle_of_finish h
  | case2 r rest hrest => exact isSingle_of_finish h
  | case3 => exact nomatch h
  | case4 => exact nomatch h
  | case5 r argument rest hother next hnext ih => exact ih h

end Reader

end CommandLine

namespace Program

/-- **What a process leaves behind that evaluates a source**: its status, what it printed, and its
diagnostics. -/
inductive Reports (source : String) : Result → Prop where
  /-- The source is turned down. -/
  | rejected {r : Assembly.Rejection} (turned : assemble source = .error r) :
      Reports source ⟨.exit 65, .empty,
        ("[line " ++ Decimal.text r.line ++ "] Error: " ++ r.fault.message ++ "\n").toUTF8⟩
  /-- The source hands back a value. -/
  | returned {c : Chunk} {v : Value} (taken : assemble source = .ok c)
      (means : (meaning source []).verdict = .returned v) :
      Reports source ⟨.exit 0, (v.text ++ "\n").toUTF8, .empty⟩
  /-- An instruction fails over its operands. -/
  | failed {c : Chunk} {e : RunError} (taken : assemble source = .ok c)
      (means : (meaning source []).verdict = .failed e) :
      Reports source ⟨.exit 70, .empty,
        (e.message ++ "\n[line " ++ Decimal.text e.line ++ "] in script" ++ "\n").toUTF8⟩
  /-- There are no more instructions, and none has ended the run. -/
  | exhausted {c : Chunk} (taken : assemble source = .ok c)
      (means : (meaning source []).verdict = .exhausted) :
      Reports source ⟨.exit 70, .empty,
        ("internal error: "
          ++ ("instruction pointer ran past the end of the chunk at offset " ++ Decimal.text c.size)
          ++ "\n").toUTF8⟩

variable {o : CommandLine.Options} {source : String}

/-! ## How a process ends -/

/-- What a session that has just begun has written is all that its sinks have got. -/
theorem written_gain (text : String) : (Sink.gain {} text).written = text.toUTF8 :=
  ByteArray.empty_append

theorem conclude_finished {s : Session} {printed complaint : String}
    (hout : s.machine.out = Sink.gain {} printed)
    (herr : s.machine.err = Sink.gain {} complaint) :
    conclude o s .finished = ⟨.exit 0, printed.toUTF8, complaint.toUTF8⟩ := by
  rw [conclude, hout, herr, written_gain, written_gain]

/-- A process that fails has its last words behind what was complained of before. -/
theorem conclude_failed {s : Session} {printed complaint : String} (f : Failure)
    (hout : s.machine.out = Sink.gain {} printed)
    (herr : s.machine.err = Sink.gain {} complaint) :
    conclude o s (.failed f)
      = ⟨.exit f.exitCode, printed.toUTF8, (complaint ++ lastWords o f).toUTF8⟩ := by
  have hfree : (Sink.gain {} complaint).limit = none := rfl
  rw [conclude, Machine.complain, hout, herr, Sink.write_of_limit_eq_none hfree, Sink.gain_gain,
    written_gain, written_gain]

/-- **A session that has just begun** and lists and traces nothing does what its source means on
no values at all. -/
theorem evaluate_session (quiet : o.tracing = false) (bare : o.listing = false) {c : Chunk}
    (h : assemble source = .ok c) :
    (meaning source []).verdict.outcome? c.size = some ((session o).evaluate source).2 ∧
      ((session o).evaluate source).1.machine.out
        = Sink.gain {} (meaning source []).verdict.printed ∧
      ((session o).evaluate source).1.machine.err
        = Sink.gain {} (meaning source []).verdict.complaint := by
  have hunhindered : (session o).machine.IsUnhindered := ⟨quiet, rfl, rfl, rfl⟩
  have hlisting : ¬(session o).listing = true := Bool.eq_false_iff.1 bare
  obtain ⟨houtcome, -, hout, herr⟩ := Session.evaluate_eq_meaning hunhindered h rfl
  rw [Session.preface, if_neg hlisting, String.empty_append] at hout
  exact ⟨houtcome, hout, herr⟩

/-- **A process reports what its source means.** Whose business the one diagnostic is shows in
where it comes from: the machine complains before the process has its last words, and one of the
two has nothing to say. -/
theorem reports_evaluate (quiet : o.tracing = false) (bare : o.listing = false)
    (source : String) :
    Reports source
      (conclude o ((session o).evaluate source).1 (endingOf ((session o).evaluate source).2)) := by
  cases h : assemble source with
  | error r =>
    obtain ⟨hmachine, houtcome⟩ := Session.evaluate_of_error (s := session o) h
    have hout : ((session o).evaluate source).1.machine.out = Sink.gain {} "" := by
      rw [hmachine, Sink.gain_empty]
      rfl
    have herr : ((session o).evaluate source).1.machine.err = Sink.gain {} "" := by
      rw [hmachine, Sink.gain_empty]
      rfl
    rw [houtcome, endingOf, conclude_failed _ hout herr, String.empty_append]
    exact .rejected h
  | ok c =>
    obtain ⟨houtcome, hout, herr⟩ := evaluate_session quiet bare h
    cases hverdict : (meaning source []).verdict with
    | returned v =>
      rw [hverdict] at houtcome hout herr
      rw [Verdict.printed_returned] at hout
      rw [← Option.some.inj houtcome, endingOf, conclude_finished hout herr]
      exact .returned h hverdict
    | failed e =>
      have hnoWords : lastWords o (.typeError e) = "" := rfl
      rw [hverdict] at houtcome hout herr
      rw [← Option.some.inj houtcome, endingOf, conclude_failed _ hout herr, hnoWords,
        String.append_empty]
      exact .failed h hverdict
    | exhausted =>
      have hnoComplaint : Verdict.exhausted.complaint = "" := rfl
      rw [hverdict] at houtcome hout herr
      rw [← Option.some.inj houtcome, endingOf, conclude_failed _ hout herr, hnoComplaint,
        String.empty_append]
      exact .exhausted h hverdict
    | stuck =>
      rw [hverdict] at houtcome
      exact nomatch houtcome

/-! ## What the status says -/

namespace Reports

variable {result : Result}

theorem status_ne_crash (h : Reports source result) (b : Breakdown) : result.status ≠ .crash b := by
  cases h <;> exact nofun

/-- The status 65 is kept for sources that are turned down. -/
theorem status_eq_65_iff (h : Reports source result) :
    result.status = .exit 65 ↔ ∃ r, assemble source = .error r := by
  cases h with
  | rejected turned => exact iff_of_true rfl ⟨_, turned⟩
  | returned taken means => simp [taken]
  | failed taken means => simp [taken]
  | exhausted taken means => simp [taken]

/-- The status 70 is kept for runs that fail or run out of instructions. -/
theorem status_eq_70_iff (h : Reports source result) :
    result.status = .exit 70 ↔
      (∃ c, assemble source = .ok c) ∧
        ((∃ e, (meaning source []).verdict = .failed e) ∨
          (meaning source []).verdict = .exhausted) := by
  cases h with
  | rejected turned => simp [turned]
  | returned taken means => simp [means]
  | failed taken means => exact iff_of_true rfl ⟨⟨_, taken⟩, .inl ⟨_, means⟩⟩
  | exhausted taken means => exact iff_of_true rfl ⟨⟨_, taken⟩, .inr means⟩

/-- The status 0 is kept for runs that hand back a value. -/
theorem status_eq_0_iff (h : Reports source result) :
    result.status = .exit 0 ↔
      (∃ c, assemble source = .ok c) ∧ ∃ v, (meaning source []).verdict = .returned v := by
  cases h with
  | rejected turned => simp [turned]
  | returned taken means => exact iff_of_true rfl ⟨⟨_, taken⟩, _, means⟩
  | failed taken means => simp [means]
  | exhausted taken means => simp [means]

end Reports

/-! ## Whole runs -/

/-- A command line with a source on it runs that source. -/
theorem run_eq_conclude {arguments : List String} (world : Surroundings)
    (hparse : CommandLine.parse arguments = .ok o) (hcode : o.code = some source) :
    run world arguments
      = conclude o ((session o).evaluate source).1 (endingOf ((session o).evaluate source).2) := by
  have hfile : o.file = none := by
    obtain hfile | hnone := (CommandLine.Reader.isSingle_of_readAll hparse).file_code
    · exact hfile
    · exact nomatch hnone.symm.trans hcode
  rw [run, hparse]
  show runOptions world o = _
  rw [runOptions, hfile, hcode]

/-- **What a process does that is given a source.** Whatever the source, and whatever the process
finds around it, it never crashes. It exits with 65 if and only if the source is turned down, with
70 if and only if the source is taken and then fails over its operands or runs out of
instructions, and with 0 if and only if the source is taken and hands back a value. It prints the
value it was handed and nothing else, and has one diagnostic for each failure. -/
theorem run_of_code (world : Surroundings) {arguments : List String}
    (hparse : CommandLine.parse arguments = .ok o) (hcode : o.code = some source)
    (quiet : o.tracing = false) (bare : o.listing = false) :
    Reports source (run world arguments) ∧
      (∀ b, (run world arguments).status ≠ .crash b) ∧
      ((run world arguments).status = .exit 65 ↔ ∃ r, assemble source = .error r) ∧
      ((run world arguments).status = .exit 70 ↔
        (∃ c, assemble source = .ok c) ∧
          ((∃ e, (meaning source []).verdict = .failed e) ∨
            (meaning source []).verdict = .exhausted)) ∧
      ((run world arguments).status = .exit 0 ↔
        (∃ c, assemble source = .ok c) ∧ ∃ v, (meaning source []).verdict = .returned v) := by
  have hreports : Reports source (run world arguments) := by
    rw [run_eq_conclude world hparse hcode]
    exact reports_evaluate quiet bare source
  exact ⟨hreports, hreports.status_ne_crash, hreports.status_eq_65_iff,
    hreports.status_eq_70_iff, hreports.status_eq_0_iff⟩

/-- A number and a truth value cannot be added up. The process that was to do so says so once, with
the line of the sum, and exits with 70. -/
theorem run_of_code_failed_sum :
    run { files := fun _ => .ok .empty } ["--eval", "CONSTANT 1\nTRUE\nADD\nRET"]
      = ⟨.exit 70, .empty, "Operands must be numbers.\n[line 3] in script\n".toUTF8⟩ := by
  have hparse : CommandLine.parse ["--eval", "CONSTANT 1\nTRUE\nADD\nRET"]
      = .ok { code := some "CONSTANT 1\nTRUE\nADD\nRET" } := by decide +kernel
  have htaken : assemble "CONSTANT 1\nTRUE\nADD\nRET"
      = .ok ⟨#[1, 0, 2, 18, 0], #[.number .one], #[1, 1, 2, 3, 4]⟩ := by decide +kernel
  have hmeans : (meaning "CONSTANT 1\nTRUE\nADD\nRET" []).verdict
      = .failed ⟨"Operands must be numbers.", 3⟩ := by decide +kernel
  have htext : "Operands must be numbers." ++ "\n[line " ++ Decimal.text 3 ++ "] in script" ++ "\n"
      = "Operands must be numbers.\n[line 3] in script\n" := by decide +kernel
  have hreports := (run_of_code { files := fun _ => .ok .empty } hparse rfl rfl rfl).1
  generalize run _ ["--eval", "CONSTANT 1\nTRUE\nADD\nRET"] = result at hreports ⊢
  cases hreports with
  | rejected turned => exact nomatch htaken.symm.trans turned
  | returned taken means => exact nomatch hmeans.symm.trans means
  | failed taken means =>
    cases hmeans.symm.trans means
    rw [htext]
  | exhausted taken means => exact nomatch hmeans.symm.trans means

end Program

end StackMachine

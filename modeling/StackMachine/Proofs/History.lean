import StackMachine.Proofs.Simulation
import StackMachine.Session

/-!
# A session does not remember

A session keeps a great deal from one request to the next: half a program in the assembler,
values on the stack, the room that the stack has gained. None of it shows. Whatever a
session was asked before, the next source has the same outcome, prints the same and
complains of the same as in a session that has only just begun (`evaluate_after`).

All that is left of the past is what lies on the stack, and it is in nobody's way: a source
leaves its own values on top of it, unless it fails, and then the stack is empty.
Two things come together here. The assembler starts from nothing whatever it holds, and an
assembled program never reaches below the values it has put there itself.
-/

namespace StackMachine

/-- **What can be asked of a session.** -/
inductive Request where
  /-- To assemble and run a source. -/
  | evaluate (source : String)
  /-- To run a source on an emptied stack. -/
  | submit (source : String)
  /-- To run the source in a file, given what reading the file brought. -/
  | load (file : Except FileError ByteArray)
  /-- To empty the stack. -/
  | reset

namespace Machine.IsUnhindered

/-- A machine stays unhindered whatever it writes and whatever becomes of its stack. -/
theorem of_gain {m n : Machine} (hm : m.IsUnhindered) {printed complaint : String}
    (hsettings : n.settings = m.settings) (hout : n.out = m.out.gain printed)
    (herr : n.err = m.err.gain complaint) : n.IsUnhindered where
  quiet := by rw [hsettings]; exact hm.quiet
  out := by rw [hout]; exact hm.out
  flushes := by rw [hout]; exact hm.flushes
  err := by rw [herr]; exact hm.err

end Machine.IsUnhindered

/-- What an outcome leaves of the values on a stack: nothing if an operand was of the wrong
kind, and else all of them. -/
def Outcome.leaves (outcome : Outcome) (values : List Value) : List Value :=
  match outcome with
  | .failure (.typeError _) => []
  | _ => values

theorem Outcome.leaves_of_ne {outcome : Outcome}
    (h : ∀ e, outcome ≠ .failure (.typeError e)) (values : List Value) :
    outcome.leaves values = values := by
  unfold leaves
  split
  · rename_i e
    exact absurd rfl (h e)
  · rfl

namespace Evaluation

theorem verdict_above (base : List Value) (r : Evaluation) :
    (r.above base).verdict = r.verdict := by
  obtain ⟨verdict, values⟩ := r
  cases verdict <;> rfl

theorem values_above {base : List Value} {r : Evaluation} {size : Nat} {outcome : Outcome}
    (h : r.verdict.outcome? size = some outcome) :
    (r.above base).values = outcome.leaves (r.values ++ base) := by
  obtain ⟨verdict, values⟩ := r
  cases verdict with
  | stuck => exact nomatch h
  | returned v =>
    cases h
    rfl
  | failed e =>
    cases h
    rfl
  | exhausted =>
    cases h
    rfl

end Evaluation

namespace Session

/-- A session that has not been asked anything. -/
def new (settings : Settings) (out err : Sink) (listing : Bool) : Session :=
  { machine := .new settings out err, listing := listing }

/-- A session after a request. -/
def serve (s : Session) : Request → Session
  | .evaluate source => (s.evaluate source).1
  | .submit source => (s.submit source).1
  | .load file => (s.load file).1
  | .reset => s.reset

/-- **A session after a history of requests**, the first of them first. -/
def after (s : Session) (history : List Request) : Session := history.foldl serve s

/-- What a session prints of a program before it runs. -/
def preface (s : Session) (c : Chunk) : String :=
  if s.listing then Listing.text c Listing.programName else ""

/-! ## One source -/

theorem evaluate_of_assemble {source : String} {c : Chunk} (h : assemble source = .ok c)
    (s : Session) :
    s.evaluate source
      = { s with assembly := (s.assembly.next source).1 }.listAndExecute c := by
  have hnext : s.assembly.next source = ((s.assembly.next source).1, .ok c) :=
    Prod.ext rfl h
  rw [evaluate, hnext]

/-- In an unhindered session the listing is written, and then the chunk is run. -/
theorem listAndExecute_of_isUnhindered {s : Session} (hs : s.machine.IsUnhindered)
    (c : Chunk) :
    s.listAndExecute c
      = { s with machine := { s.machine with out := s.machine.out.gain (s.preface c) } }.execute
          c := by
  obtain ⟨machine, listing, assembly⟩ := s
  cases listing with
  | false =>
    show execute ⟨machine, false, assembly⟩ c
      = execute ⟨{ machine with out := machine.out.gain "" }, false, assembly⟩ c
    rw [Sink.gain_empty]
  | true =>
    unfold listAndExecute preface
    dsimp only
    rw [if_pos rfl, if_pos rfl, Sink.writeError?, Sink.fits_of_limit_eq_none hs.out,
      if_pos rfl, Machine.print, Sink.write_of_limit_eq_none hs.out]

/-- **What an unhindered session does with a source that can be assembled**: it lists the
chunk if it lists chunks, and then does what the source means. -/
theorem evaluate_eq_meaning {s : Session} (hs : s.machine.IsUnhindered) {source : String}
    {c : Chunk} (h : assemble source = .ok c) {r : Evaluation}
    (hr : meaning source s.machine.stack.values = r) :
    r.verdict.outcome? c.size = some (s.evaluate source).2 ∧
      (s.evaluate source).1.machine.stack.values = r.values ∧
      (s.evaluate source).1.machine.out
        = s.machine.out.gain (s.preface c ++ r.verdict.printed) ∧
      (s.evaluate source).1.machine.err = s.machine.err.gain r.verdict.complaint := by
  have hlisted : Machine.IsUnhindered
      { s.machine with out := s.machine.out.gain (s.preface c) } :=
    hs.of_gain rfl rfl (Sink.gain_empty _).symm
  obtain ⟨houtcome, hvalues, hout, herr⟩ := hlisted.execute h hr
  -- What the assembler is left with makes no difference to what is listed and run.
  have hevaluate : s.evaluate source
      = { s with
          machine := { s.machine with out := s.machine.out.gain (s.preface c) }
          assembly := (s.assembly.next source).1 }.execute c :=
    (evaluate_of_assemble h s).trans
      (listAndExecute_of_isUnhindered (s := { s with assembly := (s.assembly.next source).1 })
        hs c)
  rw [hevaluate]
  refine ⟨houtcome, hvalues, ?_, herr⟩
  rw [← Sink.gain_gain]
  exact hout

theorem evaluate_keeps (s : Session) (source : String) :
    (s.evaluate source).1.machine.settings = s.machine.settings ∧
      (s.evaluate source).1.listing = s.listing := by
  unfold evaluate listAndExecute
  split
  · exact ⟨rfl, rfl⟩
  · dsimp only
    split
    · split
      · exact ⟨rfl, rfl⟩
      · exact ⟨rfl, rfl⟩
    · exact ⟨rfl, rfl⟩

/-! ## Many requests -/

theorem isUnhindered_evaluate {s : Session} (hs : s.machine.IsUnhindered)
    (source : String) : (s.evaluate source).1.machine.IsUnhindered := by
  cases h : assemble source with
  | error r =>
    rw [(evaluate_of_error h).1]
    exact hs
  | ok c =>
    obtain ⟨-, -, hout, herr⟩ := evaluate_eq_meaning hs h rfl
    exact hs.of_gain (s.evaluate_keeps source).1 hout herr

/-- No request gets in the way of the machine or turns its listings on or off. -/
theorem serve_keeps {s : Session} (hs : s.machine.IsUnhindered) (request : Request) :
    (s.serve request).machine.IsUnhindered ∧ (s.serve request).listing = s.listing := by
  have hreset : s.reset.machine.IsUnhindered := ⟨hs.quiet, hs.out, hs.flushes, hs.err⟩
  cases request with
  | evaluate source => exact ⟨isUnhindered_evaluate hs source, (s.evaluate_keeps source).2⟩
  | submit source =>
    exact ⟨isUnhindered_evaluate hreset source, (s.reset.evaluate_keeps source).2⟩
  | load file =>
    show (s.load file).1.machine.IsUnhindered ∧ (s.load file).1.listing = s.listing
    unfold load
    split
    · exact ⟨hs, rfl⟩
    · rename_i source hsource
      exact ⟨isUnhindered_evaluate hs source, (s.evaluate_keeps source).2⟩
  | reset => exact ⟨hreset, rfl⟩

/-- **Nor does a history of requests.** -/
theorem after_keeps {s : Session} (hs : s.machine.IsUnhindered) (history : List Request) :
    (s.after history).machine.IsUnhindered ∧ (s.after history).listing = s.listing := by
  induction history generalizing s with
  | nil => exact ⟨hs, rfl⟩
  | cons request later ih =>
    obtain ⟨hserved, hlisting⟩ := serve_keeps hs request
    obtain ⟨hafter, hsame⟩ := ih hserved
    exact ⟨hafter, hsame.trans hlisting⟩

/-- **A source does on top of other values what it does on an empty stack.** -/
theorem evaluate_on_top {s t : Session} (hs : s.machine.IsUnhindered)
    (ht : t.machine.IsUnhindered) (hlisting : s.listing = t.listing)
    (hempty : t.machine.stack.values = []) (source : String) :
    (s.evaluate source).2 = (t.evaluate source).2 ∧
      (∃ printed,
        (s.evaluate source).1.machine.out = s.machine.out.gain printed ∧
        (t.evaluate source).1.machine.out = t.machine.out.gain printed) ∧
      (∃ complaint,
        (s.evaluate source).1.machine.err = s.machine.err.gain complaint ∧
        (t.evaluate source).1.machine.err = t.machine.err.gain complaint) ∧
      (s.evaluate source).1.machine.stack.values
        = (s.evaluate source).2.leaves
            ((t.evaluate source).1.machine.stack.values ++ s.machine.stack.values) := by
  cases h : assemble source with
  | error r =>
    -- Nothing was run, and both sessions are as they were.
    obtain ⟨hs', hsoutcome⟩ := evaluate_of_error (s := s) h
    obtain ⟨ht', htoutcome⟩ := evaluate_of_error (s := t) h
    rw [hs', ht', hsoutcome, htoutcome, hempty]
    exact ⟨rfl, ⟨"", by simp⟩, ⟨"", by simp⟩, rfl⟩
  | ok c =>
    have habove : meaning source s.machine.stack.values
        = (meaning source []).above s.machine.stack.values :=
      (proper_of_assemble h).evaluate_append (Nat.zero_le ([] : List Value).length) _
    obtain ⟨hs₁, hs₂, hs₃, hs₄⟩ := evaluate_eq_meaning hs h habove
    obtain ⟨ht₁, ht₂, ht₃, ht₄⟩ := evaluate_eq_meaning ht h (by rw [hempty])
    have hpreface : t.preface c = s.preface c := by rw [preface, preface, hlisting]
    rw [hpreface] at ht₃
    rw [Evaluation.verdict_above] at hs₁ hs₃ hs₄
    have hsame : (s.evaluate source).2 = (t.evaluate source).2 :=
      Option.some.inj (hs₁.symm.trans ht₁)
    refine ⟨hsame, ⟨_, hs₃, ht₃⟩, ⟨_, hs₄, ht₄⟩, ?_⟩
    rw [hs₂, ht₂]
    exact Evaluation.values_above hs₁

/-- **A session answers as if nothing had been asked before.** Whatever the history, a source
has the outcome that it has in a new session, and adds the same to both sinks. A type error
leaves the stack empty; otherwise what a new session would be left with lies on top of what
the history has left, and a source that is turned down changes nothing. -/
theorem evaluate_after {s : Session} (hs : s.machine.IsUnhindered) (history : List Request)
    {settings : Settings} {out err : Sink}
    (hnew : (Machine.new settings out err).IsUnhindered) (source : String)
    {past fresh : Session} (hpast : s.after history = past)
    (hfresh : new settings out err s.listing = fresh) :
    (past.evaluate source).2 = (fresh.evaluate source).2 ∧
      (∃ printed : ByteArray,
        (past.evaluate source).1.machine.out.written = past.machine.out.written ++ printed ∧
        (fresh.evaluate source).1.machine.out.written
          = fresh.machine.out.written ++ printed) ∧
      (∃ complaint : ByteArray,
        (past.evaluate source).1.machine.err.written
          = past.machine.err.written ++ complaint ∧
        (fresh.evaluate source).1.machine.err.written
          = fresh.machine.err.written ++ complaint) ∧
      (∀ e, (past.evaluate source).2 = .failure (.typeError e) →
        (past.evaluate source).1.machine.stack.contents = []) ∧
      ((∀ e, (past.evaluate source).2 ≠ .failure (.typeError e)) →
        (past.evaluate source).1.machine.stack.contents
          = past.machine.stack.contents
            ++ (fresh.evaluate source).1.machine.stack.contents) ∧
      ∀ r, assemble source = .error r →
        (past.evaluate source).1.machine.stack.contents = past.machine.stack.contents := by
  subst hpast hfresh
  obtain ⟨hkept, hlisting⟩ := after_keeps hs history
  obtain ⟨houtcome, ⟨printed, hout, hout'⟩, ⟨complaint, herr, herr'⟩, hvalues⟩ :=
    evaluate_on_top hkept (t := new settings out err s.listing) hnew hlisting rfl source
  refine ⟨houtcome, ⟨printed.toUTF8, ?_, ?_⟩, ⟨complaint.toUTF8, ?_, ?_⟩, ?_, ?_, ?_⟩
  · rw [hout, Sink.gain]
  · rw [hout', Sink.gain]
  · rw [herr, Sink.gain]
  · rw [herr', Sink.gain]
  · intro e he
    rw [OperandStack.contents, hvalues, he]
    rfl
  · intro hne
    rw [OperandStack.contents, hvalues, Outcome.leaves_of_ne hne, List.reverse_append]
    rfl
  · intro r hr
    rw [(evaluate_of_error hr).1]

/-- A source that is turned down halfway, a failure, a missing file and a program that never
hands anything back, and then a source that leaves a value of its own. -/
theorem evaluate_after_trouble :
    ∃ past : Session,
      (new {} {} {} true).after
          [.submit "CONSTANT 1\nADD", .evaluate "NIL\nINC\nRET", .load (.error .missing),
            .evaluate "TRUE"] = past ∧
        past.machine.stack.contents = [.bool true] ∧
        (past.evaluate "NIL\nFALSE\nRET").2 = .value (.bool false) ∧
        (past.evaluate "NIL\nFALSE\nRET").1.machine.stack.contents = [.bool true, .nil] := by
  have hnew : (Machine.new {} {} {}).IsUnhindered := ⟨rfl, rfl, rfl, rfl⟩
  obtain ⟨houtcome, -, -, -, hcontents, -⟩ :=
    evaluate_after (s := new {} {} {} true) hnew
      [.submit "CONSTANT 1\nADD", .evaluate "NIL\nINC\nRET", .load (.error .missing),
        .evaluate "TRUE"] hnew "NIL\nFALSE\nRET" rfl rfl
  have hvalue : ((new {} {} {} true).evaluate "NIL\nFALSE\nRET").2 = .value (.bool false) := by
    decide +kernel
  have hleft : ((new {} {} {} true).evaluate "NIL\nFALSE\nRET").1.machine.stack.contents
      = [.nil] := by decide +kernel
  have hpast : ((new {} {} {} true).after
      [.submit "CONSTANT 1\nADD", .evaluate "NIL\nINC\nRET", .load (.error .missing),
        .evaluate "TRUE"]).machine.stack.contents = [.bool true] := by decide +kernel
  refine ⟨_, rfl, hpast, houtcome.trans hvalue, ?_⟩
  rw [hcontents (fun e he => by rw [houtcome.trans hvalue] at he; exact nomatch he)]
  exact congrArg₂ (· ++ ·) hpast hleft

end Session

end StackMachine

import Mathlib.Data.List.DropRight
import Mathlib.Data.List.Forall2
import StackMachine.Dialogue
import StackMachine.Proofs.Blocks
import StackMachine.Proofs.Submission

/-!
# How a dialogue is cut into sources

A dialogue reads line after line and keeps no account of what it does about them. This module
keeps one. Each line that is read becomes an event: it is a command and is answered, it is held
back, or it ends a source, which is then run (`Event.ofLine`). Which of the three it is can be
told from the line and from the events before it, without a session and without a buffer: a line
that starts with a point is a command as long as nothing is held back, a line whose first word is
`RET` ends a source, and the source is what has been read since the last one was run.

The account is complete (`converse_eq_replay`). A dialogue does what the events say, one after
the other and each of them once, and nothing else; it comes to an end because somebody leaves or
because there is nothing more to read. What is hard about this is that the dialogue never looks
at a line by itself. It reads all that it holds back again, together with the new line, and looks
at the last instruction of the whole. It gets the same answer because what is held back has no
line that ends a source: such a line would not have been held back.

That a source has just one instruction which ends a run, and has it at the end, follows from
this. So does that the dialogue survives each of them, as a source that ends so can fail but
cannot crash.

A line that is held back need not hold an instruction. Behind a blank line or a comment a line that
starts with a point is held back too, and nobody can leave until a source has been run
(`converse_of_isPointed`).
-/

namespace StackMachine

/-- **A complete source can fail but cannot crash.** -/
theorem Session.submit_ne_crash {source : String} (complete : Source.isComplete source = true)
    (s : Session) (u : Underflow) : (s.submit source).2 ≠ .crash u := by
  intro hcrash
  cases h : assemble source with
  | error r => exact nomatch (evaluate_of_error (s := s.reset) h).2.symm.trans hcrash
  | ok c =>
    rw [submit, evaluate_of_assemble h] at hcrash
    rcases listAndExecute_cases { s.reset with assembly := (s.reset.assembly.next source).1 } c with
      ⟨text, hfile⟩ | ⟨out, hexecute⟩
    · exact nomatch hfile.symm.trans hcrash
    · rw [hexecute] at hcrash
      rcases Machine.execute_of_isComplete h complete { s.reset.machine with out := out } with
        ⟨v, hv⟩ | ⟨e, he⟩ | ⟨text, htext⟩
      · exact nomatch hv.symm.trans hcrash
      · exact nomatch he.symm.trans hcrash
      · exact nomatch htext.symm.trans hcrash

namespace Dialogue

/-! ## Events -/

/-- Whether a line starts with a point, blanks aside. -/
def isPointed (line : String) : Bool :=
  decide ((line.toList.dropWhile Text.isBlank).head? = some '.')

/-- A line as a command: what it says, blanks at its ends aside. -/
def commandOf (line : String) : String :=
  String.ofList ((line.toList.dropWhile Text.isBlank).rdropWhile Text.isBlank)

/-- **What becomes of a line.** -/
inductive Event where
  /-- It is a command, and is answered. -/
  | command (line : String)
  /-- It is held back. -/
  | held (line : String)
  /-- It ends a source, and the source is run. -/
  | ran (line source : String)
  deriving DecidableEq, Inhabited

namespace Event

/-- The line that an event is about. -/
def line : Event → String
  | command line | held line | ran line _ => line

/-- Whether the line is a command. -/
def isCommand : Event → Bool
  | command _ => true
  | _ => false

/-- The source that is run, if one is. -/
def source? : Event → Option String
  | ran _ source => some source
  | _ => none

/-- Whether the line is the command that leaves the dialogue. -/
def leaves : Event → Bool
  | command line => decide (commandOf line = ".exit")
  | _ => false

end Event

/-- The lines of events that are no commands. -/
def codeLines (record : List Event) : List String :=
  (record.filter fun e => !e.isCommand).map Event.line

/-- The events since a source was run last. -/
def sinceRun (record : List Event) : List Event := record.rtakeWhile fun e => e.source?.isNone

/-- **The lines that are held back** when so much has happened: those read since a source was run
last, but for commands. -/
def heldBack (record : List Event) : List String := codeLines (sinceRun record)

/-- The sources that were run, in order. -/
def sources (record : List Event) : List String := record.filterMap Event.source?

/-- **What becomes of a line** after what has happened before. -/
def Event.ofLine (before : List Event) (line : String) : Event :=
  if isPointed line = true ∧ heldBack before = [] then .command line
  else if Source.endsSource line then .ran line (Source.block (heldBack before ++ [line]))
  else .held line

/-- The events that lines bring about after what has happened before, up to the one that leaves
the dialogue. -/
def recordFrom (before : List Event) : List String → List Event
  | [] => []
  | line :: rest =>
    let e := Event.ofLine before line
    e :: if e.leaves then [] else recordFrom (before ++ [e]) rest

/-- **The events that lines bring about**, from the beginning of a dialogue. -/
def record (lines : List String) : List Event := recordFrom [] lines

/-- The dialogue after a source has been run: its session has been given the source, and a failure
that nobody has reported is complained about. Nothing is held back. -/
def afterRun (d : Dialogue) (source : String) : Dialogue :=
  match d.session.submit source with
  | (session, .failure f) =>
    if f.isReported then { session := session }
    else ({ session := session } : Dialogue).complain (f.text ++ "\n")
  | (session, _) => { session := session }

/-- **What an event does to a dialogue.** No line is read and no buffer is looked at. -/
def perform (d : Dialogue) : Event → Dialogue
  | .command line =>
    match d.session.reply (commandOf line) with
    | .say text => d.say text
    | .leave => d
  | .held line => { d with pending := d.pending ++ line ++ "\n" }
  | .ran _ source => d.afterRun source

/-- **A dialogue after a record of events**, each of them with a prompt before it if prompts are
shown. -/
def replay (prompts : Bool) (d : Dialogue) (record : List Event) : Dialogue :=
  record.foldl (fun d e => (d.ask prompts).perform e) d

/-! ## What one more event changes -/

theorem heldBack_nil : heldBack [] = [] := rfl

theorem heldBack_command (record : List Event) (line : String) :
    heldBack (record ++ [.command line]) = heldBack record := by
  unfold heldBack sinceRun
  rw [List.rtakeWhile_concat_pos _ _ _ rfl, codeLines, List.filter_append, List.map_append]
  exact List.append_nil _

theorem heldBack_held (record : List Event) (line : String) :
    heldBack (record ++ [.held line]) = heldBack record ++ [line] := by
  unfold heldBack sinceRun
  rw [List.rtakeWhile_concat_pos _ _ _ rfl, codeLines, List.filter_append, List.map_append]
  rfl

theorem heldBack_ran (record : List Event) (line source : String) :
    heldBack (record ++ [.ran line source]) = [] := by
  unfold heldBack sinceRun
  rw [List.rtakeWhile_concat_neg _ _ _ (by simp [Event.source?])]
  rfl

theorem codeLines_concat (record : List Event) (e : Event) :
    codeLines (record ++ [e]) = codeLines record ++ if e.isCommand then [] else [e.line] := by
  unfold codeLines
  rw [List.filter_append, List.map_append]
  cases e <;> rfl

theorem sources_concat (record : List Event) (e : Event) :
    sources (record ++ [e]) = sources record ++ e.source?.toList := by
  unfold sources
  rw [List.filterMap_append]
  cases e <;> rfl

/-- **A record in good order**: what is held back is lines that do not end a source, every source
that was run ends once, and between them they account for every line that is no command. -/
structure IsTidy (record : List Event) : Prop where
  /-- What is held back is whole lines. -/
  single : ∀ line ∈ heldBack record, '\n' ∉ line.toList
  /-- None of them ends a source. -/
  unended : ∀ line ∈ heldBack record, Source.endsSource line = false
  /-- What was run ends once. -/
  endsOnce : ∀ source ∈ sources record, Source.EndsOnce source
  /-- What was run and what is held back is all there is. -/
  account : String.join (sources record) ++ Source.block (heldBack record)
    = Source.block (codeLines record)

theorem isTidy_nil : IsTidy [] where
  single := by simp [heldBack_nil]
  unended := by simp [heldBack_nil]
  endsOnce := by simp [sources]
  account := by decide

/-- **One more line keeps a record in good order.** -/
theorem IsTidy.ofLine {before : List Event} (h : IsTidy before) {line : String}
    (hsingle : '\n' ∉ line.toList) : IsTidy (before ++ [Event.ofLine before line]) := by
  unfold Event.ofLine
  split_ifs with hcommand hends
  · -- A command is nobody's line.
    have hsources : sources (before ++ [.command line]) = sources before :=
      (sources_concat _ _).trans (List.append_nil _)
    have hcode : codeLines (before ++ [.command line]) = codeLines before :=
      (codeLines_concat _ _).trans (List.append_nil _)
    constructor
    · rw [heldBack_command]
      exact h.single
    · rw [heldBack_command]
      exact h.unended
    · rw [hsources]
      exact h.endsOnce
    · rw [heldBack_command, hsources, hcode]
      exact h.account
  · -- What was held back is in the source now, and nothing is held back any more.
    have hsources : sources (before ++ [.ran line (Source.block (heldBack before ++ [line]))])
        = sources before ++ [Source.block (heldBack before ++ [line])] := sources_concat _ _
    have hcode : codeLines (before ++ [.ran line (Source.block (heldBack before ++ [line]))])
        = codeLines before ++ [line] := codeLines_concat _ _
    constructor
    · simp [heldBack_ran]
    · simp [heldBack_ran]
    · intro source hsource
      rw [hsources, List.mem_append] at hsource
      rcases hsource with hsource | hsource
      · exact h.endsOnce source hsource
      · rw [List.mem_singleton.1 hsource]
        exact Source.endsOnce_block h.single h.unended hsingle hends
    · rw [heldBack_ran, hsources, hcode, Source.block_append, Source.block_append, ← h.account,
        String.join_append, String.join_cons, String.join_nil, Source.block_nil,
        String.append_empty, String.append_empty, String.append_assoc]
  · have hsources : sources (before ++ [.held line]) = sources before :=
      (sources_concat _ _).trans (List.append_nil _)
    have hcode : codeLines (before ++ [.held line]) = codeLines before ++ [line] :=
      codeLines_concat _ _
    constructor
    · intro other hother
      rw [heldBack_held, List.mem_append] at hother
      rcases hother with hother | hother
      · exact h.single other hother
      · exact List.mem_singleton.1 hother ▸ hsingle
    · intro other hother
      rw [heldBack_held, List.mem_append] at hother
      rcases hother with hother | hother
      · exact h.unended other hother
      · exact List.mem_singleton.1 hother ▸ Bool.eq_false_iff.2 hends
    · rw [hsources]
      exact h.endsOnce
    · rw [heldBack_held, hsources, hcode, Source.block_append, Source.block_append, ← h.account,
        String.append_assoc]

/-! ## Records of lines -/

/-- **What every line keeps, a record has**: a property of records that no line takes away holds
of what lines bring about. -/
theorem recordFrom_induction {P : List Event → Prop} {lines : List String}
    (keeps : ∀ before, ∀ line ∈ lines, P before → P (before ++ [Event.ofLine before line]))
    {before : List Event} (h : P before) : P (before ++ recordFrom before lines) := by
  induction lines generalizing before with
  | nil =>
    rw [recordFrom, List.append_nil]
    exact h
  | cons line rest ih =>
    have hnext : P (before ++ [Event.ofLine before line]) := keeps before line List.mem_cons_self h
    rw [recordFrom]
    split
    · exact hnext
    · rw [List.append_cons]
      exact ih (fun b l hl => keeps b l (List.mem_cons_of_mem _ hl)) hnext

theorem line_ofLine (before : List Event) (line : String) :
    (Event.ofLine before line).line = line := by
  unfold Event.ofLine
  split_ifs <;> rfl

theorem isCommand_ofLine (before : List Event) (line : String) :
    (Event.ofLine before line).isCommand = true ↔ isPointed line = true ∧ heldBack before = [] := by
  unfold Event.ofLine
  split_ifs with hcommand hends
  · exact iff_of_true rfl hcommand
  · exact iff_of_false Bool.false_ne_true hcommand
  · exact iff_of_false Bool.false_ne_true hcommand

theorem source?_ofLine (before : List Event) (line source : String) :
    (Event.ofLine before line).source? = some source ↔
      (Event.ofLine before line).isCommand = false ∧ Source.endsSource line = true ∧
        source = Source.block (heldBack before ++ [line]) := by
  unfold Event.ofLine
  split_ifs with hcommand hends
  · simp [Event.source?, Event.isCommand]
  · simp [Event.source?, Event.isCommand, hends, eq_comm]
  · simp [Event.source?, hends]

/-- **A record by the rules**: every event is what becomes of its line after the events before
it. -/
def IsLawful (record : List Event) : Prop :=
  ∀ before e after, record = before ++ e :: after → e = Event.ofLine before e.line

theorem isLawful_nil : IsLawful [] := fun _ _ _ h => absurd h (by simp)

theorem IsLawful.ofLine {record : List Event} (h : IsLawful record) (line : String) :
    IsLawful (record ++ [Event.ofLine record line]) := by
  intro before e after heq
  rcases List.eq_nil_or_concat after with rfl | ⟨init, last, rfl⟩
  · obtain ⟨rfl, hlast⟩ := List.append_inj' heq rfl
    rw [← List.singleton_inj.1 hlast, line_ofLine]
  · rw [List.concat_eq_append, ← List.cons_append, ← List.append_assoc] at heq
    exact h before e init (List.append_inj' heq rfl).1

theorem isLawful_record (lines : List String) : IsLawful (record lines) :=
  recordFrom_induction (fun _ line _ h => h.ofLine line) isLawful_nil

/-- A record has the lines up to the one that leaves the dialogue, or all of them. -/
theorem lines_recordFrom (before : List Event) (lines : List String) :
    ∃ unread, lines = (recordFrom before lines).map Event.line ++ unread ∧
      (unread ≠ [] → (recordFrom before lines).any Event.leaves = true) := by
  induction lines generalizing before with
  | nil => exact ⟨[], rfl, fun h => absurd rfl h⟩
  | cons line rest ih =>
    rw [recordFrom]
    split
    · rename_i hleaves
      refine ⟨rest, ?_, fun _ => ?_⟩
      · rw [List.map_cons, line_ofLine]
        rfl
      · rw [List.any_cons, hleaves]
        rfl
    · obtain ⟨unread, hrest, hunread⟩ := ih (before ++ [Event.ofLine before line])
      refine ⟨unread, ?_, fun hne => ?_⟩
      · rw [List.map_cons, line_ofLine, List.cons_append, ← hrest]
      · rw [List.any_cons, hunread hne, Bool.or_true]

/-- Nothing is recorded behind the event that leaves the dialogue. -/
theorem eq_nil_of_leaves {before : List Event} {lines : List String} {front after : List Event}
    {e : Event} (h : recordFrom before lines = front ++ e :: after) (hleaves : e.leaves = true) :
    after = [] := by
  induction lines generalizing before front with
  | nil => exact absurd h (by simp [recordFrom])
  | cons line rest ih =>
    rw [recordFrom] at h
    cases front with
    | nil =>
      obtain ⟨rfl, htail⟩ := List.cons.inj h
      rw [if_pos hleaves] at htail
      exact htail.symm
    | cons first front =>
      obtain ⟨-, htail⟩ := List.cons.inj h
      split at htail
      · exact absurd htail (by simp)
      · exact ih htail

/-! ## Dialogues and their records -/

/-- The bytes of a line as it is read: they are a text, and this is what its backspaces leave. -/
def Reads (bytes : List UInt8) (line : String) : Prop :=
  ∃ typed, Text.decode? bytes = some typed ∧ Text.settle? typed.toList = some line.toList

theorem feedBytes_of_reads {bytes : List UInt8} {line : String} (h : Reads bytes line)
    (d : Dialogue) : d.feedBytes bytes = d.feed line := by
  obtain ⟨typed, hdecode, hsettle⟩ := h
  rw [feedBytes, hdecode]
  show d.feedTyped typed = d.feed line
  rw [feedTyped, hsettle]
  show d.feed (String.ofList line.toList) = d.feed line
  rw [String.ofList_toList]

/-- The bytes of a text, as a line. -/
def bytesOf (line : String) : List UInt8 := line.toUTF8.data.toList

theorem decode?_bytesOf (line : String) : Text.decode? (bytesOf line) = some line := by
  have hbytes : (bytesOf line).toByteArray = line.toUTF8 := by
    ext1
    simp [bytesOf]
  have hvalid : line.toUTF8.IsValidUTF8 := line.isValidUTF8
  rw [Text.decode?, hbytes, String.fromUTF8?, dif_pos hvalid]
  rfl

/-- **A text without backspaces is read as it is.** -/
theorem reads_bytesOf {line : String} (h : Text.backspace ∉ line.toList) :
    Reads (bytesOf line) line :=
  ⟨line, decode?_bytesOf line, Text.settle?_of_not_mem h⟩

theorem forall₂_reads_bytesOf {lines : List String}
    (h : ∀ line ∈ lines, Text.backspace ∉ line.toList) :
    List.Forall₂ Reads (lines.map bytesOf) lines :=
  List.forall₂_map_left_iff.2
    (List.forall₂_same.2 fun line hline => reads_bytesOf (h line hline))

theorem pending_ask (prompts : Bool) (d : Dialogue) : (d.ask prompts).pending = d.pending := by
  cases prompts <;> rfl

theorem pending_start (s : Session) : (start s).pending = Source.block (heldBack []) := rfl

theorem pending_afterRun (d : Dialogue) (source : String) : (d.afterRun source).pending = "" := by
  unfold afterRun
  rcases d.session.submit source with ⟨session, v | f | u⟩
  · rfl
  · show (if f.isReported then _ else _ : Dialogue).pending = ""
    split <;> rfl
  · rfl

/-- **A dialogue survives every complete source**, and goes on as the session and the complaint
leave it. -/
theorem run_of_isComplete {source : String} (complete : Source.isComplete source = true)
    (d : Dialogue) : d.run source = .going (d.afterRun source) := by
  have hsafe := Session.submit_ne_crash complete d.session
  unfold afterRun run
  rcases hsubmit : d.session.submit source with ⟨session, v | f | u⟩
  · rfl
  · rfl
  · rw [hsubmit] at hsafe
    exact absurd rfl (hsafe u)

/-- Only one command leaves a dialogue. -/
theorem reply_eq_leave_iff {s : Session} {text : String} :
    s.reply text = .leave ↔ text = ".exit" := by
  unfold Session.reply
  split <;> simp_all

/-- Where an event leads to. -/
def progressOf (d : Dialogue) (e : Event) : Progress :=
  if e.leaves then .over (d.perform e) .finished else .going (d.perform e)

theorem progressOf_command (d : Dialogue) (line : String) :
    d.progressOf (.command line)
      = match d.session.reply (commandOf line) with
        | .say text => .going (d.say text)
        | .leave => .over d .finished := by
  have hleaves : (Event.command line).leaves = true ↔ commandOf line = ".exit" :=
    decide_eq_true_iff
  rw [progressOf, perform]
  by_cases hexit : commandOf line = ".exit"
  · rw [reply_eq_leave_iff.2 hexit, if_pos (hleaves.2 hexit)]
  · rw [if_neg (mt hleaves.1 hexit)]
    cases hreply : d.session.reply (commandOf line) with
    | say text => rfl
    | leave => exact absurd (reply_eq_leave_iff.1 hreply) hexit

/-- **What a dialogue does about a line** is what the line becomes, as long as the dialogue holds
back what its record says. -/
theorem feed_eq_progressOf {d : Dialogue} {before : List Event} (h : IsTidy before)
    (hpending : d.pending = Source.block (heldBack before)) {line : String}
    (hsingle : '\n' ∉ line.toList) : d.feed line = d.progressOf (Event.ofLine before line) := by
  -- What is held back is not complete, so the line decides by itself.
  have hincomplete : Source.isComplete d.pending = false := by
    rw [hpending]
    exact Source.isComplete_block_eq_false h.single h.unended
  have hend : d.pending = "" ∨ ∃ front, d.pending = front ++ "\n" := by
    rw [hpending]
    rcases List.eq_nil_or_concat (heldBack before) with hnil | ⟨init, last, hlast⟩
    · rw [hnil]
      exact Or.inl Source.block_nil
    · rw [hlast, List.concat_eq_append, Source.block_concat]
      exact Or.inr ⟨_, rfl⟩
  have hempty : d.pending.isEmpty = true ↔ heldBack before = [] := by
    rw [hpending, Source.isEmpty_block, List.isEmpty_iff]
  have hpointed : isPointed line = true ↔ (Text.strip line.toList).head? = some '.' := by
    rw [Text.head?_strip]
    exact decide_eq_true_iff
  have hintake := Intake.ofLine_eq_ite hincomplete hend line
  rw [Source.isComplete_of_not_mem hsingle] at hintake
  rw [feed, Event.ofLine]
  by_cases hcommand : isPointed line = true ∧ heldBack before = []
  · rw [if_pos ⟨hempty.2 hcommand.2, hpointed.1 hcommand.1⟩] at hintake
    rw [hintake, if_pos hcommand, progressOf_command]
    rfl
  · rw [if_neg fun hboth => hcommand ⟨hpointed.2 hboth.2, hempty.1 hboth.1⟩] at hintake
    rw [if_neg hcommand]
    by_cases hends : Source.endsSource line = true
    · have hcomplete : Source.isComplete (Source.block (heldBack before ++ [line])) = true :=
        (Source.endsOnce_block h.single h.unended hsingle hends).isComplete
      rw [if_pos hends, hpending, ← Source.block_concat] at hintake
      rw [hpending, hintake, if_pos hends]
      exact run_of_isComplete hcomplete d
    · rw [if_neg hends] at hintake
      rw [hintake, if_neg hends]
      rfl

/-- An event leaves a dialogue with what is held back after it. -/
theorem pending_perform_ofLine {d : Dialogue} {before : List Event}
    (hpending : d.pending = Source.block (heldBack before)) (line : String) :
    (d.perform (Event.ofLine before line)).pending
      = Source.block (heldBack (before ++ [Event.ofLine before line])) := by
  unfold Event.ofLine
  split_ifs with hcommand hends
  · rw [heldBack_command, perform]
    split <;> exact hpending
  · rw [heldBack_ran, perform, Source.block_nil, pending_afterRun]
  · rw [heldBack_held, Source.block_concat, ← hpending]
    rfl

/-- A line that does not end the dialogue leaves the other lines to what it leads to. -/
theorem converse_of_going {prompts : Bool} {d next : Dialogue} {bytes : List UInt8}
    {rest : List (List UInt8)} (h : (d.ask prompts).feedBytes bytes = .going next) :
    d.converse prompts (bytes :: rest) = next.converse prompts rest := by
  rw [converse, h]

/-- Nothing is read behind a line that ends the dialogue. -/
theorem converse_of_over {prompts : Bool} {d last : Dialogue} {ending : Ending}
    {bytes : List UInt8} {rest : List (List UInt8)}
    (h : (d.ask prompts).feedBytes bytes = .over last ending) :
    d.converse prompts (bytes :: rest) = (last, ending) := by
  rw [converse, h]

theorem replay_cons (prompts : Bool) (d : Dialogue) (e : Event) (rest : List Event) :
    replay prompts d (e :: rest) = replay prompts ((d.ask prompts).perform e) rest := rfl

/-- **What a dialogue does about many lines**: it performs the events they bring about, and it is
over if one of them leaves it. Whatever comes behind these lines is taken from there. -/
theorem converse_append {before : List Event} (prompts : Bool) {d : Dialogue} (h : IsTidy before)
    (hpending : d.pending = Source.block (heldBack before)) {bytes : List (List UInt8)}
    {lines : List String} (hreads : List.Forall₂ Reads bytes lines)
    (single : ∀ line ∈ lines, '\n' ∉ line.toList) (rest : List (List UInt8)) :
    d.converse prompts (bytes ++ rest)
      = (if (recordFrom before lines).any Event.leaves then
          (replay prompts d (recordFrom before lines), .finished)
        else (replay prompts d (recordFrom before lines)).converse prompts rest) ∧
      (replay prompts d (recordFrom before lines)).pending
        = Source.block (heldBack (before ++ recordFrom before lines)) := by
  induction hreads generalizing before d with
  | nil =>
    rw [recordFrom, List.append_nil]
    exact ⟨rfl, hpending⟩
  | @cons first line bytes lines hread hreads ih =>
    have hsingle : '\n' ∉ line.toList := single line List.mem_cons_self
    have hasked : (d.ask prompts).pending = Source.block (heldBack before) :=
      (pending_ask prompts d).trans hpending
    have hfeed := (feedBytes_of_reads hread (d.ask prompts)).trans
      (feed_eq_progressOf h hasked hsingle)
    have hnext := pending_perform_ofLine hasked line
    obtain ⟨hrun, hheld⟩ := ih (h.ofLine hsingle) hnext
      fun l hl => single l (List.mem_cons_of_mem _ hl)
    rw [progressOf] at hfeed
    rw [List.cons_append, recordFrom]
    by_cases hleaves : (Event.ofLine before line).leaves = true
    · rw [if_pos hleaves] at hfeed
      rw [converse_of_over hfeed, if_pos hleaves, List.any_cons, hleaves]
      exact ⟨rfl, hnext⟩
    · rw [if_neg hleaves] at hfeed
      rw [converse_of_going hfeed, if_neg hleaves, List.any_cons, Bool.eq_false_iff.2 hleaves,
        Bool.false_or, replay_cons, List.append_cons before _ (recordFrom _ lines)]
      exact ⟨hrun, hheld⟩

/-- **A record of lines as a dialogue deals with them.** Where it says what an event is, `before`
is all that has happened before the event. -/
structure IsRecordOf (lines : List String) (record : List Event) : Prop where
  /-- The lines are recorded one by one. What is not recorded comes behind a line that leaves. -/
  heard : ∃ unread, lines = record.map Event.line ++ unread ∧
    (unread ≠ [] → record.any Event.leaves = true)
  /-- A line that leaves is the last one. -/
  left : ∀ before e after, record = before ++ e :: after → e.leaves = true → after = []
  /-- A line is a command exactly if it starts with a point and nothing is held back. -/
  commands : ∀ before e after, record = before ++ e :: after →
    (e.isCommand = true ↔ isPointed e.line = true ∧ heldBack before = [])
  /-- A source is run exactly for a line that is no command and has `RET` for its first word. It
  is the lines held back before it and the line, each with a line feed behind it. -/
  runs : ∀ before e after, record = before ++ e :: after → ∀ source,
    (e.source? = some source ↔ e.isCommand = false ∧ Source.endsSource e.line = true ∧
      source = Source.block (heldBack before ++ [e.line]))
  /-- What is run has one instruction that ends a run, and it is the last one. -/
  endsOnce : ∀ source ∈ sources record, Source.EndsOnce source
  /-- What is run and what is held back in the end are the lines that are no commands, one behind
  the other. -/
  account : String.join (sources record) ++ Source.block (heldBack record)
    = Source.block (codeLines record)

theorem isTidy_record {lines : List String} (single : ∀ line ∈ lines, '\n' ∉ line.toList) :
    IsTidy (record lines) :=
  recordFrom_induction (fun _ line hline h => h.ofLine (single line hline)) isTidy_nil

theorem isRecordOf_record {lines : List String} (single : ∀ line ∈ lines, '\n' ∉ line.toList) :
    IsRecordOf lines (record lines) where
  heard := lines_recordFrom [] lines
  left _ _ _ h hleaves := eq_nil_of_leaves h hleaves
  commands before e after h := by
    have hevent := isLawful_record lines before e after h
    rw [hevent, line_ofLine]
    exact isCommand_ofLine before e.line
  runs before e after h source := by
    have hevent := isLawful_record lines before e after h
    rw [hevent, line_ofLine]
    exact source?_ofLine before e.line source
  endsOnce := (isTidy_record single).endsOnce
  account := (isTidy_record single).account

/-- **How a dialogue is cut into sources.** Let a dialogue begin on any session, and let the bytes
it is given read as lines. Then it performs the events that the lines bring about, each of them
once and in order, and it finishes: where somebody leaves, or, with its cursor on a line of its
own, where there is nothing more to read. A source is run for each line that ends one, and it is
made of the lines held back and of this line. -/
theorem converse_eq_replay (prompts : Bool) (s : Session) {bytes : List (List UInt8)}
    {lines : List String} (hreads : List.Forall₂ Reads bytes lines)
    (single : ∀ line ∈ lines, '\n' ∉ line.toList) :
    IsRecordOf lines (record lines) ∧
      (start s).converse prompts bytes
        = if (record lines).any Event.leaves then
            (replay prompts (start s) (record lines), .finished)
          else (((replay prompts (start s) (record lines)).ask prompts).close, .finished) := by
  refine ⟨isRecordOf_record single, ?_⟩
  have hall := (converse_append prompts isTidy_nil (pending_start s) hreads single []).1
  rw [List.append_nil] at hall
  exact hall

/-- A line with a point first is held back behind a comment, and a stray operand does not keep a
line from ending a source. What comes behind that line is not run. -/
theorem converse_eq_replay_stray_operand :
    sources (record ["; note", ".stack", "nil", "ReT 5 ; x", "TRUE"])
        = ["; note\n.stack\nnil\nReT 5 ; x\n"] ∧
      heldBack (record ["; note", ".stack", "nil", "ReT 5 ; x", "TRUE"]) = ["TRUE"] ∧
      (start (Session.new {} {} {} true)).converse false
          (["; note", ".stack", "nil", "ReT 5 ; x", "TRUE"].map bytesOf)
        = ((replay false (start (Session.new {} {} {} true))
            (record ["; note", ".stack", "nil", "ReT 5 ; x", "TRUE"])).close, .finished) := by
  refine ⟨by decide +kernel, by decide +kernel, ?_⟩
  have hstays : ¬(record ["; note", ".stack", "nil", "ReT 5 ; x", "TRUE"]).any Event.leaves
      = true := by
    decide +kernel
  have hsingle : ∀ line ∈ ["; note", ".stack", "nil", "ReT 5 ; x", "TRUE"],
      '\n' ∉ line.toList := by
    decide +kernel
  have hplain : ∀ line ∈ ["; note", ".stack", "nil", "ReT 5 ; x", "TRUE"],
      Text.backspace ∉ line.toList := by
    decide +kernel
  have hall := (converse_eq_replay false (Session.new {} {} {} true)
    (forall₂_reads_bytesOf hplain) hsingle).2
  rw [if_neg hstays] at hall
  exact hall

/-! ## Commands -/

/-- A line that starts with a point does not end a source. -/
theorem endsSource_of_isPointed {line : String} (h : isPointed line = true) :
    Source.endsSource line = false := by
  have hword : (Source.firstWord line).head? = some '.' :=
    Source.head?_firstWord (of_decide_eq_true h) (by decide)
  obtain ⟨tail, hpoint⟩ := List.head?_eq_some_iff.1 hword
  rw [Source.endsSource, hpoint]
  refine decide_eq_false fun heq => ?_
  have hletter : '.'.toUpper = 'R' := (List.cons.inj heq).1
  exact absurd hletter (by decide)

/-- What is said in reply to a command is never nothing. -/
theorem ne_empty_of_reply {s : Session} {command text : String} (h : s.reply command = .say text) :
    text ≠ "" := by
  unfold Session.reply at h
  split at h
  · rw [← Reply.say.inj h]
    decide
  · rw [← Reply.say.inj h]
    simp [OperandStack.picture]
  · cases h
  · rw [← Reply.say.inj h]
    simp

/-- **What is said arrives at the output**, if this takes everything. -/
theorem written_say {d : Dialogue} (hfree : d.session.machine.out.limit = none) (text : String) :
    (d.say text).session.machine.out.written
      = d.session.machine.out.written ++ text.toUTF8 :=
  Sink.written_write_of_fits (Sink.fits_of_limit_eq_none hfree text)

/-- **When a line that starts with a point is a command.** Let a dialogue have dealt with some
lines, none of which has left it, and let the next line start with a point. If no line is held
back, because all lines since the last run, or since the beginning, were commands, the line is
answered: it leaves the dialogue or has something said, and nothing is held back. What is said is
never nothing, and all of it arrives at an output that takes everything. If a line is held back, be
it blank or a comment, this one is held back behind it. -/
theorem converse_of_isPointed (prompts : Bool) (s : Session) {bytes : List (List UInt8)}
    {lines : List String} (hreads : List.Forall₂ Reads bytes lines)
    (single : ∀ line ∈ lines, '\n' ∉ line.toList)
    (stays : ∀ e ∈ record lines, e.leaves = false) {next : List UInt8} {line : String}
    (hread : Reads next line) (hsingle : '\n' ∉ line.toList) (pointed : isPointed line = true)
    (rest : List (List UInt8)) {d : Dialogue}
    (hd : (replay prompts (start s) (record lines)).ask prompts = d) :
    (heldBack (record lines) = [] →
        d.pending = "" ∧
        (commandOf line = ".exit" →
          (start s).converse prompts (bytes ++ next :: rest) = (d, .finished)) ∧
        (commandOf line ≠ ".exit" → ∃ text,
          d.session.reply (commandOf line) = .say text ∧ text ≠ "" ∧
          (d.session.machine.out.limit = none →
            (d.say text).session.machine.out.written
              = d.session.machine.out.written ++ text.toUTF8) ∧
          (start s).converse prompts (bytes ++ next :: rest)
            = (d.say text).converse prompts rest)) ∧
      (heldBack (record lines) ≠ [] →
        (start s).converse prompts (bytes ++ next :: rest)
          = { d with pending := Source.block (heldBack (record lines) ++ [line]) }.converse
              prompts rest) := by
  have hstays : ¬(record lines).any Event.leaves = true := by
    rw [List.any_eq_true]
    rintro ⟨e, he, hleaves⟩
    exact absurd hleaves (Bool.eq_false_iff.1 (stays e he))
  obtain ⟨hrun, hheld⟩ :=
    converse_append prompts isTidy_nil (pending_start s) hreads single (next :: rest)
  have hpending : d.pending = Source.block (heldBack (record lines)) := by
    rw [← hd, pending_ask]
    exact hheld
  have hfeed : d.feedBytes next = d.progressOf (Event.ofLine (record lines) line) :=
    (feedBytes_of_reads hread d).trans (feed_eq_progressOf (isTidy_record single) hpending hsingle)
  rw [hrun.trans (if_neg hstays)]
  subst hd
  refine ⟨fun hnone => ⟨?_, fun hexit => ?_, fun hother => ?_⟩, fun hsome => ?_⟩
  · rw [hpending, hnone]
    rfl
  · rw [Event.ofLine, if_pos ⟨pointed, hnone⟩, progressOf_command, reply_eq_leave_iff.2 hexit]
      at hfeed
    exact converse_of_over hfeed
  · rw [Event.ofLine, if_pos ⟨pointed, hnone⟩, progressOf_command] at hfeed
    cases hreply : Session.reply _ (commandOf line) with
    | say text =>
      rw [hreply] at hfeed
      exact ⟨text, rfl, ne_empty_of_reply hreply, fun hfree => written_say hfree text,
        converse_of_going hfeed⟩
    | leave => exact absurd (reply_eq_leave_iff.1 hreply) hother
  · have hholds : Event.ofLine (record lines) line = .held line := by
      rw [Event.ofLine, if_neg fun hboth => hsome hboth.2, endsSource_of_isPointed pointed]
      rfl
    rw [hholds] at hfeed
    rw [Source.block_concat, ← hpending]
    exact converse_of_going hfeed

/-- After a source has been run and a command been answered nothing is held back. A dialogue is left
with blanks around the command, and with another command the stack is shown. -/
theorem converse_of_isPointed_blanks :
    heldBack (record ["NIL", "RET", ".stack"]) = [] ∧
      ∃ d : Dialogue, (replay true (start (Session.new {} {} {} false))
          (record ["NIL", "RET", ".stack"])).ask true = d ∧
        (start (Session.new {} {} {} false)).converse true
            (["NIL", "RET", ".stack"].map bytesOf ++ [bytesOf "  .exit ", bytesOf "NIL"])
          = (d, .finished) ∧
        ∃ text, d.session.reply ".stack" = .say text ∧
          (d.say text).session.machine.out.written
            = d.session.machine.out.written ++ text.toUTF8 ∧
          (start (Session.new {} {} {} false)).converse true
              (["NIL", "RET", ".stack"].map bytesOf ++ [bytesOf " .stack", bytesOf ".exit"])
            = (d.say text).converse true [bytesOf ".exit"] := by
  have hsingle : ∀ line ∈ ["NIL", "RET", ".stack"], '\n' ∉ line.toList := by decide +kernel
  have hplain : ∀ line ∈ ["NIL", "RET", ".stack"], Text.backspace ∉ line.toList := by
    decide +kernel
  have hexit : Reads (bytesOf "  .exit ") "  .exit " := reads_bytesOf (by decide +kernel)
  have hstack : Reads (bytesOf " .stack") " .stack" := reads_bytesOf (by decide +kernel)
  have hnone : heldBack (record ["NIL", "RET", ".stack"]) = [] := by decide +kernel
  have hfree : ((replay true (start (Session.new {} {} {} false))
      (record ["NIL", "RET", ".stack"])).ask true).session.machine.out.limit = none := by
    decide +kernel
  obtain ⟨hleaves, -⟩ := converse_of_isPointed true (Session.new {} {} {} false)
    (forall₂_reads_bytesOf hplain) hsingle (by decide +kernel) hexit (by decide +kernel)
    (by decide +kernel) [bytesOf "NIL"] rfl
  obtain ⟨hshows, -⟩ := converse_of_isPointed true (Session.new {} {} {} false)
    (forall₂_reads_bytesOf hplain) hsingle (by decide +kernel) hstack (by decide +kernel)
    (by decide +kernel) [bytesOf ".exit"] rfl
  obtain ⟨text, hreply, -, hwritten, hgoes⟩ := (hshows hnone).2.2 (by decide +kernel)
  have hcommand : commandOf " .stack" = ".stack" := by decide +kernel
  rw [hcommand] at hreply
  exact ⟨hnone, _, rfl, (hleaves hnone).2.1 (by decide +kernel), text, hreply, hwritten hfree,
    hgoes⟩

/-- A blank line is held back, though there is no instruction in it. Behind it nobody leaves: the
command becomes part of the source, which is then turned down because of it. -/
theorem converse_blank_then_exit :
    Source.lines (Source.block (heldBack (record [""]))) = [] ∧ isPointed ".exit" = true ∧
      ((start (Session.new {} {} {} false)).converse false (["", ".exit"].map bytesOf)).1.pending
        = "\n.exit\n" ∧
      ((start (Session.new {} {} {} false)).converse false
          (["", ".exit", "NIL", "RET"].map bytesOf)).1.session.machine.err.written
        = "[line 2] Error: Unknown instruction '.exit'.\n".toUTF8 := by
  decide +kernel

end Dialogue

end StackMachine

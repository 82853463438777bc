import StackMachine.Session
import StackMachine.Text.Backspace

/-!
# Dialogues

In a dialogue, sources arrive line by line. Lines are held back until one of them
completes a source, which is then run as a whole. A line that starts with a point is a
command, but only while no line is held back; a blank line or a comment is held back
like any other.

A line reads as its backspaces leave it, and only then is anything done about it.
What a line amounts to depends on the lines held back and on nothing else
(`Intake.ofLine`), so how a dialogue is cut into sources can be studied without running
any of them.
-/

namespace StackMachine

/-- What the dialogue does about a command. -/
inductive Reply where
  /-- It says something. -/
  | say (text : String)
  /-- It is over. -/
  | leave
  deriving DecidableEq, Inhabited

/-- The answer to a request for help. -/
def helpText : String :=
  "REPL Commands:\n" ++
  "  .help     - Show this help message\n" ++
  "  .stack    - Show the operand stack, bottom first\n" ++
  "  .exit     - Exit the REPL\n"

/-- The reply to a command. -/
def Session.reply (s : Session) (command : String) : Reply :=
  match command with
  | ".help" => .say helpText
  | ".stack" => .say s.machine.stack.picture
  | ".exit" => .leave
  | _ => .say ("Unknown command: " ++ command ++ "\nType .help for available commands\n")

/-- **What a line amounts to.** -/
inductive Intake where
  /-- It is a command. -/
  | command (text : String)
  /-- It is held back, and these are the lines held back now. -/
  | hold (pending : String)
  /-- It completes a source. -/
  | submit (source : String)
  deriving DecidableEq, Inhabited

/-- What a line amounts to after the lines held back so far, each of which ends in a
line feed. All of them are read again, together with the new line, to see whether they
make a complete source. -/
def Intake.ofLine (pending line : String) : Intake :=
  let stripped := Text.strip line.toList
  -- A line held back counts even if it is blank: commands are for an empty buffer.
  if pending.isEmpty && decide (stripped.head? = some '.') then
    .command (String.ofList stripped)
  else
    let source := pending ++ line ++ "\n"
    if Source.isComplete source then .submit source else .hold source

namespace Intake

variable {pending : String}

/-- **The line decides by itself** whether it completes a source, since what is held back
before it is not complete. -/
theorem ofLine_eq_ite (h : Source.isComplete pending = false)
    (hend : pending = "" ∨ ∃ front, pending = front ++ "\n") (line : String) :
    ofLine pending line
      = if pending.isEmpty = true ∧ (Text.strip line.toList).head? = some '.' then
          .command (String.ofList (Text.strip line.toList))
        else if Source.isComplete line then .submit (pending ++ line ++ "\n")
        else .hold (pending ++ line ++ "\n") := by
  unfold ofLine
  dsimp only
  rw [Source.isComplete_append_line h hend]
  simp only [Bool.and_eq_true, decide_eq_true_eq]

end Intake

/-- **A dialogue**: a session and the lines held back. -/
structure Dialogue where
  /-- The session that runs the sources. -/
  session : Session
  /-- The lines held back, each with a line feed behind it. -/
  pending : String := ""
  deriving Inhabited

/-- Why a dialogue or a whole program broke down. -/
inductive Breakdown where
  /-- An instruction reached below the bottom of the stack. -/
  | underflow (u : Underflow)
  /-- A backspace asked for a part of a character. -/
  | splitCharacter
  deriving DecidableEq, Inhabited

/-- How a breakdown reads. -/
def Breakdown.message : Breakdown → String
  | underflow u => u.message
  | splitCharacter => "a backspace would split a character"

/-- How a dialogue or a whole program came to its end. -/
inductive Ending where
  /-- As it should. -/
  | finished
  /-- It could not go on. -/
  | failed (f : Failure)
  /-- It broke down. -/
  | crashed (b : Breakdown)
  deriving DecidableEq, Inhabited

/-- Where a line leads to. -/
inductive Progress where
  /-- More lines are welcome. -/
  | going (d : Dialogue)
  /-- The dialogue is over. -/
  | over (d : Dialogue) (ending : Ending)

namespace Dialogue

/-- The greeting. -/
def banner : String :=
  "Orion VM v0.1.0\n" ++
  "Enter instructions; a RET line runs them. Type .help for commands.\n" ++
  "\n"

/-- Says something. -/
def say (d : Dialogue) (text : String) : Dialogue :=
  { d with session := { d.session with machine := d.session.machine.print text } }

/-- Complains about something. -/
def complain (d : Dialogue) (text : String) : Dialogue :=
  { d with session := { d.session with machine := d.session.machine.complain text } }

/-- A dialogue at its beginning. -/
def start (session : Session) : Dialogue := ({ session := session } : Dialogue).say banner

/-- What is shown before a line is read: whether lines are held back. -/
def prompt (d : Dialogue) : String := if d.pending.isEmpty then "> " else "... "

/-- Shows the prompt, if prompts are shown. -/
def ask (prompts : Bool) (d : Dialogue) : Dialogue := if prompts then d.say d.prompt else d

/-- Runs a complete source and reports a failure that nobody has reported yet. -/
def run (d : Dialogue) (source : String) : Progress :=
  match d.session.submit source with
  | (session, .value _) => .going { session := session }
  | (session, .crash u) => .over { session := session } (.crashed (.underflow u))
  | (session, .failure f) =>
    let d : Dialogue := { session := session }
    .going (if f.isReported then d else d.complain (f.text ++ "\n"))

/-- **Takes one line.** -/
def feed (d : Dialogue) (line : String) : Progress :=
  match Intake.ofLine d.pending line with
  | .command text =>
    match d.session.reply text with
    | .say text => .going (d.say text)
    | .leave => .over d .finished
  | .hold pending => .going { d with pending := pending }
  | .submit source => d.run source

/-- Why a line that is no text cannot be taken. -/
def unreadable : Failure := .dialogue ("Readline error: " ++ FileError.notText.message)

/-- Takes one line as it was typed: its backspaces do their work first. -/
def feedTyped (d : Dialogue) (typed : String) : Progress :=
  match Text.settle? typed.toList with
  | none => .over d (.crashed .splitCharacter)
  | some line => d.feed (String.ofList line)

/-- Takes one line as bytes. -/
def feedBytes (d : Dialogue) (bytes : List UInt8) : Progress :=
  match Text.decode? bytes with
  | none => .over d (.failed unreadable)
  | some typed => d.feedTyped typed

/-- The end of the input: the cursor goes to a line of its own. -/
def close (d : Dialogue) : Dialogue := d.say "\n"

/-- **Holds a dialogue** over lines of input. -/
def converse (prompts : Bool) (d : Dialogue) : List (List UInt8) → Dialogue × Ending
  | [] => ((d.ask prompts).close, .finished)
  | bytes :: rest =>
    match (d.ask prompts).feedBytes bytes with
    | .going d => d.converse prompts rest
    | .over d ending => (d, ending)

/-- A line without backspaces is taken as it was typed. -/
theorem feedTyped_of_not_mem (d : Dialogue) {typed : String}
    (h : Text.backspace ∉ typed.toList) : d.feedTyped typed = d.feed typed := by
  unfold feedTyped
  rw [Text.settle?_of_not_mem h]
  show d.feed (String.ofList typed.toList) = d.feed typed
  rw [String.ofList_toList]

end Dialogue

end StackMachine

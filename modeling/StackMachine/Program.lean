import StackMachine.CommandLine
import StackMachine.Dialogue

/-!
# The program

A whole run of the program, from its arguments to its exit status. Everything it reads
is given beforehand: the arguments, what reading a file brings, the input, and whether
prompts are shown. Everything it does is in its result: what it wrote, and how
it ended. So the program is a function, and the outer layer has only to fetch and
deliver.
-/

namespace StackMachine

namespace Program

/-- What a program finds around it. -/
structure Surroundings where
  /-- What reading the file with a path brings. -/
  files : String → Except FileError ByteArray
  /-- The input, up to its end. -/
  input : ByteArray := .empty
  /-- Whether a dialogue shows its prompts. -/
  prompts : Bool := false

/-- How a process ended. -/
inductive Status where
  /-- It exited with a status. -/
  | exit (code : Nat)
  /-- It broke down. -/
  | crash (b : Breakdown)
  deriving DecidableEq, Inhabited

/-- **What a run of the program leaves behind.** -/
structure Result where
  /-- How it ended. -/
  status : Status
  /-- What it wrote to the output. -/
  out : ByteArray
  /-- What it wrote as diagnostics. -/
  err : ByteArray

/-- The session that was asked for, with sinks that take everything. -/
def session (o : CommandLine.Options) : Session :=
  { machine := Machine.new o.settings {} {}, listing := o.listing }

/-- How a request ended, as far as a process is concerned. -/
def endingOf : Outcome → Ending
  | .value _ => .finished
  | .failure f => .failed f
  | .crash u => .crashed (.underflow u)

/-- The diagnostic with which a process ends. Trouble with a file names the file, if one
was asked for; what has been reported is not repeated. -/
def lastWords (o : CommandLine.Options) (f : Failure) : String :=
  if f.isReported then ""
  else
    match f, o.file with
    | .file reason, some file => "Could not read file \"" ++ file ++ "\": " ++ reason ++ "\n"
    | f, _ => f.text ++ "\n"

/-- The result of a run that left a session and came to an end. -/
def conclude (o : CommandLine.Options) (s : Session) (ending : Ending) : Result :=
  match ending with
  | .finished => ⟨.exit 0, s.machine.out.written, s.machine.err.written⟩
  | .failed f =>
    let machine := s.machine.complain (lastWords o f)
    ⟨.exit f.exitCode, machine.out.written, machine.err.written⟩
  | .crashed b => ⟨.crash b, s.machine.out.written, s.machine.err.written⟩

/-- Runs what was asked for: a file, a source, a dialogue, or nothing at all. -/
def runOptions (world : Surroundings) (o : CommandLine.Options) : Result :=
  match o.file, o.code, o.interactive with
  | some file, _, _ =>
    let (s, outcome) := (session o).load (world.files file)
    conclude o s (endingOf outcome)
  | none, some code, _ =>
    let (s, outcome) := (session o).evaluate code
    conclude o s (endingOf outcome)
  | none, none, true =>
    let (d, ending) :=
      (Dialogue.start (session o)).converse world.prompts (Text.byteLines world.input)
    conclude o d.session ending
  | none, none, false => ⟨.exit 0, CommandLine.usage.toUTF8, .empty⟩

/-- **Runs the program.** -/
def run (world : Surroundings) (arguments : List String) : Result :=
  match CommandLine.parse arguments with
  | .error stop => ⟨.exit stop.exitCode, stop.output.toUTF8, .empty⟩
  | .ok options => runOptions world options

end Program

end StackMachine

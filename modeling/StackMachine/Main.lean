import StackMachine.Program

/-!
# Entry point

The outer layer: it fetches the file that was asked for, or the lines of a dialogue one
by one, hands them to the program, and delivers what the program wrote.
-/

namespace StackMachine

namespace Main

/-- Whether a code stands for an error number. A code is the number or its negation,
depending on which call failed. -/
def isNumber (code number : UInt32) : Bool := code == number || code == 0 - number

/-- Reads the file with a path. Trouble of a kind that has a name is part of the answer;
anything else is left to the caller. -/
def fetch (path : String) : IO (Except FileError ByteArray) :=
  try
    return .ok (← IO.FS.readBinFile path)
  catch
    | .noFileOrDirectory .. => return .error .missing
    | .inappropriateType _ code _ =>
      return .error (if isNumber code 20 then .notDirectory else .directory)
    | .invalidArgument file code details =>
      if isNumber code 36 then return .error .nameTooLong
      else throw (.invalidArgument file code details)
    | e => throw e

/-- Delivers what a machine has written since it was last emptied. -/
def deliver (out err : ByteArray) : IO Unit := do
  let stdout ← IO.getStdout
  let stderr ← IO.getStderr
  stdout.write out
  stdout.flush
  stderr.write err
  stderr.flush

/-- Delivers what the dialogue has written and empties its sinks. -/
def deliverDialogue (d : Dialogue) : IO Dialogue := do
  let machine := d.session.machine
  deliver machine.out.written machine.err.written
  let emptied := { machine with out := {}, err := {} }
  return { d with session := { d.session with machine := emptied } }

/-- Reads the rest of a line of which some bytes are there, the last one first; nothing at
the end of the input. -/
partial def readLine (input : IO.FS.Stream) (line : List UInt8) :
    IO (Option (List UInt8)) := do
  let next ← input.read 1
  match next.toList with
  | [] => return if line.isEmpty then none else some line.reverse
  | byte :: _ =>
    if byte == Text.lineFeed then return some (Text.dropReturn line.reverse)
    else readLine input (byte :: line)

/-- Holds a dialogue with whoever writes the input. -/
partial def converse (input : IO.FS.Stream) (prompts : Bool) (d : Dialogue) :
    IO (Dialogue × Ending) := do
  let d ← deliverDialogue (d.ask prompts)
  match ← readLine input [] with
  | none => return (d.close, .finished)
  | some bytes =>
    match d.feedBytes bytes with
    | .going d => converse input prompts d
    | .over d ending => return (d, ending)

/-- Delivers a result and gives the exit status. -/
def finish (result : Program.Result) : IO UInt32 := do
  deliver result.out result.err
  match result.status with
  | .exit code => return UInt32.ofNat code
  | .crash b =>
    IO.eprintln b.message
    return 101

end Main

end StackMachine

open StackMachine in
/-- Runs the program on its arguments. -/
def main (arguments : List String) : IO UInt32 := do
  match CommandLine.parse arguments with
  | .ok options =>
    match options.file, options.code, options.interactive with
    | none, none, true =>
      let input ← IO.getStdin
      let prompts ← input.isTty
      let (d, ending) ←
        Main.converse input prompts (Dialogue.start (Program.session options))
      Main.finish (Program.conclude options d.session ending)
    | some path, _, _ =>
      let contents ← Main.fetch path
      Main.finish (Program.runOptions { files := fun _ => contents } options)
    | _, _, _ => Main.finish (Program.runOptions { files := fun _ => .error .missing } options)
  | .error _ => Main.finish (Program.run { files := fun _ => .error .missing } arguments)

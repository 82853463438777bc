import StackMachine.FileTree
import StackMachine.Machine.Basic
import StackMachine.Text.Lines

/-!
# Sessions

A session is a machine that takes one source after the other, all of them through the same
assembler. It may list each program before it runs. Sources come as text (`evaluate`), as the
complete inputs of a dialogue (`submit`), which start on an emptied stack, or out of a file
(`load`).
-/

namespace StackMachine

/-- **A machine that takes sources.** -/
structure Session where
  /-- The machine. -/
  machine : Machine
  /-- Whether each program is listed before it runs. -/
  listing : Bool := false
  /-- The assembler, with what the last source left in it. -/
  assembly : Assembly := {}
  deriving Inhabited

namespace Session

/-- Runs an assembled program. -/
def execute (s : Session) (c : Chunk) : Session × Outcome :=
  let (machine, outcome) := s.machine.execute c
  ({ s with machine := machine }, outcome)

/-- Lists an assembled program, if programs are listed, and runs it. A listing that
cannot be written counts as trouble with the file. -/
def listAndExecute (s : Session) (c : Chunk) : Session × Outcome :=
  if s.listing then
    let text := Listing.text c Listing.programName
    let listed := { s with machine := s.machine.print text }
    match s.machine.out.writeError? text with
    | some e => (listed, .failure (.file e.message))
    | none => listed.execute c
  else s.execute c

/-- **Assembles and runs a source.** -/
def evaluate (s : Session) (source : String) : Session × Outcome :=
  match s.assembly.next source with
  | (assembly, .error rejection) =>
    ({ s with assembly := assembly }, .failure (.rejected rejection.toSourceError))
  | (assembly, .ok chunk) => { s with assembly := assembly }.listAndExecute chunk

/-- Empties the operand stack. -/
def reset (s : Session) : Session := { s with machine := s.machine.reset }

/-- Runs a complete input of a dialogue, on an emptied stack. What it leaves on the
stack stays there until the next one. -/
def submit (s : Session) (source : String) : Session × Outcome := s.reset.evaluate source

/-- Runs the source in a file, given what reading the file brought. -/
def load (s : Session) (file : Except FileError ByteArray) : Session × Outcome :=
  match FileTree.textOf file with
  | .error e => (s, .failure (.file e.message))
  | .ok source => s.evaluate source

/-! ## Small laws -/

/-- A source that is turned down leaves the machine alone. -/
theorem evaluate_of_error {s : Session} {source : String} {r : Assembly.Rejection}
    (h : assemble source = .error r) :
    (s.evaluate source).1.machine = s.machine ∧
      (s.evaluate source).2 = .failure (.rejected r.toSourceError) := by
  have hnext : (s.assembly.next source).2 = .error r := h
  unfold evaluate
  split
  · rename_i a r' heq
    rw [heq] at hnext
    cases hnext
    exact ⟨rfl, rfl⟩
  · rename_i a c heq
    rw [heq] at hnext
    cases hnext

/-- A file that holds a text is run as that text. -/
theorem load_of_text {s : Session} {file : Except FileError ByteArray} {source : String}
    (h : FileTree.textOf file = .ok source) : s.load file = s.evaluate source := by
  unfold load
  rw [h]

end Session

end StackMachine

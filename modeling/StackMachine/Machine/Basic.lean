import StackMachine.Assembly
import StackMachine.Machine.Run

/-!
# The machine between runs

A machine outlives the chunks it runs. Between runs it keeps its settings, its operand
stack with whatever the last run left there, and its two sinks. Executing a chunk runs
it from its first byte and then flushes the output. Of two things that go wrong the
run's comes first: a failed flush shows only after a run that handed back a value.
-/

namespace StackMachine

/-- What a machine can be set to. -/
structure Settings where
  /-- Whether runs are traced. -/
  tracing : Bool := false
  /-- How many values the stack has room for at the start. -/
  capacity : Nat := OperandStack.defaultCapacity
  deriving DecidableEq, Inhabited

/-- The settings with another capacity, of one at least. -/
def Settings.withCapacity (s : Settings) (capacity : Nat) : Settings :=
  { s with capacity := max capacity 1 }

/-- **How a request ended.** -/
inductive Outcome where
  /-- A value came back. -/
  | value (v : Value)
  /-- The request failed. -/
  | failure (f : Failure)
  /-- The machine reached below the bottom of its stack and gave up. -/
  | crash (u : Underflow)
  deriving DecidableEq, Inhabited

/-- The outcome of a run that halted. -/
def Halt.outcome : Halt → Outcome
  | returned v => .value v
  | typeError e => .failure (.typeError e)
  | malformed m => .failure (.malformed m.message)
  | outputFailed e => .failure (.output e.message)
  | underflow u => .crash u

/-- **A machine between runs.** -/
structure Machine where
  /-- Its settings. -/
  settings : Settings
  /-- Its operand stack. -/
  stack : OperandStack
  /-- Where returned values and traces go. -/
  out : Sink
  /-- Where diagnostics go. -/
  err : Sink
  deriving Inhabited

namespace Machine

/-- A machine that has not run anything. -/
def new (settings : Settings) (out err : Sink) : Machine :=
  ⟨settings, .ofCapacity settings.capacity, out, err⟩

/-- The state in which the machine starts a chunk. -/
def start (m : Machine) : State := ⟨0, m.stack, m.out, m.err⟩

/-- The machine after a run that has left it in a state. -/
def resume (m : Machine) (s : State) : Machine :=
  { m with stack := s.stack, out := s.out, err := s.err }

/-- The outcome of a run once the output has been flushed. -/
def afterFlush (out : Sink) (reason : Halt) : Outcome :=
  match reason.outcome, out.flushError? with
  | .value _, some e => .failure (.output e.message)
  | outcome, _ => outcome

/-- **Runs a chunk** from its first byte and flushes the output. -/
def execute (m : Machine) (c : Chunk) : Machine × Outcome :=
  let (s, reason) := m.start.run m.settings.tracing c
  (m.resume s, afterFlush s.out reason)

/-- Compiles a source and runs what comes of it. A source that is turned down leaves
the machine alone. -/
def interpret (m : Machine) (compiler : Compiler) (source : String) : Machine × Outcome :=
  match compiler source with
  | .error e => (m, .failure (.rejected e))
  | .ok chunk => m.execute chunk

/-- Turns tracing on or off for the runs to come. -/
def setTracing (m : Machine) (tracing : Bool) : Machine :=
  { m with settings := { m.settings with tracing := tracing } }

/-- Empties the operand stack. -/
def reset (m : Machine) : Machine := { m with stack := m.stack.clear }

/-- Writes to the output beside what the runs write. -/
def print (m : Machine) (text : String) : Machine := { m with out := m.out.write text }

/-- Writes a diagnostic beside those the runs write. -/
def complain (m : Machine) (text : String) : Machine := { m with err := m.err.write text }

/-! ## Small laws -/

/-- Executing a chunk leaves the settings alone. -/
@[simp] theorem settings_execute (m : Machine) (c : Chunk) :
    (m.execute c).1.settings = m.settings := rfl

/-- **A failed flush hides no failure of the run.** -/
theorem afterFlush_of_failure (out : Sink) {reason : Halt} {f : Failure}
    (h : reason.outcome = .failure f) : afterFlush out reason = .failure f := by
  unfold afterFlush
  rw [h]

end Machine

end StackMachine

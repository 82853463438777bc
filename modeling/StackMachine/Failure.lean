import StackMachine.Decimal.Fixed

/-!
# Failures and their wording

A program can be turned down before it runs (`SourceError`) or while it runs
(`RunError`); both know the source line that is to blame. `Failure` adds the ways
in which a run can fail that are not the program's fault, and says for each how it
reads and with which status a process ends over it: 65 for bad input, 70 for a failed
run, 74 for trouble with a stream or a file.
-/

namespace StackMachine

/-- Why a source was turned down, and where. -/
structure SourceError where
  /-- What is wrong. -/
  message : String
  /-- The line it is wrong on. -/
  line : Nat
  deriving DecidableEq, Inhabited

/-- The diagnostic for a source that was turned down. -/
def SourceError.text (e : SourceError) : String :=
  "[line " ++ Decimal.text e.line ++ "] Error: " ++ e.message

/-- Which operands an instruction cannot work with. -/
inductive TypeFault where
  /-- The one operand is no number. -/
  | operand
  /-- One of the two operands is no number. -/
  | operands
  deriving DecidableEq, Inhabited

/-- How a fault in the operands reads. -/
def TypeFault.message : TypeFault → String
  | operand => "Operand must be a number."
  | operands => "Operands must be numbers."

/-- Why a run was broken off, and at which line. -/
structure RunError where
  /-- What went wrong. -/
  message : String
  /-- The line of the instruction that failed. -/
  line : Nat
  deriving DecidableEq, Inhabited

/-- The diagnostic for a run that was broken off, in two lines. -/
def RunError.text (e : RunError) : String :=
  e.message ++ "\n[line " ++ Decimal.text e.line ++ "] in script"

/-- **The ways in which a request can fail.** -/
inductive Failure where
  /-- The source was turned down; nothing ran. -/
  | rejected (e : SourceError)
  /-- An instruction met operands of the wrong kind. -/
  | typeError (e : RunError)
  /-- The chunk broke a rule of its encoding. -/
  | malformed (reason : String)
  /-- The output of the run could not be written. -/
  | output (reason : String)
  /-- A file could not be dealt with. -/
  | file (reason : String)
  /-- The dialogue could not go on. -/
  | dialogue (reason : String)
  deriving DecidableEq, Inhabited

namespace Failure

/-- What went wrong, without saying what kind of failure it is. -/
def message : Failure → String
  | rejected e => e.message
  | typeError e => e.message
  | malformed reason | output reason | file reason | dialogue reason => reason

/-- The diagnostic of a failure. -/
def text : Failure → String
  | rejected e => e.text
  | typeError e => e.text
  | malformed reason => "internal error: " ++ reason
  | output reason => "output error: " ++ reason
  | file reason => "File error: " ++ reason
  | dialogue reason => "REPL error: " ++ reason

/-- The status a process ends with over a failure. -/
def exitCode : Failure → Nat
  | rejected _ => 65
  | typeError _ | malformed _ => 70
  | output _ | file _ | dialogue _ => 74

/-- Whether the machine has written the diagnostic itself, so that nobody else
should. -/
def isReported : Failure → Bool
  | typeError _ => true
  | _ => false

end Failure

end StackMachine

import StackMachine.Machine.Basic

/-!
# The command line

The program takes flags and options that carry a value, in a long form (`--file x`,
`--file=x`) and some also in a short form (`-f x`, `-fx`, `-f=x`), where flags may share
one argument (`-rf x`). Arguments are read from left to right.

An option whose value stands in an argument of its own waits for it. Such an option is
settled, which is to say checked and stored, not when its value arrives but when the
next flag or option is recognised, or at the end. An argument that cannot be recognised
is refused on the spot, so it is blamed before a waiting option is. Settling looks for
the value first, then whether the option was given before, and last at the form of the
value.
-/

namespace StackMachine

namespace CommandLine

/-- Why the arguments lead to no run. -/
inductive Stop where
  /-- An argument is not known, or stands where none is taken. -/
  | unknownArgument
  /-- A flag was given a value. -/
  | tooManyValues
  /-- Help was asked for. -/
  | showHelp
  /-- The version was asked for. -/
  | showVersion
  /-- An argument was given twice, or two were given that exclude each other. -/
  | conflict
  /-- An option has no value. -/
  | missingValue
  /-- The value of an option has the wrong form. -/
  | invalidValue
  deriving DecidableEq, Inhabited

/-- The flags. -/
inductive Flag where
  /-- Hold a dialogue. -/
  | interactive
  /-- Trace the runs. -/
  | tracing
  /-- List each program before it runs. -/
  | listing
  /-- Show help. -/
  | help
  /-- Show the version. -/
  | version
  deriving DecidableEq, Inhabited

/-- The options that carry a value. -/
inductive Valued where
  /-- The file to run. -/
  | file
  /-- The source to run. -/
  | code
  /-- The room of the stack at the start. -/
  | capacity
  deriving DecidableEq, Inhabited

/-- What a name on the command line stands for. -/
inductive Switch where
  /-- A flag. -/
  | flag (f : Flag)
  /-- An option. -/
  | valued (o : Valued)
  deriving DecidableEq, Inhabited

/-- The long names. -/
def ofLong? (name : List Char) : Option Switch :=
  match String.ofList name with
  | "file" => some (.valued .file)
  | "eval" => some (.valued .code)
  | "repl" => some (.flag .interactive)
  | "trace" => some (.flag .tracing)
  | "print-bytecode" => some (.flag .listing)
  | "stack-capacity" => some (.valued .capacity)
  | "help" => some (.flag .help)
  | "version" => some (.flag .version)
  | _ => none

/-- The short names. -/
def ofShort? : Char → Option Switch
  | 'f' => some (.valued .file)
  | 'e' => some (.valued .code)
  | 'r' => some (.flag .interactive)
  | 'h' => some (.flag .help)
  | 'V' => some (.flag .version)
  | _ => none

/-- **What was asked for** on the command line. -/
structure Options where
  /-- The file to run. -/
  file : Option String := none
  /-- The source to run. -/
  code : Option String := none
  /-- Whether to hold a dialogue. -/
  interactive : Bool := false
  /-- Whether to trace the runs. -/
  tracing : Bool := false
  /-- Whether to list each program before it runs. -/
  listing : Bool := false
  /-- The room of the stack at the start. -/
  capacity : Nat := OperandStack.defaultCapacity
  deriving DecidableEq, Inhabited

/-- The options of a run of one file. -/
def Options.ofFile (file : String) : Options := { file := some file }

/-- The settings of the machine that were asked for. -/
def Options.settings (o : Options) : Settings :=
  ({ tracing := o.tracing } : Settings).withCapacity o.capacity

/-! ## Reading -/

/-- The arguments settled so far, and the option that waits, with its value once it has
arrived. -/
structure Reader where
  /-- The file, once it is settled. -/
  file : Option String := none
  /-- The source, once it is settled. -/
  code : Option String := none
  /-- Whether the flag for a dialogue was given. -/
  interactive : Bool := false
  /-- Whether the flag for tracing was given. -/
  tracing : Bool := false
  /-- Whether the flag for listings was given. -/
  listing : Bool := false
  /-- The capacity, once it is settled. -/
  capacity : Option Nat := none
  /-- The option that waits to be settled. -/
  waiting : Option (Valued × Option String) := none
  deriving DecidableEq, Inhabited

/-- One more than the greatest capacity that can be asked for, `2 ^ 64`. -/
def capacityLimit : Nat := 18446744073709551616

/-- Reads a capacity: decimal digits, with a plus sign before them or not. -/
def readCapacity? (value : String) : Option Nat :=
  let ds :=
    match value.toList with
    | '+' :: rest => rest
    | rest => rest
  if ds ≠ [] ∧ ds.all Char.isDigit ∧ Decimal.value ds < capacityLimit then
    some (Decimal.value ds)
  else none

namespace Reader

/-- Stores the value of an option. -/
def assign (r : Reader) (value : String) : Valued → Except Stop Reader
  | .file => if r.file.isSome then .error .conflict else .ok { r with file := some value }
  | .code => if r.code.isSome then .error .conflict else .ok { r with code := some value }
  | .capacity =>
    if r.capacity.isSome then .error .conflict
    else
      match readCapacity? value with
      | none => .error .invalidValue
      | some n => .ok { r with capacity := some n }

/-- Settles the option that waits, if one does. -/
def settle (r : Reader) : Except Stop Reader :=
  match r.waiting with
  | none => .ok r
  | some (_, none) => .error .missingValue
  | some (option, some value) => { r with waiting := none }.assign value option

/-- Takes a flag. -/
def raise (r : Reader) : Flag → Except Stop Reader
  | .interactive =>
    if r.interactive then .error .conflict else .ok { r with interactive := true }
  | .tracing => if r.tracing then .error .conflict else .ok { r with tracing := true }
  | .listing => if r.listing then .error .conflict else .ok { r with listing := true }
  | .help => .error .showHelp
  | .version => .error .showVersion

/-- Takes an option that has been recognised, with its value if it is attached. -/
def takeValued (r : Reader) (option : Valued) (attached : Option String) :
    Except Stop Reader :=
  match r.settle with
  | .error stop => .error stop
  | .ok r =>
    match attached with
    | some value => r.assign value option
    | none => .ok { r with waiting := some (option, none) }

/-- Takes a flag that has been recognised. -/
def takeFlag (r : Reader) (flag : Flag) : Except Stop Reader :=
  match r.settle with
  | .error stop => .error stop
  | .ok r => r.raise flag

/-- Takes an argument in the long form, without its two dashes. -/
def takeLong (r : Reader) (cs : List Char) : Except Stop Reader :=
  let attached :=
    match cs.dropWhile fun c => c != '=' with
    | [] => none
    | _ :: value => some (String.ofList value)
  match ofLong? (cs.takeWhile fun c => c != '='), attached with
  | none, _ => .error .unknownArgument
  | some (.flag _), some _ => .error .tooManyValues
  | some (.flag flag), none => r.takeFlag flag
  | some (.valued option), attached => r.takeValued option attached

/-- The value attached to a short option, of which one equals sign is not a part. -/
def attachedValue : List Char → Option String
  | [] => none
  | '=' :: value => some (String.ofList value)
  | value => some (String.ofList value)

/-- Takes an argument in the short form, without its dash. -/
def takeShort (r : Reader) : List Char → Except Stop Reader
  | [] => .ok r
  | c :: rest =>
    match ofShort? c with
    | none => .error .unknownArgument
    | some (.valued option) => r.takeValued option (attachedValue rest)
    | some (.flag flag) =>
      -- A flag takes no value, so the next character is a name again, even `=`.
      match r.takeFlag flag with
      | .error stop => .error stop
      | .ok r => r.takeShort rest

/-- Takes an argument that is neither: the value of the option that waits for one. -/
def takeValue (r : Reader) (value : String) : Except Stop Reader :=
  match r.waiting with
  | some (option, none) => .ok { r with waiting := some (option, some value) }
  | _ => .error .unknownArgument

/-- Takes one argument that does not end the options. -/
def take (r : Reader) (argument : String) : Except Stop Reader :=
  match argument.toList with
  | '-' :: '-' :: cs => r.takeLong cs
  | '-' :: c :: cs => r.takeShort (c :: cs)
  | _ => r.takeValue argument

/-- Whether two ways to run were asked for. -/
def isTorn (r : Reader) : Bool :=
  r.file.isSome && (r.code.isSome || r.interactive) || r.code.isSome && r.interactive

/-- The options once all arguments are read. -/
def finish (r : Reader) : Except Stop Options :=
  match r.settle with
  | .error stop => .error stop
  | .ok r =>
    if r.isTorn then .error .conflict
    else
      .ok {
        file := r.file
        code := r.code
        interactive := r.interactive
        tracing := r.tracing
        listing := r.listing
        capacity := r.capacity.getD OperandStack.defaultCapacity }

/-- Reads arguments. Two dashes alone end the options, and nothing may follow them. -/
def readAll (r : Reader) : List String → Except Stop Options
  | [] => r.finish
  | "--" :: rest => if rest.isEmpty then r.finish else .error .unknownArgument
  | argument :: rest =>
    match r.take argument with
    | .error stop => .error stop
    | .ok r => r.readAll rest

end Reader

/-- **Reads a command line.** -/
def parse (arguments : List String) : Except Stop Options := Reader.readAll {} arguments

/-! ## What is shown instead of a run -/

/-- The help page. -/
def helpPage : String :=
  "Run Orion bytecode assembly\n" ++
  "\n" ++
  "Usage: orion [OPTIONS]\n" ++
  "\n" ++
  "Options:\n" ++
  "  -f, --file <FILE>         Assembly file to run\n" ++
  "  -e, --eval <CODE>         Inline assembly to run\n" ++
  "  -r, --repl                Start the interactive REPL\n" ++
  "      --trace               Print the stack and each instruction as it executes\n" ++
  "      --print-bytecode      Print the disassembled chunk before running it\n" ++
  "      --stack-capacity <N>  Initial operand stack capacity [default: 256]\n" ++
  "  -h, --help                Print help\n" ++
  "  -V, --version             Print version\n"

/-- The version line. -/
def versionLine : String := "orion 0.1.0\n"

/-- What is shown to somebody who asked for nothing. -/
def usage : String :=
  "Orion VM v0.1.0\n" ++
  "\n" ++
  "Usage:\n" ++
  "  orion --file <FILE>     Run an assembly file\n" ++
  "  orion --eval <CODE>     Run inline assembly\n" ++
  "  orion --repl            Start interactive REPL\n" ++
  "\n" ++
  "Run 'orion --help' for more options.\n"

/-- What a command line that leads to no run writes to the output. -/
def Stop.output : Stop → String
  | showHelp => helpPage
  | showVersion => versionLine
  | _ => ""

/-- The status of a process whose command line leads to no run. -/
def Stop.exitCode : Stop → Nat
  | showHelp | showVersion => 0
  | _ => 2

end CommandLine

end StackMachine

import StackMachine.Assembly
import StackMachine.Binary64.Arithmetic
import StackMachine.Binary64.Basic
import StackMachine.Binary64.Rounding
import StackMachine.Chunk
import StackMachine.CommandLine
import StackMachine.Decimal.Fixed
import StackMachine.Decimal.Numeral
import StackMachine.Dialogue
import StackMachine.Failure
import StackMachine.FileTree
import StackMachine.Listing
import StackMachine.Literal
import StackMachine.Machine.Basic
import StackMachine.Machine.Effect
import StackMachine.Machine.Run
import StackMachine.Machine.Step
import StackMachine.Main
import StackMachine.Opcode
import StackMachine.OperandStack
import StackMachine.Program
import StackMachine.Proofs.Acceptance
import StackMachine.Proofs.Arguments
import StackMachine.Proofs.Blocks
import StackMachine.Proofs.Bounds
import StackMachine.Proofs.Building
import StackMachine.Proofs.Columns
import StackMachine.Proofs.Composition
import StackMachine.Proofs.CorrectRounding
import StackMachine.Proofs.Coverage
import StackMachine.Proofs.DeadCode
import StackMachine.Proofs.Decoding
import StackMachine.Proofs.Depth
import StackMachine.Proofs.Encoding
import StackMachine.Proofs.Evaluation
import StackMachine.Proofs.Frame
import StackMachine.Proofs.Growth
import StackMachine.Proofs.HighWater
import StackMachine.Proofs.History
import StackMachine.Proofs.LineColumn
import StackMachine.Proofs.LineTable
import StackMachine.Proofs.Nearest
import StackMachine.Proofs.NumberText
import StackMachine.Proofs.Numerals
import StackMachine.Proofs.Process
import StackMachine.Proofs.ReadBack
import StackMachine.Proofs.Safety
import StackMachine.Proofs.Segmentation
import StackMachine.Proofs.Service
import StackMachine.Proofs.Simulation
import StackMachine.Proofs.Streams
import StackMachine.Proofs.Submission
import StackMachine.Proofs.Tables
import StackMachine.Proofs.Tracing
import StackMachine.Proofs.Trouble
import StackMachine.Proofs.WriteBack
import StackMachine.Proofs.Writes
import StackMachine.Session
import StackMachine.Sink
import StackMachine.Source
import StackMachine.Text.Backspace
import StackMachine.Text.Blank
import StackMachine.Text.Cluster
import StackMachine.Text.ClusterBreak
import StackMachine.Text.Lines
import StackMachine.Value

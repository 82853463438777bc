/-!
# Lines of a byte stream

Input arrives as bytes and is read line by line. A line ends at a line feed, or at
the end of the stream if bytes are left there; a carriage return right before the
line feed belongs to the ending. Lines are cut before anything is decoded, so a line
that is no valid text spoils only itself.
-/

namespace StackMachine

namespace Text

/-- The byte that ends a line. -/
def lineFeed : UInt8 := 10

/-- The byte that may stand before a line feed. -/
def carriageReturn : UInt8 := 13

/-- A line without the carriage return at its end, if it has one. -/
def dropReturn (line : List UInt8) : List UInt8 :=
  if line.getLast? = some carriageReturn then line.dropLast else line

/-- The pieces between line feeds, of which the last one is what no line feed
ends. -/
def linesOfPieces : List (List UInt8) → List (List UInt8)
  | [] => []
  | [unended] => if unended = [] then [] else [unended]
  | line :: rest => dropReturn line :: linesOfPieces rest

/-- The lines of a stream, each without its ending. -/
def byteLines (stream : ByteArray) : List (List UInt8) :=
  linesOfPieces (stream.toList.splitOnP fun b => b == lineFeed)

/-- The text that bytes encode, or nothing if they are not valid UTF-8. -/
def decode? (bytes : List UInt8) : Option String :=
  String.fromUTF8? bytes.toByteArray

end Text

end StackMachine

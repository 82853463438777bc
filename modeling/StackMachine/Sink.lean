/-!
# Byte sinks

What the machine writes goes into a sink: bytes that have arrived, and possibly a
limit on how many it takes in all. A text that does not fit is cut: what still fits
arrives, and the write fails. Whether a text fits (`Sink.fits`) and what a write
leaves behind (`Sink.write`) are two functions, as one caller breaks off when a write
fails while another takes no notice.

A sink may also refuse to be flushed. Flushing moves no bytes here; all that shows of
it is whether it succeeds.
-/

namespace StackMachine

/-- How a stream can fail. -/
inductive StreamError where
  /-- A text did not fit. -/
  | full
  /-- The stream could not be flushed. -/
  | closed
  deriving DecidableEq, Inhabited

/-- How the failure of a stream reads. -/
def StreamError.message : StreamError → String
  | full => "stream full"
  | closed => "stream closed"

/-- **A place that bytes are written to.** -/
structure Sink where
  /-- The bytes that have arrived. -/
  written : ByteArray := .empty
  /-- How many bytes are taken in all, if there is a limit. -/
  limit : Option Nat := none
  /-- Whether flushing succeeds. -/
  flushes : Bool := true
  deriving Inhabited

namespace Sink

/-- Whether there is room for all of a text. -/
def fits (s : Sink) (text : String) : Bool :=
  match s.limit with
  | none => true
  | some limit => decide (s.written.size + text.utf8ByteSize ≤ limit)

/-- The part of a text there is room for, as bytes. -/
def cut (s : Sink) (text : String) : ByteArray :=
  match s.limit with
  | none => text.toUTF8
  | some limit => text.toUTF8.extract 0 (limit - s.written.size)

/-- The sink after a write: as much of the text has arrived as there was room for. -/
def write (s : Sink) (text : String) : Sink :=
  { s with written := s.written ++ s.cut text }

/-- The failure of a write, if it fails. -/
def writeError? (s : Sink) (text : String) : Option StreamError :=
  if s.fits text then none else some .full

/-- The failure of flushing, if it fails. -/
def flushError? (s : Sink) : Option StreamError :=
  if s.flushes then none else some .closed

/-! ## What a write leaves behind -/

@[simp] theorem limit_write (s : Sink) (text : String) : (s.write text).limit = s.limit :=
  rfl

@[simp] theorem flushes_write (s : Sink) (text : String) :
    (s.write text).flushes = s.flushes := rfl

/-- Without a limit every text fits. -/
@[simp] theorem fits_of_limit_eq_none {s : Sink} (h : s.limit = none) (text : String) :
    s.fits text = true := by
  simp [fits, h]

/-- **A text that fits arrives whole.** -/
theorem written_write_of_fits {s : Sink} {text : String} (h : s.fits text = true) :
    (s.write text).written = s.written ++ text.toUTF8 := by
  show s.written ++ s.cut text = s.written ++ text.toUTF8
  refine congrArg (s.written ++ ·) ?_
  unfold cut
  unfold fits at h
  split
  · rfl
  · rename_i limit hlimit
    rw [hlimit] at h
    have hle := of_decide_eq_true h
    ext1
    simp
    omega

end Sink

end StackMachine

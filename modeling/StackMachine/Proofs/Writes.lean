import StackMachine.Proofs.Decoding
import StackMachine.Proofs.Simulation

/-!
# What a run writes

A run writes to two sinks, and what it finds out about them is little: whether a text fitted
into the output. Everything else about a run is settled by the chunk, the offset and the stack.
This module says so once, for chunks of any bytes, so that whoever changes the sinks or asks
for a trace need not look at an instruction again.

The first half is about one step. `State.Acts` lists what a step can do as a function of its
sinks: go on without touching them, hand back a value, complain, or give up. It also says
where a step that goes on leads to, which is the offset of the next row of the listing.

The second half is about whole runs. `State.writes` are the texts a run puts into an output
that takes all of them, each with the offset and the stack the machine has at that moment.
`Sink.deliver` puts them into any other output, up to the first that does not fit, and
`State.run_on_sinks` is the law: a run on other sinks is the delivery of these texts, and where
the delivery breaks off, so does the run.
-/

namespace StackMachine

namespace Halt

/-- What is written over a halt: the diagnostic of a type error, and nothing otherwise. -/
def complaint : Halt → String
  | typeError e => e.text ++ "\n"
  | _ => ""

@[simp] theorem complaint_returned (v : Value) : (returned v).complaint = "" := rfl

/-- **What a chunk is to blame for** if a step at an offset gives up. -/
inductive Blames (c : Chunk) (offset : Nat) : Halt → Prop where
  /-- There is no byte to read. -/
  | pastEnd (h : c.size ≤ offset) : Blames c offset (.malformed (.pastEnd offset))
  /-- There is one, but no instruction can be made of it. -/
  | malformed {m : Malformed} (h : ∀ n, m ≠ .pastEnd n) : Blames c offset (.malformed m)
  /-- The instruction reaches below the bottom of the stack. -/
  | underflow (u : Underflow) : Blames c offset (.underflow u)

theorem Blames.complaint_eq {c : Chunk} {offset : Nat} {reason : Halt}
    (h : reason.Blames c offset) : reason.complaint = "" := by
  cases h <;> rfl

end Halt

namespace State

/-! ## One step, as the sinks see it -/

/-- **What a step at an offset can do**, given as a function of the two sinks. -/
inductive Acts (c : Chunk) (offset : Nat) (f : Sink → Sink → Transition) : Prop where
  /-- It goes on behind the instruction, and leaves the sinks alone. -/
  | go (next : Nat) (stack : OperandStack) (behind : next = (Listing.rowAt c offset).next)
      (inside : next ≤ c.size) (h : ∀ out err, f out err = .next ⟨next, stack, out, err⟩)
  /-- It writes a value to the output and is done. -/
  | handBack (v : Value) (last : Nat) (stack : OperandStack)
      (h : ∀ out err, f out err
        = .halt ⟨last, stack, out.write (v.text ++ "\n"), err⟩ (finishReason out v))
  /-- It writes a diagnostic, and takes no notice of whether there is room for it. -/
  | complain (e : RunError) (last : Nat) (stack : OperandStack)
      (h : ∀ out err, f out err
        = .halt ⟨last, stack, out, err.write (e.text ++ "\n")⟩ (.typeError e))
  /-- It gives up, and leaves the sinks alone. -/
  | giveUp (reason : Halt) (blame : reason.Blames c offset) (last : Nat)
      (stack : OperandStack) (h : ∀ out err, f out err = .halt ⟨last, stack, out, err⟩ reason)

theorem Acts.of_eq {c : Chunk} {offset : Nat} {f g : Sink → Sink → Transition}
    (hg : Acts c offset g) (h : ∀ out err, f out err = g out err) : Acts c offset f := by
  have hfg : f = g := funext fun out => funext fun err => h out err
  rw [hfg]
  exact hg

section Effects

variable (c : Chunk) {offset : Nat} (next : Nat) (stack : OperandStack)

theorem acts_failType (fault : TypeFault) :
    Acts c offset fun out err => failType c fault ⟨next, stack, out, err⟩ :=
  .complain ⟨fault.message, c.lineBefore next⟩ next stack.clear fun _ _ => rfl

theorem acts_underflow (u : Underflow) :
    Acts c offset fun out err => .halt ⟨next, stack, out, err⟩ (.underflow u) :=
  .giveUp (.underflow u) (.underflow u) next stack fun _ _ => rfl

theorem acts_finish : Acts c offset fun out err => finish ⟨next, stack, out, err⟩ := by
  cases h : stack.pop with
  | error u => exact (acts_underflow c next stack u).of_eq fun out err => by simp only [finish, h]
  | ok taken =>
    refine .handBack taken.1 next taken.2 fun out err => ?_
    simp only [finish, h, finishReason]
    cases out.writeError? (taken.1.text ++ "\n") <;> rfl

variable (behind : next = (Listing.rowAt c offset).next) (inside : next ≤ c.size)
include behind inside

theorem acts_push (v : Value) :
    Acts c offset fun out err => .next (push v ⟨next, stack, out, err⟩) :=
  .go next (stack.push v) behind inside fun _ _ => rfl

theorem acts_onNumber (f : Binary64 → Binary64) :
    Acts c offset fun out err => onNumber c f ⟨next, stack, out, err⟩ := by
  cases h : stack.peek 0 with
  | error u => exact (acts_underflow c next stack u).of_eq fun out err => by simp only [onNumber, h]
  | ok v =>
    cases v with
    | number x =>
      refine .go next (stack.set 0 (.number (f x))) behind inside fun out err => ?_
      simp only [onNumber, h]
    | nil | bool =>
      exact (acts_failType c next stack .operand).of_eq fun out err => by simp only [onNumber, h]

theorem acts_onValue (f : Value → Value) :
    Acts c offset fun out err => onValue f ⟨next, stack, out, err⟩ := by
  cases h : stack.pop with
  | error u => exact (acts_underflow c next stack u).of_eq fun out err => by simp only [onValue, h]
  | ok taken =>
    refine .go next (taken.2.push (f taken.1)) behind inside fun out err => ?_
    simp only [onValue, h]

theorem acts_onValues (f : Value → Value → Value) :
    Acts c offset fun out err => onValues f ⟨next, stack, out, err⟩ := by
  cases h : stack.pop with
  | error u => exact (acts_underflow c next stack u).of_eq fun out err => by simp only [onValues, h]
  | ok right =>
    cases h' : right.2.pop with
    | error u =>
      exact (acts_underflow c next right.2 u).of_eq fun out err => by simp only [onValues, h, h']
    | ok left =>
      refine .go next (left.2.push (f left.1 right.1)) behind inside fun out err => ?_
      simp only [onValues, h, h']

theorem acts_onNumbers (f : Binary64 → Binary64 → Value) :
    Acts c offset fun out err => onNumbers c f ⟨next, stack, out, err⟩ := by
  cases h : stack.peek 1 with
  | error u => exact (acts_underflow c next stack u).of_eq fun out err => by simp only [onNumbers, h]
  | ok left =>
    cases h' : stack.peek 0 with
    | error u =>
      exact (acts_underflow c next stack u).of_eq fun out err => by simp only [onNumbers, h, h']
    | ok right =>
      cases left with
      | number x =>
        cases right with
        | number y =>
          refine .go next ((stack.drop 2).push (f x y)) behind inside fun out err => ?_
          simp only [onNumbers, h, h']
        | nil | bool =>
          exact (acts_failType c next stack .operands).of_eq fun out err => by
            simp only [onNumbers, h, h']
      | nil | bool =>
        exact (acts_failType c next stack .operands).of_eq fun out err => by
          simp only [onNumbers, h, h']

/-- An instruction without operand acts, once its byte is passed. -/
theorem acts_perform {op : Opcode} (other : op ≠ .constant) :
    Acts c offset fun out err => perform c ⟨next, stack, out, err⟩ op.effect := by
  cases op with
  | constant => exact absurd rfl other
  | ret => exact acts_finish c next stack
  | pushTrue | pushFalse | pushNil => exact acts_push c next stack behind inside _
  | negate | increment | decrement => exact acts_onNumber c next stack behind inside _
  | not => exact acts_onValue c next stack behind inside _
  | and | or | xor | equal | notEqual => exact acts_onValues c next stack behind inside _
  | greaterEqual | greater | lessEqual | less | add | subtract | multiply | divide =>
    exact acts_onNumbers c next stack behind inside _

end Effects

section Steps

variable {c : Chunk} {offset : Nat}

/-- A load acts, whatever stands behind its code byte. -/
theorem acts_load (stack : OperandStack) (code : c.byte? offset = some Opcode.constant.byte) :
    Acts c offset fun out err => load c ⟨offset + 1, stack, out, err⟩ := by
  cases operand : c.byte? (offset + 1) with
  | none =>
    refine .giveUp (.malformed (.missingOperand (offset + 1))) (.malformed fun n => by simp)
      (offset + 1) stack fun out err => ?_
    simp only [load, operand]
  | some index =>
    cases found : c.constant? index with
    | none =>
      refine .giveUp (.malformed (.constantOutOfRange index (offset + 1)))
        (.malformed fun n => by simp) (offset + 1) stack fun out err => ?_
      simp only [load, operand, found]
    | some v =>
      cases v with
      | number x =>
        refine .go (offset + 2) (stack.push (.number x))
          (Listing.next_rowAt_of_load code operand found).symm (Chunk.lt_size_of_byte? operand)
          fun out err => ?_
        simp only [load, operand, found, push]
      | nil | bool =>
        exact (acts_failType c (offset + 1) stack .operand).of_eq fun out err => by
          simp only [load, operand, found]

/-- **Every step acts in one of the four ways**, whatever the bytes of the chunk. -/
theorem acts_step (c : Chunk) (offset : Nat) (stack : OperandStack) :
    Acts c offset fun out err => step c ⟨offset, stack, out, err⟩ := by
  cases hbyte : c.byte? offset with
  | none =>
    have hend : c.size ≤ offset := Array.getElem?_eq_none_iff.1 hbyte
    refine .giveUp (.malformed (.pastEnd offset)) (.pastEnd hend) offset stack fun out err => ?_
    simp only [step, Chunk.fetch?, hbyte, Option.map_none]
  | some byte =>
    cases hop : Opcode.ofByte? byte with
    | none =>
      refine .giveUp (.malformed (.unknownOpcode byte offset)) (.malformed fun n => by simp)
        (offset + 1) stack fun out err => ?_
      simp only [step, Chunk.fetch?, hbyte, Option.map_some, hop]
    | some op =>
      have code : c.byte? offset = some op.byte := by
        rw [hbyte, Opcode.eq_byte_of_ofByte? hop]
      by_cases other : op = .constant
      · subst other
        exact (acts_load stack code).of_eq fun out err =>
          step_of_byte (s := ⟨offset, stack, out, err⟩) code
      · exact (acts_perform c (offset + 1) stack (Listing.next_rowAt_of_plain other code).symm
          (Chunk.lt_size_of_byte? code) other).of_eq fun out err =>
            step_of_byte (s := ⟨offset, stack, out, err⟩) code

end Steps

end State

/-! ## Texts and sinks -/

/-- **A text on its way to the output**, and where the machine stands when it writes it. -/
structure Write where
  /-- The text. -/
  text : String
  /-- The offset of the next byte to read. -/
  offset : Nat
  /-- The operand stack. -/
  stack : OperandStack

/-- All that is written, as one text. -/
def Write.texts (ws : List Write) : String := String.join (ws.map Write.text)

namespace Write

@[simp] theorem texts_nil : texts [] = "" := String.join_nil

@[simp] theorem texts_cons (w : Write) (ws : List Write) :
    texts (w :: ws) = w.text ++ texts ws := String.join_cons

@[simp] theorem texts_append (ws later : List Write) :
    texts (ws ++ later) = texts ws ++ texts later := by
  rw [texts, List.map_append, String.join_append]
  rfl

end Write

namespace Sink

/-- **Writes texts one after the other**, up to the first that does not fit. The answer is
the sink after all of them, or else that text and the sink with as much of it as there was
room for. -/
def deliver (out : Sink) : List Write → Except (Write × Sink) Sink
  | [] => .ok out
  | w :: ws =>
    if out.fits w.text then (out.write w.text).deliver ws else .error (w, out.write w.text)

theorem deliver_append (out : Sink) (ws later : List Write) :
    out.deliver (ws ++ later) = (out.deliver ws).bind fun out => out.deliver later := by
  induction ws generalizing out with
  | nil => rfl
  | cons w ws ih =>
    rw [List.cons_append, deliver, deliver]
    by_cases h : out.fits w.text
    · rw [if_pos h, if_pos h, ih]
    · rw [if_neg h, if_neg h]
      rfl

/-- Without a limit everything arrives. -/
theorem deliver_of_limit_eq_none {out : Sink} (h : out.limit = none) (ws : List Write) :
    out.deliver ws = .ok (out.gain (Write.texts ws)) := by
  induction ws generalizing out with
  | nil => rw [deliver, Write.texts_nil, gain_empty]
  | cons w ws ih =>
    have hgain : (out.gain w.text).limit = none := h
    rw [deliver, if_pos (fits_of_limit_eq_none h _), write_of_limit_eq_none h, ih hgain,
      gain_gain, Write.texts_cons]

/-- A write of nothing leaves nothing behind. -/
theorem write_empty (out : Sink) : out.write "" = out := by
  have hcut : out.cut "" = ByteArray.empty := by
    unfold cut
    cases out.limit with
    | none => rfl
    | some limit => exact ByteArray.extract_eq_empty_iff.2 (Nat.min_le_right _ _)
  rw [write, hcut, ByteArray.append_empty]

end Sink

namespace State

/-! ## Turn after turn -/

/-- **Induction along a run**: what holds of a state if it holds of the state after its turn
holds of every state. -/
theorem run_induction (tracing : Bool) (c : Chunk) {motive : State → Prop}
    (turn : ∀ s : State, (∀ t, s.turn tracing c = .next t → motive t) → motive s)
    (s : State) : motive s :=
  turn s fun t h =>
    have := lt_of_turn_eq_next h
    run_induction tracing c turn t
termination_by c.size - s.offset
decreasing_by omega

/-- **The states in which the turns of a run begin**, the first of them first. In each of them
the machine tries to read an instruction, unless it fails to write the trace. -/
def turns (tracing : Bool) (c : Chunk) (s : State) : List State :=
  match _h : s.turn tracing c with
  | .next t => s :: t.turns tracing c
  | .halt _ _ => [s]
termination_by c.size - s.offset
decreasing_by
  have := lt_of_turn_eq_next _h
  omega

variable {tracing : Bool} {c : Chunk} {s t : State} {reason : Halt}

theorem turns_of_next (h : s.turn tracing c = .next t) :
    s.turns tracing c = s :: t.turns tracing c := by
  rw [turns]
  split
  · rename_i u hu
    rw [Transition.next.inj (hu.symm.trans h)]
  · rename_i u r hu
    exact absurd (hu.symm.trans h) (by simp)

theorem turns_of_halt (h : s.turn tracing c = .halt t reason) : s.turns tracing c = [s] := by
  rw [turns]
  split
  · rename_i u hu
    exact absurd (hu.symm.trans h) (by simp)
  · rfl

/-- What is written at the beginning of a turn: the trace, if there is to be one. -/
def foreword (tracing : Bool) (c : Chunk) (s : State) : List Write :=
  if tracing then [⟨s.traceText c, s.offset, s.stack⟩] else []

/-- What is written when a run has come to its end: the value, if there is one. -/
def afterword (t : State) : Halt → List Write
  | .returned v => [⟨v.text ++ "\n", t.offset, t.stack⟩]
  | _ => []

/-- **What a run writes to its output**, if that takes everything. -/
def writes (tracing : Bool) (c : Chunk) (s : State) : List Write :=
  (s.turns tracing c).flatMap (foreword tracing c)
    ++ afterword (s.run tracing c).1 (s.run tracing c).2

theorem writes_of_next (h : s.turn tracing c = .next t) :
    s.writes tracing c = s.foreword tracing c ++ t.writes tracing c := by
  rw [writes, turns_of_next h, run_of_next h, List.flatMap_cons, List.append_assoc]
  rfl

theorem writes_of_halt (h : s.turn tracing c = .halt t reason) :
    s.writes tracing c = s.foreword tracing c ++ afterword t reason := by
  rw [writes, turns_of_halt h, run_of_halt h, List.flatMap_singleton]

/-- A turn delivers its foreword and takes a step. -/
theorem turn_eq_deliver (tracing : Bool) (c : Chunk) (s : State) :
    s.turn tracing c
      = match s.out.deliver (s.foreword tracing c) with
        | .ok out => step c ⟨s.offset, s.stack, out, s.err⟩
        | .error (w, out) => .halt ⟨w.offset, w.stack, out, s.err⟩ (.outputFailed .full) := by
  cases tracing with
  | false => rfl
  | true =>
    rw [turn, if_pos rfl, foreword, if_pos rfl, Sink.deliver, Sink.writeError?]
    by_cases h : s.out.fits (s.traceText c)
    · rw [if_pos h, if_pos h]
      rfl
    · rw [if_neg h, if_neg h]
      rfl

/-- How a run ends on other sinks, from how it ends if everything arrives and how far the
delivery of what it writes has come. -/
def settle (err : Sink) (t : State) (reason : Halt) : Except (Write × Sink) Sink → State × Halt
  | .ok out => (⟨t.offset, t.stack, out, err.write reason.complaint⟩, reason)
  | .error (w, out) => (⟨w.offset, w.stack, out, err⟩, .outputFailed .full)

theorem finishReason_of_fits {out : Sink} {v : Value} (h : out.fits (v.text ++ "\n") = true) :
    finishReason out v = .returned v := by
  rw [finishReason, Sink.writeError?, if_pos h]

theorem finishReason_of_not_fits {out : Sink} {v : Value} (h : ¬out.fits (v.text ++ "\n")) :
    finishReason out v = .outputFailed .full := by
  rw [finishReason, Sink.writeError?, if_neg h]

/-- The foreword of its first turn is the first that a run writes. -/
theorem exists_writes_eq (tracing : Bool) (c : Chunk) (s : State) :
    ∃ rest, s.writes tracing c = s.foreword tracing c ++ rest := by
  cases h : s.turn tracing c with
  | next t => exact ⟨_, writes_of_next h⟩
  | halt t reason => exact ⟨_, writes_of_halt h⟩

/-- On a sink that takes everything, a turn is a step with more in the output. -/
theorem turn_of_limit_eq_none (free : s.out.limit = none) :
    s.turn tracing c
      = step c ⟨s.offset, s.stack, s.out.gain (Write.texts (s.foreword tracing c)), s.err⟩ := by
  rw [turn_eq_deliver, Sink.deliver_of_limit_eq_none free]

/-- **A step on other sinks**: it goes on whatever they are, or it halts and delivers its
afterword. The afterword is read off a halt where everything arrives. -/
theorem step_on_sinks (c : Chunk) (offset : Nat) (stack : OperandStack) {free : Sink}
    (hfree : free.limit = none) (old : Sink) :
    (∃ next left, ∀ out err,
        step c ⟨offset, stack, out, err⟩ = .next ⟨next, left, out, err⟩) ∨
      ∃ t reason, step c ⟨offset, stack, free, old⟩ = .halt t reason ∧
        ∀ out err, step c ⟨offset, stack, out, err⟩
          = .halt (settle err t reason (out.deliver (afterword t reason))).1
              (settle err t reason (out.deliver (afterword t reason))).2 := by
  rcases acts_step c offset stack with
    ⟨next, left, -, -, h⟩ | ⟨v, last, left, h⟩ | ⟨e, last, left, h⟩ |
      ⟨reason, blame, last, left, h⟩
  · exact Or.inl ⟨next, left, h⟩
  · have hfits : free.fits (v.text ++ "\n") = true := Sink.fits_of_limit_eq_none hfree _
    have hv := h free old
    rw [finishReason_of_fits hfits] at hv
    refine Or.inr ⟨_, _, hv, fun out err => ?_⟩
    rw [h, afterword, Sink.deliver]
    by_cases hroom : out.fits (v.text ++ "\n")
    · rw [if_pos hroom, finishReason_of_fits hroom, Sink.deliver, settle,
        Halt.complaint_returned, Sink.write_empty]
    · rw [if_neg hroom, finishReason_of_not_fits hroom]
      rfl
  · exact Or.inr ⟨_, .typeError e, h free old, fun out err => h out err⟩
  · refine Or.inr ⟨_, reason, h free old, fun out err => ?_⟩
    have hquiet : afterword ⟨last, left, free, old⟩ reason = [] := by cases blame <;> rfl
    rw [h, hquiet, Sink.deliver, settle, blame.complaint_eq, Sink.write_empty]

/-- **A run on other sinks is the delivery of what it writes when everything arrives.** If all
of it arrives there too, the run ends in the same way and writes the diagnostic, if there is
one, to the other sink of the two. Otherwise the run is over at the first text that does not
fit, with the offset and the stack it has at that moment. -/
theorem run_on_sinks (hfree : s.out.limit = none) (out err : Sink) :
    run tracing c ⟨s.offset, s.stack, out, err⟩
      = settle err (s.run tracing c).1 (s.run tracing c).2
          (out.deliver (s.writes tracing c)) := by
  induction s using run_induction tracing c generalizing out with
  | turn s ih =>
    have hturn : s.turn tracing c
        = step c ⟨s.offset, s.stack, s.out.gain (Write.texts (s.foreword tracing c)), s.err⟩ :=
      turn_of_limit_eq_none hfree
    have hother : turn tracing c ⟨s.offset, s.stack, out, err⟩
        = match out.deliver (s.foreword tracing c) with
          | .ok out => step c ⟨s.offset, s.stack, out, err⟩
          | .error (w, out) => .halt ⟨w.offset, w.stack, out, err⟩ (.outputFailed .full) :=
      turn_eq_deliver tracing c ⟨s.offset, s.stack, out, err⟩
    cases hfore : out.deliver (s.foreword tracing c) with
    | error stop =>
      -- The trace does not fit, and it is the first text of all.
      obtain ⟨rest, hrest⟩ := exists_writes_eq tracing c s
      rw [hfore] at hother
      rw [run_of_halt hother, hrest, Sink.deliver_append, hfore]
      rfl
    | ok arrived =>
      rw [hfore] at hother
      have hgain : (s.out.gain (Write.texts (s.foreword tracing c))).limit = none := hfree
      rcases step_on_sinks c s.offset s.stack hgain s.err with
        ⟨next, left, h⟩ | ⟨t, reason, hhalt, h⟩
      · have hnext := hturn.trans (h _ _)
        rw [run_of_next (hother.trans (h arrived err)), run_of_next hnext, writes_of_next hnext,
          Sink.deliver_append, hfore]
        exact ih _ hnext hfree arrived
      · have hend := hturn.trans hhalt
        rw [run_of_halt (hother.trans (h arrived err)), run_of_halt hend, writes_of_halt hend,
          Sink.deliver_append, hfore]
        rfl

end State

end StackMachine

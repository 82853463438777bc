import Mathlib.Data.List.Basic
import StackMachine.Failure
import StackMachine.Proofs.Encoding

/-!
# Evaluating instructions without a machine

What a source means can be told without code bytes, a pool of constants, offsets or the room
of a stack. An instruction is known by its name, and it makes something of a list of values,
the top one first (`reaction`). Its line adds the literal it may carry (`Source.Line.react`),
and a source is evaluated by letting its lines have their way with the values one after the
other (`evaluate`).

Here are no chunks, and what the machine knows of its instructions is written down a second
time on purpose: their names, which values count as true, which are equal, how numbers compare,
and how faults are worded. That the machine agrees with it is a theorem about assembling,
decoding and every instruction at once. Only the arithmetic of doubles is common to both.

An instruction never sees more than the values it takes. `Source.Line.react_cases` says so
for all of them together, and everything else follows from it: an evaluation in which the
instructions are in order never gets stuck (`evaluate_ne_stuck`), and the values below
those it was given come through it untouched (`evaluate_append`).
-/

namespace StackMachine

/-- **What an instruction makes of the values it finds.** -/
inductive Reaction where
  /-- It leaves these values to the next instruction. -/
  | go (values : List Value)
  /-- It hands back a value and leaves the others. -/
  | finish (v : Value) (values : List Value)
  /-- It cannot work with values of these kinds. -/
  | fault (f : TypeFault)
  /-- It finds too few values, or is no instruction at all. -/
  | stuck
  deriving DecidableEq

namespace Reaction

/-- Hands back the value on top. -/
def handBack : List Value → Reaction
  | v :: values => .finish v values
  | [] => .stuck

/-- Changes the number on top. -/
def changeNumber (f : Binary64 → Binary64) : List Value → Reaction
  | .number x :: values => .go (.number (f x) :: values)
  | _ :: _ => .fault .operand
  | [] => .stuck

/-- Replaces the value on top. -/
def changeValue (f : Value → Value) : List Value → Reaction
  | v :: values => .go (f v :: values)
  | [] => .stuck

/-- Joins the two values on top, of which the right one lies above. -/
def joinValues (f : Value → Value → Value) : List Value → Reaction
  | right :: left :: values => .go (f left right :: values)
  | _ => .stuck

/-- Joins the two numbers on top, of which the right one lies above. -/
def joinNumbers (f : Binary64 → Binary64 → Value) : List Value → Reaction
  | .number y :: .number x :: values => .go (f x y :: values)
  | _ :: _ :: _ => .fault .operands
  | _ => .stuck

/-- Whether a value counts as true. Nil and false do not, and everything else does, zero
included. -/
def counts : Value → Bool
  | .nil => false
  | .bool false => false
  | .bool true => true
  | .number _ => true

/-- Whether the values of two numbers stand in a relation. What is no number has none. -/
def related (holds : Int → Int → Bool) (x y : Binary64) : Bool :=
  !x.isNaN && !y.isNaN && holds x.toInt y.toInt

/-- Whether two values are equal. Values of different kinds never are; nil equals nil, and truth
values and numbers go by what they are. -/
def same : Value → Value → Bool
  | .nil, .nil => true
  | .bool a, .bool b => decide (a = b)
  | .number x, .number y => related (fun a b => decide (a = b)) x y
  | .nil, .bool _ | .nil, .number _ => false
  | .bool _, .nil | .bool _, .number _ => false
  | .number _, .nil | .number _, .bool _ => false

/-- Pushes what a literal denotes, which has to be a number. -/
def pushLiteral : Option Value → List Value → Reaction
  | some (.number x), values => .go (.number x :: values)
  | some _, _ => .fault .operand
  | none, _ => .stuck

end Reaction

open Reaction

/-- **What the instruction of a name does**, if it needs no operand. -/
def reaction (name : String) (values : List Value) : Reaction :=
  match name with
  | "RET" => handBack values
  | "TRUE" => .go (.bool true :: values)
  | "FALSE" => .go (.bool false :: values)
  | "NIL" => .go (.nil :: values)
  | "NEGATE" => changeNumber (fun x => x.neg) values
  | "INC" => changeNumber (fun x => x.add .one) values
  | "DEC" => changeNumber (fun x => x.sub .one) values
  | "NOT" => changeValue (fun v => .bool (!counts v)) values
  | "AND" => joinValues (fun v w => .bool (counts v && counts w)) values
  | "OR" => joinValues (fun v w => .bool (counts v || counts w)) values
  | "XOR" => joinValues (fun v w => .bool (counts v != counts w)) values
  | "EQUAL" => joinValues (fun v w => .bool (same v w)) values
  | "NOT_EQUAL" => joinValues (fun v w => .bool (!same v w)) values
  | "GREATER_EQUAL" => joinNumbers (fun x y => .bool (related (fun a b => a ≥ b) x y)) values
  | "GREATER" => joinNumbers (fun x y => .bool (related (fun a b => a > b) x y)) values
  | "LESS_EQUAL" => joinNumbers (fun x y => .bool (related (fun a b => a ≤ b) x y)) values
  | "LESS" => joinNumbers (fun x y => .bool (related (fun a b => a < b) x y)) values
  | "ADD" => joinNumbers (fun x y => .number (x.add y)) values
  | "SUB" => joinNumbers (fun x y => .number (x.sub y)) values
  | "MULT" => joinNumbers (fun x y => .number (x.mul y)) values
  | "DIV" => joinNumbers (fun x y => .number (x.div y)) values
  | _ => .stuck

namespace Source.Line

/-- The name of the instruction on a line, in capital letters. -/
def name (line : Source.Line) : String :=
  String.ofList (line.mnemonic.toList.map Char.toUpper)

/-- **What the instruction on a line does.** -/
def react (line : Source.Line) (values : List Value) : Reaction :=
  match line.name, line.operands with
  | "CONSTANT", [word] => pushLiteral (Value.ofLiteral? word) values
  | name, [] => reaction name values
  | _, _ => .stuck

end Source.Line

/-! ## Whole evaluations -/

/-- How an evaluation ends. -/
inductive Verdict where
  /-- A value was handed back. -/
  | returned (v : Value)
  /-- An instruction could not work with its values. -/
  | failed (e : RunError)
  /-- There are no more lines. -/
  | exhausted
  /-- A line could not be made sense of. -/
  | stuck
  deriving DecidableEq

/-- What an evaluation comes to. -/
structure Evaluation where
  /-- How it ended. -/
  verdict : Verdict
  /-- The values that are left, the top one first. -/
  values : List Value
  deriving DecidableEq

/-- How a fault is worded. -/
def wording : TypeFault → String
  | .operand => "Operand must be a number."
  | .operands => "Operands must be numbers."

/-- **Evaluates lines** on a list of values. An instruction that fails is blamed by the
number of its line, and takes all values with it. -/
def evaluate : List Source.Line → List Value → Evaluation
  | [], values => ⟨.exhausted, values⟩
  | line :: rest, values =>
    match line.react values with
    | .go values => evaluate rest values
    | .finish v values => ⟨.returned v, values⟩
    | .fault f => ⟨.failed ⟨wording f, line.number⟩, []⟩
    | .stuck => ⟨.stuck, values⟩

/-- **What a source means** on a list of values. -/
def meaning (source : String) (values : List Value) : Evaluation :=
  evaluate (Source.lines source) values

/-! ## What an instruction sees of the values -/

/-- An instruction named in capital or small letters goes by one name. -/
theorem Source.Line.name_of_ofMnemonic? {line : Source.Line} {op : Opcode}
    (h : Opcode.ofMnemonic? line.mnemonic = some op) : line.name = op.mnemonic := by
  have hnamed : op.isNamed line.mnemonic = true :=
    List.find?_some (p := fun op : Opcode => op.isNamed line.mnemonic) h
  have hlist : op.mnemonic.toList = line.mnemonic.toList.map Char.toUpper :=
    of_decide_eq_true hnamed
  rw [name, ← hlist, String.ofList_toList]

theorem Source.Line.react_of_plain {line : Source.Line} {op : Opcode}
    (named : Opcode.ofMnemonic? line.mnemonic = some op) (other : op ≠ .constant)
    (bare : line.operands = []) (values : List Value) :
    line.react values = reaction op.mnemonic values := by
  rw [react, name_of_ofMnemonic? named, bare]
  cases op with
  | constant => exact absurd rfl other
  | _ => rfl

theorem Source.Line.react_of_load {line : Source.Line} {word : String} {v : Value}
    (named : Opcode.ofMnemonic? line.mnemonic = some .constant)
    (single : line.operands = [word]) (literal : Value.ofLiteral? word = some v)
    (values : List Value) :
    line.react values = pushLiteral (some v) values := by
  rw [react, name_of_ofMnemonic? named, single]
  show pushLiteral (Value.ofLiteral? word) values = pushLiteral (some v) values
  rw [literal]

/-- What most instructions come to once they have the values they take: they leave one value
in their place, or find fault with them, whatever lies below. -/
def Settles (f : List Value → Reaction) : Prop :=
  (∃ v, ∀ below, f below = .go (v :: below)) ∨ ∃ e, ∀ below, f below = .fault e

theorem settles_changeNumber (f : Binary64 → Binary64) (v : Value) :
    Settles fun below => changeNumber f (v :: below) := by
  cases v with
  | number x => exact Or.inl ⟨.number (f x), fun _ => rfl⟩
  | nil => exact Or.inr ⟨.operand, fun _ => rfl⟩
  | bool b => exact Or.inr ⟨.operand, fun _ => rfl⟩

theorem settles_joinNumbers (f : Binary64 → Binary64 → Value) (right left : Value) :
    Settles fun below => joinNumbers f (right :: left :: below) := by
  cases right with
  | number y =>
    cases left with
    | number x => exact Or.inl ⟨f x y, fun _ => rfl⟩
    | nil => exact Or.inr ⟨.operands, fun _ => rfl⟩
    | bool b => exact Or.inr ⟨.operands, fun _ => rfl⟩
  | nil => exact Or.inr ⟨.operands, fun _ => rfl⟩
  | bool b => exact Or.inr ⟨.operands, fun _ => rfl⟩

theorem settles_pushLiteral (v : Value) : Settles fun below => pushLiteral (some v) below := by
  cases v with
  | number x => exact Or.inl ⟨.number x, fun _ => rfl⟩
  | nil => exact Or.inr ⟨.operand, fun _ => rfl⟩
  | bool b => exact Or.inr ⟨.operand, fun _ => rfl⟩

/-- Every instruction but two settles: the one that ends the run and the one that has an
operand. -/
theorem settles_reaction {op : Opcode} (other : op ≠ .constant) (going : op ≠ .ret)
    {args : List Value} (h : args.length = op.inputs) :
    Settles fun below => reaction op.mnemonic (args ++ below) := by
  cases op with
  | constant => exact absurd rfl other
  | ret => exact absurd rfl going
  | pushTrue | pushFalse | pushNil =>
    obtain rfl := List.length_eq_zero_iff.1 h
    exact Or.inl ⟨_, fun _ => rfl⟩
  | negate | increment | decrement =>
    obtain ⟨v, rfl⟩ := List.length_eq_one_iff.1 h
    exact settles_changeNumber _ v
  | not =>
    obtain ⟨v, rfl⟩ := List.length_eq_one_iff.1 h
    exact Or.inl ⟨_, fun _ => rfl⟩
  | and | or | xor | equal | notEqual =>
    obtain ⟨right, left, rfl⟩ := List.length_eq_two.1 h
    exact Or.inl ⟨_, fun _ => rfl⟩
  | greaterEqual | greater | lessEqual | less | add | subtract | multiply | divide =>
    obtain ⟨right, left, rfl⟩ := List.length_eq_two.1 h
    exact settles_joinNumbers _ right left

/-- **An instruction sees no more than the values it takes.** Given these, what it does is
settled, and the values below are passed on as they are. -/
theorem Source.Line.react_cases {line : Source.Line} {op : Opcode} (h : line.StandsFor op)
    {args : List Value} (hargs : args.length = op.inputs) :
    (op = .ret ∧ ∃ v, ∀ below, line.react (args ++ below) = .finish v below) ∨
      (op ≠ .ret ∧ Settles fun below => line.react (args ++ below)) := by
  cases h with
  | plain named other bare =>
    have hreact := funext (react_of_plain named other bare)
    rw [hreact]
    by_cases hret : op = .ret
    · subst hret
      obtain ⟨v, rfl⟩ := List.length_eq_one_iff.1 hargs
      exact Or.inl ⟨rfl, v, fun _ => rfl⟩
    · exact Or.inr ⟨hret, settles_reaction other hret hargs⟩
  | @load word v named single literal =>
    have hreact := funext (react_of_load named single literal)
    obtain rfl := List.length_eq_zero_iff.1 hargs
    rw [hreact]
    exact Or.inr ⟨by simp, settles_pushLiteral v⟩

/-! ## What an evaluation can come to -/

/-- **What the next instruction does when everything is in order**: it ends the run, or
leaves the rest in order, or finds fault with the values. Whatever lies below the values
stays there. -/
theorem Proper.react_cases {depth : Nat} {line : Source.Line} {rest : List Source.Line}
    {values : List Value} (h : Proper depth (line :: rest)) (deep : depth ≤ values.length) :
    (Opcode.ofMnemonic? line.mnemonic = some .ret ∧
        ∃ v left, ∀ base, line.react (values ++ base) = .finish v (left ++ base)) ∨
      Opcode.ofMnemonic? line.mnemonic ≠ some .ret ∧
        ((∃ left depth', (∀ base, line.react (values ++ base) = .go (left ++ base)) ∧
            depth' ≤ left.length ∧ Proper depth' rest) ∨
          ∃ e, ∀ base, line.react (values ++ base) = .fault e) := by
  cases h with
  | @step _ _ _ op stands enough tail =>
    have hargs : (values.take op.inputs).length = op.inputs :=
      List.length_take_of_le (Nat.le_trans enough deep)
    have hsplit : ∀ base, line.react (values ++ base)
        = line.react (values.take op.inputs ++ (values.drop op.inputs ++ base)) := by
      intro base
      rw [← List.append_assoc, List.take_append_drop]
    have hnamed : op ≠ .ret → Opcode.ofMnemonic? line.mnemonic ≠ some .ret :=
      fun going hret => going (Option.some.inj (stands.named.symm.trans hret))
    rcases Source.Line.react_cases stands hargs with ⟨hret, v, hv⟩ | ⟨going, ⟨v, hv⟩ | ⟨e, he⟩⟩
    · exact Or.inl ⟨hret ▸ stands.named, v, _, fun base => (hsplit base).trans (hv _)⟩
    · refine Or.inr ⟨hnamed going, Or.inl ⟨v :: values.drop op.inputs, _,
        fun base => (hsplit base).trans (hv _), ?_, tail⟩⟩
      have houtputs : op.outputs = 1 := by
        cases op with
        | ret => exact absurd rfl going
        | _ => rfl
      rw [houtputs, List.length_cons, List.length_drop]
      exact Nat.succ_le_succ (Nat.sub_le_sub_right deep _)
    · exact Or.inr ⟨hnamed going, Or.inr ⟨e, fun base => (hsplit base).trans (he _)⟩⟩

theorem evaluate_of_go {line : Source.Line} {rest : List Source.Line}
    {values left : List Value} (h : line.react values = .go left) :
    evaluate (line :: rest) values = evaluate rest left := by
  rw [evaluate, h]

theorem evaluate_of_finish {line : Source.Line} {rest : List Source.Line}
    {values left : List Value} {v : Value} (h : line.react values = .finish v left) :
    evaluate (line :: rest) values = ⟨.returned v, left⟩ := by
  rw [evaluate, h]

theorem wording_eq_message (f : TypeFault) : wording f = f.message := by
  cases f <;> rfl

theorem evaluate_of_fault {line : Source.Line} {rest : List Source.Line}
    {values : List Value} {e : TypeFault} (h : line.react values = .fault e) :
    evaluate (line :: rest) values = ⟨.failed ⟨e.message, line.number⟩, []⟩ := by
  rw [evaluate, h, ← wording_eq_message]

/-- **Instructions that are in order never get stuck.** -/
theorem Proper.evaluate_ne_stuck {depth : Nat} {lines : List Source.Line}
    {values : List Value} (h : Proper depth lines) (deep : depth ≤ values.length) :
    (evaluate lines values).verdict ≠ .stuck := by
  induction lines generalizing depth values with
  | nil =>
    rw [evaluate]
    exact fun hstuck => nomatch hstuck
  | cons line rest ih =>
    rcases h.react_cases deep with
      ⟨-, v, left, hv⟩ | ⟨-, ⟨left, depth', hgo, hdeep, htail⟩ | ⟨e, he⟩⟩
    · rw [evaluate_of_finish (by simpa using hv [])]
      exact fun hstuck => nomatch hstuck
    · rw [evaluate_of_go (by simpa using hgo [])]
      exact ih htail hdeep
    · rw [evaluate_of_fault (by simpa using he [])]
      exact fun hstuck => nomatch hstuck

/-- The same evaluation with more values below. A failure takes these with it. -/
def Evaluation.above (base : List Value) (r : Evaluation) : Evaluation :=
  match r.verdict with
  | .failed e => ⟨.failed e, []⟩
  | verdict => ⟨verdict, r.values ++ base⟩

/-- **Values below come through an evaluation untouched**, and make no difference to it. -/
theorem Proper.evaluate_append {depth : Nat} {lines : List Source.Line}
    {values : List Value} (h : Proper depth lines) (deep : depth ≤ values.length)
    (base : List Value) :
    evaluate lines (values ++ base) = (evaluate lines values).above base := by
  induction lines generalizing depth values with
  | nil => rfl
  | cons line rest ih =>
    rcases h.react_cases deep with
      ⟨-, v, left, hv⟩ | ⟨-, ⟨left, depth', hgo, hdeep, htail⟩ | ⟨e, he⟩⟩
    · rw [evaluate_of_finish (hv base), evaluate_of_finish (by simpa using hv [])]
      rfl
    · rw [evaluate_of_go (hgo base), evaluate_of_go (by simpa using hgo []),
        ih htail hdeep]
    · rw [evaluate_of_fault (he base), evaluate_of_fault (by simpa using he [])]
      rfl

end StackMachine

import StackMachine.Proofs.Acceptance
import StackMachine.Proofs.Blocks
import StackMachine.Proofs.DeadCode
import StackMachine.Proofs.Tables

/-!
# The depth that the assembler counts

The assembler counts how deep the stack is in front of every line, and turns a source down at the
first line that would reach below the bottom. It could be wrong in two ways. That it lets nothing
pass that underflows is said elsewhere. Here it is said that it raises no false alarm: where the
lines above do get as far as the line it complains of, the instruction on this line does reach below
the bottom, and no other has done so before (`State.run_of_shallow_line`).

That takes more than a bound. What is true all along a run from an empty stack is `State.KeepsPace`:
the machine stands in front of a line, and its stack is exactly as deep as the lines above leave it,
by the sum of what each of them changes. Every step keeps it or ends the run, and it ends the run
only over operands of the wrong kind or to hand back a value (`State.KeepsPace.step_cases`). So
lines that do neither are left behind one by one, whatever follows them in the chunk
(`State.KeepsPace.reaches_end`).
-/

namespace StackMachine

open Source (Line balance)

variable {line : Line} {before rest after : List Line}

/-! ## Lines and instructions -/

theorem Chunk.Holds.isWholeAt {c : Chunk} {offset : Nat} {op : Opcode} {operand : Option Value}
    (h : c.Holds offset op operand) : c.IsWholeAt offset := by
  cases h with
  | plain other code => exact .plain other code
  | load code operand found => exact .load code operand found

/-- **Where a line is laid down, the chunk holds its instruction**, and the other lines follow. -/
theorem Encodes.holds {c : Chunk} {offset pooled : Nat}
    (h : Encodes c offset pooled (line :: rest)) :
    ∃ op operand, line.Names op ∧ c.Holds offset op operand ∧
      ∃ pooled, Encodes c (offset + op.size) pooled rest := by
  cases h with
  | @plain _ _ _ _ op named other bare code place tail =>
    have hsize : op.size = 1 := by rw [Opcode.size, Assembly.operandCount_of_ne_constant other]
    refine ⟨op, none, Source.Line.names_iff.2 named, .plain other code, pooled, ?_⟩
    rw [hsize]
    exact tail
  | load named single literal code operand numbered found place place' tail =>
    exact ⟨.constant, _, Source.Line.names_iff.2 named,
      .load code operand ((Chunk.constant?_of_toNat numbered).trans found), _, tail⟩

/-- Lines in order name instructions that find their inputs. -/
theorem Proper.of_names {depth : Nat} {op : Opcode}
    (h : Proper depth (line :: rest)) (named : line.Names op) :
    op.inputs ≤ depth ∧ Proper (depth - op.inputs + op.outputs) rest := by
  cases h with
  | step stands enough tail =>
    cases named.unique (Source.Line.names_iff.2 stands.named)
    exact ⟨enough, tail⟩

/-! ## In step with the lines -/

namespace State

variable {c d : Chunk} {s : State} {tracing : Bool}

/-- **The machine keeps pace with the lines**: it stands between two of them, and its stack is as
deep as those above leave it. -/
structure KeepsPace (c : Chunk) (before after : List Line) (s : State) : Prop where
  /-- The lines below lie ahead. -/
  laid : ∃ pooled, Encodes c s.offset pooled after
  /-- They are in order on a stack of this depth. -/
  fed : Proper s.stack.depth after
  /-- The depth is what the lines above have left. -/
  depth : (s.stack.depth : Int) = balance before

/-- The output is no part of it. -/
theorem KeepsPace.with_out (h : s.KeepsPace c before after) (out : Sink) :
    KeepsPace c before after { s with out := out } := ⟨h.laid, h.fed, h.depth⟩

/-- A machine that is about to run an assembled chunk on an empty stack keeps pace. -/
theorem keepsPace_of_assemble {source : String} (h : assemble source = .ok c)
    (first : s.offset = 0) (empty : s.stack.values = []) :
    s.KeepsPace c [] (Source.lines source) := by
  have hdepth : s.stack.depth = 0 := by rw [s.stack.depth_eq, empty, List.length_nil]
  refine ⟨⟨0, ?_⟩, ?_, ?_⟩
  · rw [first]
    exact encodes_of_assemble h
  · rw [hdepth]
    exact proper_of_assemble h
  · rw [hdepth]
    rfl

/-- **An instruction takes the machine past its line**, unless it hands back a value or its operands
are of the wrong kind. -/
theorem KeepsPace.step_cases (h : s.KeepsPace c before (line :: rest)) :
    ∃ op operand, line.Names op ∧ c.Holds s.offset op operand ∧
      ((∃ t, s.step c = .next t ∧ t.KeepsPace c (before ++ [line]) rest ∧ t.out = s.out) ∨
        (∃ t e, s.step c = .halt t (.typeError e)) ∨
        (op = .ret ∧ ∃ t v, s.step c = .halt t (finishReason s.out v))) := by
  obtain ⟨⟨pooled, laid⟩, fed, depth⟩ := h
  obtain ⟨op, operand, named, holds, pooled', tail⟩ := laid.holds
  obtain ⟨enough, fed'⟩ := fed.of_names named
  refine ⟨op, operand, named, holds, ?_⟩
  match s.step c, foretold_step holds with
  | _, .underflow shallow t u => exact absurd shallow (Nat.not_lt.2 enough)
  | _, .failure _ clashes => exact Or.inr (Or.inl ⟨_, _, rfl⟩)
  | _, .handBack returns _ _ stack _ => exact Or.inr (Or.inr ⟨returns, _, _, rfl⟩)
  | _, .go going _ _ v stack left _ =>
    have hdepth : stack.depth = s.stack.depth - op.inputs + op.outputs := by
      rw [Opcode.outputs_of_ne going, stack.depth_eq, left, List.length_cons, List.length_drop,
        s.stack.depth_eq]
    refine Or.inl ⟨_, rfl, ⟨⟨pooled', tail⟩, hdepth ▸ fed', ?_⟩, rfl⟩
    show (stack.depth : Int) = _
    rw [Source.balance_concat, named.change_eq, ← depth, hdepth]
    omega

/-- Behind the last line there is no byte. -/
theorem KeepsPace.offset_eq (h : s.KeepsPace c before []) : s.offset = c.size := by
  obtain ⟨⟨pooled, laid⟩, -, -⟩ := h
  cases laid with
  | done last used => exact last

/-- If the trace can be written, a turn is a step. -/
theorem turn_eq_step (c : Chunk) (unhindered : tracing = true → s.out.limit = none) :
    ∃ out, out.limit = s.out.limit ∧ s.turn tracing c = { s with out := out }.step c := by
  cases tracing with
  | false => exact ⟨s.out, rfl, rfl⟩
  | true =>
    exact ⟨s.out.gain (Write.texts (s.foreword true c)), rfl,
      turn_of_limit_eq_none (unhindered rfl)⟩

/-- **Lines that neither hand back a value nor fail are left behind**, in whatever chunk they begin:
the run comes to their end, and goes on from there. -/
theorem KeepsPace.reaches_end (h : s.KeepsPace c before after)
    (unhindered : tracing = true → s.out.limit = none)
    (onward : ∀ line ∈ after, ¬line.Names .ret)
    (sound : ∀ e, (s.run tracing c).2 ≠ .typeError e) (begins : c.Begins d) (level : c.IsLevel) :
    ∃ t : State, t.KeepsPace c (before ++ after) [] ∧ (tracing = true → t.out.limit = none) ∧
      s.run tracing d = t.run tracing d ∧
      ∃ past, s.turns tracing d = past ++ t.turns tracing d := by
  induction after generalizing s before with
  | nil => exact ⟨s, (List.append_nil before).symm ▸ h, unhindered, rfl, [], rfl⟩
  | cons line rest ih =>
    obtain ⟨out, hlimit, hturn⟩ := turn_eq_step c unhindered
    obtain ⟨op, operand, named, holds, hcases⟩ := (h.with_out out).step_cases
    -- A whole instruction of `c` lies ahead, so what follows in `d` makes no difference yet.
    have hsame : s.turn tracing d = s.turn tracing c :=
      turn_of_begins begins level holds.isWholeAt
    rcases hcases with ⟨t, hstep, hpace, hout⟩ | ⟨t, e, hstep⟩ | ⟨returns, -⟩
    · have hnext : s.turn tracing c = .next t := hturn.trans hstep
      rw [run_of_next hnext] at sound
      have free : tracing = true → t.out.limit = none := fun htracing => by
        rw [hout]
        exact hlimit.trans (unhindered htracing)
      obtain ⟨u, hu, hfree, hrun, past, hpast⟩ :=
        ih hpace free (fun other hmem => onward other (List.mem_cons_of_mem _ hmem)) sound
      rw [List.append_assoc] at hu
      refine ⟨u, hu, hfree, (run_of_next (hsame.trans hnext)).trans hrun, s :: past, ?_⟩
      rw [turns_of_next (hsame.trans hnext), hpast, List.cons_append]
    · rw [run_of_halt (hturn.trans hstep)] at sound
      exact absurd rfl (sound e)
    · exact absurd (returns ▸ named) (onward line List.mem_cons_self)

/-- **Behind lines that have left too few values for it, an instruction underflows.** -/
theorem KeepsPace.underflows (h : s.KeepsPace c before [])
    (unhindered : tracing = true → s.out.limit = none) {op : Opcode}
    (shallow : balance before < op.inputs) (number : Nat) :
    ∃ t u, s.turn tracing (c.pushOpcode op number) = .halt t (.underflow u) ∧
      t.offset = c.size + 1 := by
  -- A load takes nothing, and no stack is too shallow for it.
  have other : op ≠ .constant := by
    rintro rfl
    have hdepth := h.depth
    have hinputs : Opcode.constant.inputs = 0 := rfl
    omega
  have holds : (c.pushOpcode op number).Holds s.offset op none := by
    refine .plain other ?_
    rw [h.offset_eq, Chunk.pushOpcode, Chunk.byte?_push, if_pos rfl]
  obtain ⟨out, -, hturn⟩ := turn_eq_step (c.pushOpcode op number) unhindered
  have hlt : s.stack.depth < op.inputs := by
    have hdepth := h.depth
    omega
  obtain ⟨t, u, hstep⟩ :=
    (step_eq_underflow_iff (s := { s with out := out }) holds).2 hlt
  refine ⟨t, u, hturn.trans hstep, ?_⟩
  rw [(of_step_eq_halt (s := { s with out := out }) holds hstep).1, ← h.offset_eq]

end State

/-! ## Sources that are turned down -/

/-- The lines of a source that come before one of them are those of the text above it. -/
theorem Source.lines_above_of_append {source : String}
    (h : lines source = before ++ line :: after) :
    lines (above line.number source) = before := by
  have hpairwise := pairwise_number_readFrom 1 (rawLines source)
  rw [← lines, h, List.pairwise_append, List.pairwise_cons] at hpairwise
  obtain ⟨-, ⟨hafter, -⟩, hbefore⟩ := hpairwise
  rw [lines_above, h, List.filter_append]
  have hfront : before.filter (fun other => decide (other.number < line.number)) = before :=
    List.filter_eq_self.2 fun other hmem =>
      decide_eq_true (hbefore other hmem line List.mem_cons_self)
  have hback : (line :: after).filter (fun other => decide (other.number < line.number)) = [] := by
    refine List.filter_eq_nil_iff.2 fun other hmem => ?_
    rw [decide_eq_true_iff]
    rcases List.mem_cons.1 hmem with rfl | hmem
    · exact Nat.lt_irrefl _
    · exact Nat.lt_asymm (hafter other hmem)
  rw [hfront, hback, List.append_nil]

theorem Text.head?_toList_append {front : String} {c : Char} (h : front.toList.head? = some c)
    (back : String) : (front ++ back).toList.head? = some c := by
  rw [String.toList_append, List.head?_append, h]
  rfl

namespace Assembly

/-- Only a line that reaches below the bottom is said to do so. -/
theorem Fault.eq_underflow_of_message {fault : Fault} {name : String}
    (h : fault.message = "Not enough operands on the stack for '" ++ name ++ "'.") :
    fault = .underflow name := by
  have hfirst : fault.message.toList.head? = some 'N' := by
    rw [h]
    exact Text.head?_toList_append (Text.head?_toList_append rfl _) _
  -- No other message starts with this letter.
  have hother : ∀ {letter : Char}, fault.message.toList.head? = some letter → letter = 'N' :=
    fun hletter => Option.some.inj (hletter.symm.trans hfirst)
  cases fault with
  | underflow other =>
    have hname : "Not enough operands on the stack for '" ++ other
        = "Not enough operands on the stack for '" ++ name := (String.append_left_inj _).1 h
    rw [(String.append_right_inj _).1 hname]
  | unknownInstruction word =>
    have hletter := hother (Text.head?_toList_append (Text.head?_toList_append rfl _) _)
    exact absurd hletter (by decide)
  | missingOperand word =>
    have hletter := hother (Text.head?_toList_append (Text.head?_toList_append rfl _) _)
    exact absurd hletter (by decide)
  | unexpectedOperand mnemonic operand =>
    have hletter := hother (Text.head?_toList_append (Text.head?_toList_append
      (Text.head?_toList_append (Text.head?_toList_append rfl _) _) _) _)
    exact absurd hletter (by decide)
  | invalidLiteral word =>
    have hletter := hother (Text.head?_toList_append (Text.head?_toList_append rfl _) _)
    exact absurd hletter (by decide)
  | tooManyConstants => exact absurd (hother rfl) (by decide)

/-- **A source that is turned down for want of operands** has a line that takes more values than the
lines above it leave, and these have no fault. -/
theorem exists_shallow_line {source name : String} {number : Nat}
    (rejected : assembler source
      = .error ⟨"Not enough operands on the stack for '" ++ name ++ "'.", number⟩) :
    ∃ before line after op, Source.lines source = before ++ line :: after ∧ Faultless before ∧
      line.Names op ∧ balance before < op.inputs ∧ op.mnemonic = name ∧ line.number = number := by
  rcases faultless_or_isFirstFault (Source.lines source) with
    ⟨-, a, ha, -⟩ | ⟨before, line, after, fault, hsplit, hbefore, hfirst, h⟩
  · rw [assembler, assemble_eq_ok_iff.2 ⟨a, ha, rfl⟩] at rejected
    cases rejected
  · rw [assembler_of_error (assemble_eq_error_iff.2 h)] at rejected
    obtain ⟨hmessage, hnumber⟩ := SourceError.mk.inj (Except.error.inj rejected)
    obtain rfl := Fault.eq_underflow_of_message hmessage
    cases hfirst.violates with
    | @underflow op named shallow =>
      exact ⟨before, line, after, op, hsplit, hbefore, named, shallow, rfl, hnumber⟩

theorem exists_assemble_of_faultless {source : String} (h : Faultless (Source.lines source)) :
    ∃ c, assemble source = .ok c := by
  rcases faultless_or_isFirstFault (Source.lines source) with
    ⟨-, a, ha, -⟩ | ⟨before, line, after, fault, hsplit, -, hfirst, -⟩
  · exact ⟨a.chunk, assemble_eq_ok_iff.2 ⟨a, ha, rfl⟩⟩
  · exact absurd hfirst.violates (h before line after hsplit fault)

end Assembly

namespace State

/-- **There is no false alarm on code that is reached.** If a source is turned down for want of
operands, what is above the line complained of can be assembled. And if no line up there ends a run
and its chunk does not fail over its operands on an empty stack, then the same chunk with the code
byte of the line behind it underflows on an empty stack: it does so at this byte, with the bytes
above left behind, and has read no further. -/
theorem run_of_shallow_line {source name : String} {number : Nat}
    (rejected : assembler source
      = .error ⟨"Not enough operands on the stack for '" ++ name ++ "'.", number⟩) :
    ∃ line op c, line ∈ Source.lines source ∧ line.number = number ∧ line.Names op ∧
      op.mnemonic = name ∧ assemble (Source.above number source) = .ok c ∧
      ((∀ other ∈ Source.lines source, other.number < number → ¬other.Names .ret) →
        ∀ (tracing : Bool) (s : State), s.offset = 0 → s.stack.values = [] →
          (tracing = true → s.out.limit = none) →
          (∀ e, (s.run tracing c).2 ≠ .typeError e) →
          ∃ t u last, s.run tracing (c.pushOpcode op number) = (t, .underflow u) ∧
            t.offset = c.size + 1 ∧
            (s.turns tracing (c.pushOpcode op number)).getLast? = some last ∧
            last.offset = c.size) := by
  obtain ⟨before, line, after, op, hsplit, hbefore, named, shallow, hname, rfl⟩ :=
    Assembly.exists_shallow_line rejected
  have hlines : Source.lines (Source.above line.number source) = before :=
    Source.lines_above_of_append hsplit
  obtain ⟨c, hc⟩ := Assembly.exists_assemble_of_faultless (hlines.symm ▸ hbefore)
  refine ⟨line, op, c, by simp [hsplit], rfl, named, hname, hc, ?_⟩
  intro hopen tracing s first empty unhindered sound
  have hpace : s.KeepsPace c [] before := hlines ▸ keepsPace_of_assemble hc first empty
  have hreturns : ∀ other ∈ before, ¬other.Names .ret := by
    intro other hmem
    rw [← hlines, Source.lines_above, List.mem_filter, decide_eq_true_iff] at hmem
    exact hopen other hmem.1 hmem.2
  have hbegins : c.Begins (c.pushOpcode op line.number) := Chunk.begins_push _ _ _
  obtain ⟨t, hend, hfree, hrun, past, hpast⟩ :=
    hpace.reaches_end unhindered hreturns sound hbegins (isLevel_of_assemble hc)
  obtain ⟨u, e, hturn, hoffset⟩ := hend.underflows hfree shallow line.number
  refine ⟨u, e, t, hrun.trans (run_of_halt hturn), hoffset, ?_, hend.offset_eq⟩
  rw [hpast, turns_of_halt hturn, List.getLast?_concat]

/-- One value where two are taken, traced: the line is the third, and what is wrong with the fourth
does not come up. -/
theorem run_of_shallow_line_lone_value :
    ∃ (c : Chunk) (s t : State) (u : Underflow),
      assembler "true\n\nand ; with what?\nCONSTANT x"
        = .error ⟨"Not enough operands on the stack for '" ++ "AND" ++ "'.", 3⟩ ∧
      c = ⟨#[2], #[], #[1]⟩ ∧ s.offset = 0 ∧ s.stack.contents = [] ∧
      s.run true (c.pushOpcode .and 3) = (t, .underflow u) ∧ t.offset = 2 := by
  have hrejected : assembler "true\n\nand ; with what?\nCONSTANT x"
      = .error ⟨"Not enough operands on the stack for '" ++ "AND" ++ "'.", 3⟩ := by
    decide +kernel
  have habove : assemble (Source.above 3 "true\n\nand ; with what?\nCONSTANT x")
      = .ok ⟨#[2], #[], #[1]⟩ := by decide +kernel
  have hsound : (run true ⟨#[2], #[], #[1]⟩ ⟨0, .ofCapacity 1, {}, {}⟩).2
      = .malformed (.pastEnd 1) := by decide +kernel
  have hlines : ∀ other ∈ Source.lines "true\n\nand ; with what?\nCONSTANT x",
      Opcode.ofMnemonic? other.mnemonic ≠ some .ret := by decide +kernel
  obtain ⟨line, op, c, -, -, -, hname, hc, hrun⟩ := run_of_shallow_line hrejected
  obtain rfl : op = .and := by
    cases op with
    | and => rfl
    | _ => exact absurd hname (by decide)
  obtain rfl : ⟨#[2], #[], #[1]⟩ = c := Except.ok.inj (habove.symm.trans hc)
  obtain ⟨t, u, last, hrun, hoffset, -, -⟩ :=
    hrun (fun other hmem _ named => hlines other hmem (Source.Line.names_iff.1 named)) true
      ⟨0, .ofCapacity 1, {}, {}⟩ rfl rfl (fun _ => rfl)
      (fun e he => nomatch hsound.symm.trans he)
  exact ⟨_, _, t, u, hrejected, rfl, rfl, rfl, hrun, hoffset⟩

end State

end StackMachine

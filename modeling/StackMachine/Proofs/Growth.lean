import Mathlib.Algebra.Ring.Nat
import Mathlib.Order.Bounds.Basic
import StackMachine.Proofs.Depth

/-!
# How far the stack grows

A push that finds the stack full doubles its room, and nothing ever gives room back. So the room is
a record of the past, and on assembled chunks this record can be read off the source: the room after
a run is the least of the initial one, its double, the double of that and so on which holds the
greatest depth that the assembler has counted behind any line that was completed
(`State.run_grows_to_depth`).

There are two halves to this. The first is about stacks and holds for chunks of any bytes. An
instruction takes its inputs off before it pushes, or might as well have done so
(`State.stack_of_step`), so the stack is never deeper, not even within a turn, than at the beginning
of the turn or of the next one, and no doubling is in vain. `OperandStack.RoomFor` says this of a
stack and the depths it has had. Pushing keeps it, losing values keeps it, and so does a run
(`State.roomFor_run`).

The second half is that the machine keeps pace with the lines (`State.KeepsPace.of_turns`): the
depths it has had are the ones the assembler has counted.
-/

namespace StackMachine

open Source (Line balance)

/-! ## Room and depths -/

namespace OperandStack

/-- **A stack has doubled its room as often as some depths ask for**, and not once more. -/
structure RoomFor (initial : Nat) (depths : List Nat) (s : OperandStack) : Prop where
  /-- The room is what it was at first, doubled. -/
  doubled : s.capacity = initial * 2 ^ s.growths
  /-- The values there are have found room. -/
  within : s.depth ≤ s.capacity
  /-- So have those of each of the depths. -/
  enough : ∀ depth ∈ depths, depth ≤ s.capacity
  /-- Fewer doublings would not have done. -/
  needed : ∀ k, (∀ depth ∈ depths, depth ≤ initial * 2 ^ k) → s.growths ≤ k

variable {s t : OperandStack} {initial : Nat} {depths : List Nat}

theorem roomFor_ofCapacity (positive : 1 ≤ initial) : (ofCapacity initial).RoomFor initial [] where
  doubled := (Nat.max_eq_left positive).trans (Nat.mul_one _).symm
  within := Nat.zero_le _
  enough _ h := absurd h List.not_mem_nil
  needed _ _ := Nat.zero_le _

theorem RoomFor.of_lost (h : s.RoomFor initial depths) (lost : s.Lost t) :
    t.RoomFor initial depths where
  doubled := by rw [lost.capacity, lost.growths, h.doubled]
  within := by
    rw [lost.capacity]
    exact Nat.le_trans lost.depth h.within
  enough depth hmem := by
    rw [lost.capacity]
    exact h.enough depth hmem
  needed k hk := by
    rw [lost.growths]
    exact h.needed k hk

/-- **A push doubles the room only if the new depth asks for it.** -/
theorem RoomFor.push (positive : 1 ≤ initial) (h : s.RoomFor initial depths) (v : Value) :
    (s.push v).RoomFor initial (depths ++ [(s.push v).depth]) := by
  have hdepth : (s.push v).depth = s.depth + 1 := rfl
  have hmem : ∀ {p : Nat → Prop}, (∀ depth ∈ depths ++ [(s.push v).depth], p depth) ↔
      (∀ depth ∈ depths, p depth) ∧ p (s.depth + 1) := by
    intro p
    rw [List.forall_mem_append, List.forall_mem_singleton, hdepth]
  by_cases full : s.depth = s.capacity
  · have hroom : s.makeRoom = s.grow := if_pos full
    have hcapacity : (s.push v).capacity = s.capacity * 2 := by rw [capacity_push, hroom]; rfl
    have hgrowths : (s.push v).growths = s.growths + 1 := by rw [growths_push, hroom]; rfl
    have hpositive : 0 < s.capacity := by
      rw [h.doubled]
      exact Nat.mul_pos positive (Nat.two_pow_pos _)
    refine ⟨?_, ?_, hmem.2 ⟨fun depth hdepths => ?_, ?_⟩, fun k hk => ?_⟩
    · rw [hcapacity, hgrowths, h.doubled, Nat.mul_assoc, Nat.pow_succ]
    · rw [hcapacity, hdepth]
      omega
    · have hle := h.enough depth hdepths
      rw [hcapacity]
      omega
    · rw [hcapacity]
      omega
    · -- With one doubling less there would be just as much room as there was.
      obtain ⟨-, hk⟩ := hmem.1 hk
      rw [hgrowths]
      by_contra hfew
      have hpow : initial * 2 ^ k ≤ initial * 2 ^ s.growths :=
        Nat.mul_le_mul_left _ (Nat.pow_le_pow_right (by decide) (by omega))
      rw [← h.doubled] at hpow
      omega
  · have hroom : s.makeRoom = s := if_neg full
    have hcapacity : (s.push v).capacity = s.capacity := by rw [capacity_push, hroom]
    have hgrowths : (s.push v).growths = s.growths := by rw [growths_push, hroom]
    have hwithin : s.depth + 1 ≤ s.capacity := Nat.lt_of_le_of_ne h.within full
    refine ⟨?_, ?_, hmem.2 ⟨fun depth hdepths => ?_, ?_⟩, fun k hk => ?_⟩
    · rw [hcapacity, hgrowths, h.doubled]
    · rw [hcapacity, hdepth]
      exact hwithin
    · rw [hcapacity]
      exact h.enough depth hdepths
    · rw [hcapacity]
      exact hwithin
    · rw [hgrowths]
      exact h.needed k (hmem.1 hk).1

end OperandStack

namespace State

variable {c : Chunk} {s t : State} {reason : Halt} {tracing : Bool} {initial : Nat}
  {depths : List Nat}

/-! ## Room along a run -/

/-- **A step that goes on asks for no more room than it ends up with.** -/
theorem roomFor_of_step_eq_next (positive : 1 ≤ initial) (h : s.stack.RoomFor initial depths)
    (hstep : s.step c = .next t) : t.stack.RoomFor initial (depths ++ [t.stack.depth]) := by
  rcases c.breaks_or_holds s.offset with ⟨m, hbreaks⟩ | ⟨op, operand, holds⟩
  · obtain ⟨next, hnext⟩ := step_of_breaks hbreaks
    exact nomatch hstep.symm.trans (hnext s.stack s.out s.err)
  · obtain ⟨v, hv⟩ := stack_of_step holds hstep h.within
    rw [hv]
    exact (h.of_lost (s.stack.lost_drop op.inputs)).push positive v

/-- A step that halts asks for none. -/
theorem roomFor_of_step_eq_halt (h : s.stack.RoomFor initial depths)
    (hstep : s.step c = .halt t reason) : t.stack.RoomFor initial depths := by
  rcases c.breaks_or_holds s.offset with ⟨m, hbreaks⟩ | ⟨op, operand, holds⟩
  · obtain ⟨next, hnext⟩ := step_of_breaks hbreaks
    obtain ⟨rfl, -⟩ := Transition.halt.inj ((hnext s.stack s.out s.err).symm.trans hstep)
    exact h
  · exact h.of_lost (of_step_eq_halt holds hstep).2

/-- A turn that goes on is a step that goes on. -/
theorem step_of_turn_eq_next (h : s.turn tracing c = .next t) :
    ∃ out, step c { s with out := out } = .next t := by
  rcases turn_eq_step_or_stack_eq tracing c s with ⟨out, hstep⟩ | ⟨u, e, hhalt, -⟩
  · exact ⟨out, hstep.symm.trans h⟩
  · exact nomatch hhalt.symm.trans h

/-- A turn that halts is a step that halts, or has failed over the trace. -/
theorem step_of_turn_eq_halt (h : s.turn tracing c = .halt t reason) :
    (∃ out, step c { s with out := out } = .halt t reason) ∨
      (∃ e, reason = .outputFailed e) ∧ t.stack = s.stack := by
  rcases turn_eq_step_or_stack_eq tracing c s with ⟨out, hstep⟩ | ⟨u, e, hhalt, hstack⟩
  · exact Or.inl ⟨out, hstep.symm.trans h⟩
  · obtain ⟨rfl, rfl⟩ := Transition.halt.inj (hhalt.symm.trans h)
    exact Or.inr ⟨⟨e, rfl⟩, hstack⟩

theorem turns_eq_cons (tracing : Bool) (c : Chunk) (s : State) :
    s.turns tracing c = s :: (s.turns tracing c).tail := by
  cases h : s.turn tracing c with
  | next t =>
    rw [turns_of_next h]
    rfl
  | halt t reason =>
    rw [turns_of_halt h]
    rfl

/-- **The room after a run is what the depths ask for that its turns begin with**, whatever the
bytes of the chunk. -/
theorem roomFor_run (positive : 1 ≤ initial) (h : s.stack.RoomFor initial depths) :
    (s.run tracing c).1.stack.RoomFor initial
      (depths ++ (s.turns tracing c).tail.map fun t => t.stack.depth) := by
  induction s using run_induction tracing c generalizing depths with
  | turn s ih =>
    cases hturn : s.turn tracing c with
    | next t =>
      obtain ⟨out, hstep⟩ := step_of_turn_eq_next hturn
      have hroom : t.stack.RoomFor initial (depths ++ [t.stack.depth]) :=
        roomFor_of_step_eq_next positive (s := { s with out := out }) h hstep
      have hrun := ih t hturn hroom
      rw [List.append_assoc, List.singleton_append] at hrun
      rw [run_of_next hturn, turns_of_next hturn, List.tail_cons, turns_eq_cons, List.map_cons]
      exact hrun
    | halt t reason =>
      rw [run_of_halt hturn, turns_of_halt hturn, List.tail_cons, List.map_nil, List.append_nil]
      rcases step_of_turn_eq_halt hturn with ⟨out, hstep⟩ | ⟨-, hstack⟩
      · exact roomFor_of_step_eq_halt (s := { s with out := out }) h hstep
      · rw [hstack]
        exact h

/-! ## Depths along a run -/

variable {line : Line} {before rest after : List Line} {i : Nat}

theorem KeepsPace.of_turn_eq_next (h : s.KeepsPace c before (line :: rest))
    (hturn : s.turn tracing c = .next t) : t.KeepsPace c (before ++ [line]) rest := by
  obtain ⟨out, hnext⟩ := step_of_turn_eq_next hturn
  obtain ⟨op, operand, -, -, ⟨u, hgo, hpace, -⟩ | ⟨u, e, hfails⟩ | ⟨-, u, v, hends⟩⟩ :=
    (h.with_out out).step_cases
  · rw [Transition.next.inj (hnext.symm.trans hgo)]
    exact hpace
  · exact nomatch hnext.symm.trans hfails
  · exact nomatch hnext.symm.trans hends

/-- **Turn after turn, the machine leaves one line behind.** -/
theorem KeepsPace.of_turns (h : s.KeepsPace c before after)
    (hturns : (s.turns tracing c)[i]? = some t) :
    t.KeepsPace c (before ++ after.take i) (after.drop i) := by
  induction i generalizing s before after with
  | zero =>
    rw [turns_eq_cons, List.getElem?_cons_zero] at hturns
    cases hturns
    rw [List.take_zero, List.append_nil]
    exact h
  | succ i ih =>
    cases hturn : s.turn tracing c with
    | halt u reason =>
      rw [turns_of_halt hturn] at hturns
      exact nomatch hturns
    | next u =>
      rw [turns_of_next hturn, List.getElem?_cons_succ] at hturns
      cases after with
      | nil =>
        have hlt := (lt_of_turn_eq_next hturn).1
        exact absurd h.offset_eq (Nat.ne_of_lt hlt)
      | cons line rest =>
        have hpace := ih (h.of_turn_eq_next hturn) hturns
        rw [List.append_assoc, List.singleton_append] at hpace
        exact hpace

/-- A run ends with its last turn. -/
theorem exists_last_turn (tracing : Bool) (c : Chunk) (s : State) :
    ∃ i t, (s.turns tracing c).length = i + 1 ∧ (s.turns tracing c)[i]? = some t ∧
      t.turn tracing c = .halt (s.run tracing c).1 (s.run tracing c).2 := by
  induction s using run_induction tracing c with
  | turn s ih =>
    cases hturn : s.turn tracing c with
    | next t =>
      obtain ⟨i, last, hlength, hlast, hhalt⟩ := ih t hturn
      rw [turns_of_next hturn, run_of_next hturn]
      exact ⟨i + 1, last, congrArg (· + 1) hlength, hlast, hhalt⟩
    | halt t reason =>
      rw [turns_of_halt hturn, run_of_halt hturn]
      exact ⟨0, s, rfl, rfl, hturn⟩

/-- **How many instructions a run completes**: those of all turns but the last one, and of this one
too if it hands back a value. -/
def completed (tracing : Bool) (c : Chunk) (s : State) : Nat :=
  match (s.run tracing c).2 with
  | .returned _ => (s.turns tracing c).length
  | _ => (s.turns tracing c).length - 1

theorem le_completed_iff {count : Nat} :
    count ≤ s.completed tracing c ↔ count < (s.turns tracing c).length ∨
      count = (s.turns tracing c).length ∧ ∃ v, (s.run tracing c).2 = .returned v := by
  obtain ⟨i, -, hlength, -⟩ := exists_last_turn tracing c s
  rw [completed, hlength]
  cases (s.run tracing c).2 with
  | returned v =>
    rw [Nat.le_iff_lt_or_eq, and_iff_left ⟨v, rfl⟩]
  | _ =>
    rw [or_iff_left (by rintro ⟨-, v, hv⟩; exact nomatch hv)]
    exact Nat.lt_succ_iff.symm

/-- The instruction that hands back a value leaves the stack no deeper than it was. -/
theorem KeepsPace.balance_le_of_returned (h : s.KeepsPace c before after) {v : Value}
    (hturn : s.turn tracing c = .halt t (.returned v)) :
    balance (before ++ after.take 1) ≤ s.stack.depth := by
  cases after with
  | nil => exact (List.append_nil before).symm ▸ Int.le_of_eq h.depth.symm
  | cons line rest =>
    rcases step_of_turn_eq_halt hturn with ⟨out, hhalt⟩ | ⟨⟨e, he⟩, -⟩
    · obtain ⟨op, operand, named, -, ⟨u, hgo, -, -⟩ | ⟨u, e, hfails⟩ | ⟨rfl, -⟩⟩ :=
        (h.with_out out).step_cases
      · exact nomatch hhalt.symm.trans hgo
      · exact nomatch hhalt.symm.trans hfails
      · have hchange : line.change = -1 := named.change_eq
        have hdepth := h.depth
        show balance (before ++ [line]) ≤ _
        rw [Source.balance_concat, hchange]
        omega
    · exact nomatch he

end State

/-! ## The depths that the assembler counts -/

namespace Assembly

/-- **The depth that the assembler has counted** behind so many of the lines. -/
def depthBehind (lines : List Line) (count : Nat) : Nat := (extendAll {} (lines.take count)).1.depth

/-- If the assembler takes all the lines, what it has counted is what the lines so far leave. -/
theorem depthBehind_eq_balance {source : String} {c : Chunk} (h : assemble source = .ok c)
    (count : Nat) :
    (depthBehind (Source.lines source) count : Int)
      = balance ((Source.lines source).take count) := by
  rcases faultless_or_isFirstFault ((Source.lines source).take count) with
    ⟨-, a, ha, tracks⟩ | ⟨_, line, _, fault, -, -, -, hfault⟩
  · rw [depthBehind, ha]
    exact tracks.depth
  · obtain ⟨a, ha, -⟩ := assemble_eq_ok_iff.1 h
    have hall := snd_extendAll_append hfault ((Source.lines source).drop count)
    rw [List.take_append_drop, ha] at hall
    exact nomatch hall

end Assembly

namespace State

open Assembly (depthBehind)

variable {source : String} {c : Chunk} {s t : State} {tracing : Bool} {i : Nat}

/-- **The stack is as deep as the assembler has counted**, in front of every line. -/
theorem depth_eq_depthBehind (h : assemble source = .ok c)
    (hpace : s.KeepsPace c [] (Source.lines source))
    (hturns : (s.turns tracing c)[i]? = some t) :
    t.stack.depth = depthBehind (Source.lines source) i := by
  have hdepth := (hpace.of_turns hturns).depth
  rw [List.nil_append, ← Assembly.depthBehind_eq_balance h] at hdepth
  exact Int.ofNat.inj hdepth

/-- The depths that are counted behind completed lines are no greater than those that the turns of
the run begin with. -/
theorem depthBehind_le_of_completed (h : assemble source = .ok c)
    (hpace : s.KeepsPace c [] (Source.lines source)) {room : Nat}
    (hroom : ∀ t ∈ s.turns tracing c, t.stack.depth ≤ room) {count : Nat}
    (hcount : count ≤ s.completed tracing c) :
    depthBehind (Source.lines source) count ≤ room := by
  rcases le_completed_iff.1 hcount with hlt | ⟨rfl, v, hreturned⟩
  · have hturns := List.getElem?_eq_getElem hlt
    rw [← depth_eq_depthBehind h hpace hturns]
    exact hroom _ (List.getElem_mem hlt)
  · obtain ⟨i, last, hlength, hlast, hhalt⟩ := exists_last_turn tracing c s
    rw [hreturned] at hhalt
    have hle := (hpace.of_turns hlast).balance_le_of_returned hhalt
    rw [List.nil_append, ← List.take_add, ← Assembly.depthBehind_eq_balance h, ← hlength] at hle
    exact Nat.le_trans (Int.ofNat_le.1 hle) (hroom last (List.mem_of_getElem? hlast))

/-- **The depths that a run asks room for** are those that are counted behind the lines it
completes. -/
theorem forall_depthBehind_le_iff (h : assemble source = .ok c)
    (hpace : s.KeepsPace c [] (Source.lines source)) {room : Nat} :
    (∀ count, 1 ≤ count → count ≤ s.completed tracing c →
        depthBehind (Source.lines source) count ≤ room) ↔
      ∀ depth ∈ (s.turns tracing c).tail.map (fun t => t.stack.depth), depth ≤ room := by
  rw [List.forall_mem_map]
  constructor
  · intro hroom t hmem
    obtain ⟨j, hj⟩ := List.mem_iff_getElem?.1 hmem
    rw [List.getElem?_tail] at hj
    rw [depth_eq_depthBehind h hpace hj]
    refine hroom _ (Nat.succ_pos j) (le_completed_iff.2 (Or.inl ?_))
    exact (List.getElem?_eq_some_iff.1 hj).1
  · intro hroom count _ hcount
    refine depthBehind_le_of_completed h hpace (fun t hmem => ?_) hcount
    rw [turns_eq_cons] at hmem
    rcases List.mem_cons.1 hmem with rfl | hmem
    · have hdepth : (t.stack.depth : Int) = 0 := hpace.depth
      omega
    · exact hroom t hmem

/-- **The depth that the assembler counts foretells how far the stack grows.** Run an assembled
chunk on an empty stack with room for one value at least, traced or not and whatever the sinks take.
Each turn begins in front of the next line, with the stack as deep as the assembler has counted up
to there. And however the run ends, the room it leaves is the least of the initial one and its
doubles that holds what was counted behind any line that was completed, and the doublings are as
many as that takes. -/
theorem run_grows_to_depth (h : assemble source = .ok c) {initial : Nat} (positive : 1 ≤ initial)
    (tracing : Bool) (first : s.offset = 0) (fresh : s.stack = .ofCapacity initial) :
    (∀ i t, (s.turns tracing c)[i]? = some t →
        t.stack.depth = depthBehind (Source.lines source) i ∧
        ∀ line, (Source.lines source)[i]? = some line → c.line? t.offset = some line.number) ∧
      (s.run tracing c).1.stack.capacity = initial * 2 ^ (s.run tracing c).1.stack.growths ∧
      IsLeast { room | ∃ k, room = initial * 2 ^ k ∧
          ∀ count, 1 ≤ count → count ≤ s.completed tracing c →
            depthBehind (Source.lines source) count ≤ room }
        (s.run tracing c).1.stack.capacity := by
  have hpace : s.KeepsPace c [] (Source.lines source) :=
    keepsPace_of_assemble h first (fresh ▸ rfl)
  have hfresh : s.stack.RoomFor initial [] :=
    fresh.symm ▸ OperandStack.roomFor_ofCapacity positive
  have hroom : (s.run tracing c).1.stack.RoomFor initial
      ((s.turns tracing c).tail.map fun t => t.stack.depth) := roomFor_run positive hfresh
  refine ⟨fun i t hturns => ⟨depth_eq_depthBehind h hpace hturns, fun line hline => ?_⟩,
    hroom.doubled, ⟨_, hroom.doubled, ?_⟩, ?_⟩
  · obtain ⟨pooled, laid⟩ := (hpace.of_turns hturns).laid
    obtain ⟨hlt, rfl⟩ := List.getElem?_eq_some_iff.1 hline
    rw [List.drop_eq_getElem_cons hlt] at laid
    exact laid.place
  · exact (forall_depthBehind_le_iff h hpace).2 hroom.enough
  · rintro room ⟨k, rfl, hk⟩
    rw [hroom.doubled]
    refine Nat.mul_le_mul_left _ (Nat.pow_le_pow_right (by decide) (hroom.needed k ?_))
    exact (forall_depthBehind_le_iff h hpace).1 hk

/-- Three values on a stack with room for one, and then a failure: the lines behind it would have
led to five, but they are not reached, and there is room for four. -/
theorem run_grows_to_depth_failed_negation :
    ∃ (c : Chunk) (s : State),
      assemble "TRUE\nNIL\nFALSE\nNEGATE\nTRUE\nTRUE" = .ok c ∧ s.offset = 0 ∧
      s.stack = .ofCapacity 1 ∧ s.completed false c = 3 ∧
      (s.run false c).2 = .typeError ⟨"Operand must be a number.", 4⟩ ∧
      (s.run false c).1.stack.contents = [] ∧ (s.run false c).1.stack.growths = 2 ∧
      depthBehind (Source.lines "TRUE\nNIL\nFALSE\nNEGATE\nTRUE\nTRUE") 6 = 5 ∧
      IsLeast { room | ∃ k, room = 1 * 2 ^ k ∧ ∀ count, 1 ≤ count → count ≤ 3 →
        depthBehind (Source.lines "TRUE\nNIL\nFALSE\nNEGATE\nTRUE\nTRUE") count ≤ room } 4 := by
  have h : assemble "TRUE\nNIL\nFALSE\nNEGATE\nTRUE\nTRUE"
      = .ok ⟨#[2, 4, 3, 5, 2, 2], #[], #[1, 2, 3, 4, 5, 6]⟩ := by decide +kernel
  obtain ⟨-, hdoubled, hleast⟩ := run_grows_to_depth h (Nat.le_refl 1) false
    (s := ⟨0, .ofCapacity 1, {}, {}⟩) rfl rfl
  have hcompleted : completed false ⟨#[2, 4, 3, 5, 2, 2], #[], #[1, 2, 3, 4, 5, 6]⟩
      ⟨0, .ofCapacity 1, {}, {}⟩ = 3 := by decide +kernel
  have hgrowths : (run false ⟨#[2, 4, 3, 5, 2, 2], #[], #[1, 2, 3, 4, 5, 6]⟩
      ⟨0, .ofCapacity 1, {}, {}⟩).1.stack.growths = 2 := by decide +kernel
  rw [hcompleted, hdoubled, hgrowths] at hleast
  refine ⟨_, _, h, rfl, rfl, hcompleted, ?_, ?_, hgrowths, ?_, hleast⟩ <;> decide +kernel

end State

end StackMachine

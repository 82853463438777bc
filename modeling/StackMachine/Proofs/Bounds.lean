import StackMachine.Proofs.Growth
import StackMachine.Proofs.Tracing

/-!
# A run ends, and stays inside its chunk

Nothing in the loop that runs a chunk says that it will end, and nothing checks the offset before it
is moved. Both come from the steps: one that goes on has read a byte, so there was one, and where it
leads there may be no further byte but the code is not left behind. So a chunk of any bytes is run
in no more turns than it has bytes ahead, and one turn more to find that there are none
(`State.run_stays_inside`).

The function that runs a chunk is total because of this very argument. So that the bound does not
rest on the function that it is about, it is stated of `State.runFor`, which takes turns by a
given number and knows of no other reason to end.

Where the offset is at each moment of a turn is `State.course`: where the turn begins, behind the
code byte as soon as this is read, and where the turn leads to.
-/

namespace StackMachine

/-- The state that a transition leads to, whether the run goes on from there or not. -/
def Transition.state : Transition → State
  | next s | halt s _ => s

namespace State

/-- **Takes so many turns**, or fewer if the run is over by then. -/
def runFor (tracing : Bool) (c : Chunk) : Nat → State → Transition
  | 0, s => .next s
  | count + 1, s =>
    match s.turn tracing c with
    | .next t => runFor tracing c count t
    | .halt t reason => .halt t reason

/-- Whether a turn that begins in a state gets to try for a byte: the trace, if there is to be one,
has to fit. -/
def attempts (tracing : Bool) (c : Chunk) (s : State) : Bool :=
  !tracing || s.out.fits (s.traceText c)

/-- **The offsets that a turn comes by**, one for each moment: where it begins, behind the code byte
if it reads one, and where it leads to. -/
def course (tracing : Bool) (c : Chunk) (s : State) : List Nat :=
  s.offset :: ((if s.attempts tracing c then c.fetch? s.offset else none).map Prod.snd).toList
    ++ [(s.turn tracing c).state.offset]

variable {tracing : Bool} {c : Chunk} {s t : State} {reason : Halt}

/-! ## One turn -/

theorem attempts_iff :
    s.attempts tracing c = true ↔ (tracing = true → s.out.fits (s.traceText c) = true) := by
  rw [attempts]
  cases tracing <;> simp

/-- A turn that gets to try for a byte is a step with another output. -/
theorem turn_of_attempts (h : s.attempts tracing c = true) :
    ∃ out, s.turn tracing c = step c { s with out := out } := by
  cases tracing with
  | false => exact ⟨s.out, rfl⟩
  | true =>
    have hfits := attempts_iff.1 h rfl
    refine ⟨s.out.write (s.traceText c), ?_⟩
    rw [turn, if_pos rfl, Sink.writeError?, if_pos hfits]
    rfl

/-- A turn that does not has cut the trace, and that is all it does. -/
theorem turn_of_not_attempts (h : ¬s.attempts tracing c = true) :
    s.turn tracing c = .halt (s.writeTrace c) (.outputFailed .full) := by
  rw [attempts_iff, Classical.not_imp] at h
  obtain ⟨rfl, hfull⟩ := h
  rw [turn, if_pos rfl, Sink.writeError?, if_neg hfull]

/-- A step that halts has passed its code byte, if there is one, and nothing else. -/
theorem offset_of_step_eq_halt (h : s.step c = .halt t reason) :
    t.offset = ((c.fetch? s.offset).map Prod.snd).getD s.offset := by
  unfold step at h
  cases hfetch : c.fetch? s.offset with
  | none =>
    rw [hfetch] at h
    cases h
    rfl
  | some read =>
    rw [hfetch] at h
    dsimp only at h
    split at h
    · cases h
      rfl
    · exact (of_perform_eq_halt h).1

/-- **Where a step leads to**: past the byte that it reads, but not past the end of the code, and if
there is no byte it stays where it is. -/
theorem offset_of_step (c : Chunk) (s : State) :
    (s.offset < c.size → s.offset < (s.step c).state.offset ∧ (s.step c).state.offset ≤ c.size) ∧
      (c.size ≤ s.offset → (s.step c).state.offset = s.offset) := by
  refine ⟨fun hlt => ?_, fun hle => by rw [step_of_size_le hle]; rfl⟩
  cases hstep : s.step c with
  | next t => exact ⟨(lt_of_step_eq_next hstep).2, (of_step_eq_next hstep).2.2⟩
  | halt t reason =>
    have hbyte : c.byte? s.offset = some c.code[s.offset] := Array.getElem?_eq_getElem hlt
    have hoffset : t.offset = s.offset + 1 := by
      rw [offset_of_step_eq_halt hstep, Chunk.fetch?, hbyte]
      rfl
    show s.offset < t.offset ∧ t.offset ≤ c.size
    omega

/-- **A turn that reads a byte moves past it.** -/
theorem lt_offset_of_reads (h : s.reads tracing c = true) :
    s.offset < (s.turn tracing c).state.offset := by
  obtain ⟨hfits, hlt⟩ := reads_iff.1 h
  obtain ⟨out, hturn⟩ := turn_of_attempts (attempts_iff.2 hfits)
  rw [hturn]
  exact ((offset_of_step c { s with out := out }).1 hlt).1

/-- A turn that begins inside the code leads to a place inside the code. -/
theorem offset_turn_le (tracing : Bool) (h : s.offset ≤ c.size) :
    (s.turn tracing c).state.offset ≤ c.size := by
  by_cases hattempts : s.attempts tracing c = true
  · obtain ⟨out, hturn⟩ := turn_of_attempts hattempts
    obtain ⟨inside, ended⟩ := offset_of_step c { s with out := out }
    rw [hturn]
    rcases Nat.lt_or_ge s.offset c.size with hlt | hge
    · exact (inside hlt).2
    · exact (ended hge).symm ▸ h
  · rw [turn_of_not_attempts hattempts]
    exact h

/-- **A turn that begins inside the code stays there**, at every moment. -/
theorem le_size_of_mem_course (h : s.offset ≤ c.size) {offset : Nat}
    (hmem : offset ∈ s.course tracing c) : offset ≤ c.size := by
  rcases List.mem_append.1 hmem with hmem | hmem
  · rcases List.mem_cons.1 hmem with rfl | hmem
    · exact h
    · -- The place behind a byte is at most the end, for the byte is in front of it.
      rw [Option.mem_toList] at hmem
      split at hmem
      · obtain ⟨read, hread, rfl⟩ := Option.map_eq_some_iff.1 hmem
        obtain ⟨hbyte, hnext⟩ := Chunk.fetch?_eq_some_iff.1 hread
        rw [hnext]
        exact Chunk.lt_size_of_byte? hbyte
      · exact nomatch hmem
  · rw [List.mem_singleton.1 hmem]
    exact offset_turn_le tracing h

/-! ## Whole runs -/

/-- A run is over once it has been given its turns. -/
theorem runFor_of_length_le {count : Nat} (h : (s.turns tracing c).length ≤ count) :
    s.runFor tracing c count = .halt (s.run tracing c).1 (s.run tracing c).2 := by
  induction s using run_induction tracing c generalizing count with
  | turn s ih =>
    cases count with
    | zero =>
      rw [turns_eq_cons] at h
      exact absurd h (Nat.not_succ_le_zero _)
    | succ count =>
      cases hturn : s.turn tracing c with
      | next t =>
        rw [turns_of_next hturn, List.length_cons, Nat.add_le_add_iff_right] at h
        rw [runFor, hturn, run_of_next hturn]
        exact ih t hturn h
      | halt t reason => rw [runFor, hturn, run_of_halt hturn]

/-- **A run has a turn for each byte ahead at most, and one for the end.** -/
theorem length_turns_le (tracing : Bool) (c : Chunk) (s : State) :
    (s.turns tracing c).length ≤ c.size - s.offset + 1 := by
  induction s using run_induction tracing c with
  | turn s ih =>
    cases hturn : s.turn tracing c with
    | next t =>
      have hle := ih t hturn
      have hlt := lt_of_turn_eq_next hturn
      rw [turns_of_next hturn, List.length_cons]
      omega
    | halt t reason =>
      rw [turns_of_halt hturn]
      exact Nat.le_add_left 1 _

/-- Every turn of a run begins inside the code if the first does. -/
theorem offset_le_of_mem_turns (h : s.offset ≤ c.size) (hmem : t ∈ s.turns tracing c) :
    t.offset ≤ c.size := by
  induction s using run_induction tracing c with
  | turn s ih =>
    cases hturn : s.turn tracing c with
    | next u =>
      rw [turns_of_next hturn] at hmem
      rcases List.mem_cons.1 hmem with rfl | hmem
      · exact h
      · exact ih u hturn (of_turn_eq_next hturn).2.2 hmem
    | halt u reason =>
      rw [turns_of_halt hturn] at hmem
      rw [List.mem_singleton.1 hmem]
      exact h

/-- A run ends where its last turn leads to. -/
theorem offset_run_le (h : s.offset ≤ c.size) : (s.run tracing c).1.offset ≤ c.size := by
  obtain ⟨i, last, -, hlast, hhalt⟩ := exists_last_turn tracing c s
  have hle := offset_turn_le tracing (offset_le_of_mem_turns h (List.mem_of_getElem? hlast))
  rw [hhalt] at hle
  exact hle

/-- **A run that starts behind the code is over at once**, and has at most written a trace. -/
theorem run_of_size_le (tracing : Bool) (h : c.size ≤ s.offset) :
    ∃ out, s.run tracing c = ({ s with out := out },
      if s.attempts tracing c then .malformed (.pastEnd s.offset) else .outputFailed .full) := by
  by_cases hattempts : s.attempts tracing c = true
  · obtain ⟨out, hturn⟩ := turn_of_attempts hattempts
    have hend : step c { s with out := out } = _ := step_of_size_le h
    rw [if_pos hattempts, run_of_halt (hturn.trans hend)]
    exact ⟨out, rfl⟩
  · rw [if_neg hattempts, run_of_halt (turn_of_not_attempts hattempts)]
    exact ⟨s.out.write (s.traceText c), rfl⟩

/-- **A run ends, and stays inside its chunk**, whatever the bytes of the chunk, traced or not, and
on any stack and sinks. From an offset inside the code it is over after as many turns as there are
bytes ahead and one more, and tries no more often for a byte. Every byte that it reads takes it
forward by one at least, and at no moment is it past the end of the code. From an offset behind the
last byte it fails for just this reason, or because the trace did not fit, and the offset and the
stack are what they were. -/
theorem run_stays_inside (tracing : Bool) (c : Chunk) (s : State) :
    (s.offset ≤ c.size →
      s.runFor tracing c (c.size - s.offset + 1)
          = .halt (s.run tracing c).1 (s.run tracing c).2 ∧
        (s.turns tracing c).countP (attempts tracing c) ≤ c.size - s.offset + 1 ∧
        (∀ t ∈ s.turns tracing c, t.reads tracing c = true →
          t.offset + 1 ≤ (t.turn tracing c).state.offset) ∧
        (∀ t ∈ s.turns tracing c, ∀ offset ∈ t.course tracing c, offset ≤ c.size) ∧
        (s.run tracing c).1.offset ≤ c.size) ∧
      (c.size ≤ s.offset →
        (s.run tracing c).1.offset = s.offset ∧ (s.run tracing c).1.stack = s.stack ∧
        (s.run tracing c).2.outcome
          = .failure (if s.attempts tracing c then
                .malformed ("instruction pointer ran past the end of the chunk at offset "
                  ++ Decimal.text s.offset)
              else .output "stream full")) := by
  refine ⟨fun hstart => ⟨?_, ?_, ?_, ?_, offset_run_le hstart⟩, fun hbehind => ?_⟩
  · exact runFor_of_length_le (length_turns_le tracing c s)
  · exact Nat.le_trans List.countP_le_length (length_turns_le tracing c s)
  · exact fun t _ hreads => lt_offset_of_reads hreads
  · exact fun t hmem offset => le_size_of_mem_course (offset_le_of_mem_turns hstart hmem)
  · obtain ⟨out, hrun⟩ := run_of_size_le tracing hbehind
    rw [hrun]
    refine ⟨rfl, rfl, ?_⟩
    cases s.attempts tracing c <;> rfl

/-- A chunk that ends in the middle of a load: the run stops where its code does, one turn before
the bound. Started behind the end, it comes no further than its trace, which does not fit. -/
theorem run_stays_inside_half_a_load :
    ∃ c : Chunk, c = ⟨#[4, 4, 1], #[.number .one], #[]⟩ ∧
      runFor false c 4 ⟨0, .ofCapacity 1, {}, {}⟩
        = .halt (run false c ⟨0, .ofCapacity 1, {}, {}⟩).1 (.malformed (.missingOperand 3)) ∧
      (run false c ⟨0, .ofCapacity 1, {}, {}⟩).1.offset ≤ 3 ∧
      (run true c ⟨9, .ofCapacity 1, { limit := some 0 }, {}⟩).1.offset = 9 ∧
      (run true c ⟨9, .ofCapacity 1, { limit := some 0 }, {}⟩).2.outcome
        = .failure (.output "stream full") := by
  obtain ⟨hends, -, -, -, hinside⟩ := (run_stays_inside false ⟨#[4, 4, 1], #[.number .one], #[]⟩
    ⟨0, .ofCapacity 1, {}, {}⟩).1 (by decide)
  obtain ⟨hoffset, -, houtcome⟩ := (run_stays_inside true ⟨#[4, 4, 1], #[.number .one], #[]⟩
    ⟨9, .ofCapacity 1, { limit := some 0 }, {}⟩).2 (by decide)
  have hreason : (run false ⟨#[4, 4, 1], #[.number .one], #[]⟩ ⟨0, .ofCapacity 1, {}, {}⟩).2
      = .malformed (.missingOperand 3) := by decide +kernel
  have hcut : attempts true ⟨#[4, 4, 1], #[.number .one], #[]⟩
      ⟨9, .ofCapacity 1, { limit := some 0 }, {}⟩ = false := by decide +kernel
  rw [hreason] at hends
  rw [hcut] at houtcome
  exact ⟨_, rfl, hends, hinside, hoffset, houtcome⟩

end State

end StackMachine

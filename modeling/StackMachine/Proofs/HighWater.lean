import Mathlib.Analysis.SpecialFunctions.Log.Base
import StackMachine.Proofs.Growth
import StackMachine.Proofs.Service

/-!
# A stack is a list with a high-water mark

What can be seen of a stack are the values on it and the account of its room. The values are those
of a plain list that the same is done to, and the room has no say in them: `serve_view` compares the
stack, which holds its top in front, with a list that grows at its end, operation by operation and
reply by reply.

The account is of the past. Room is never given back, so it cannot depend on the values that are
there now, but only on how many there have been at most. This high-water mark is not kept anywhere.
That it can be recovered from the account, as far as doublings go, is what `RoomFor` says of a stack
and the lengths it has had, and the only thing left to see is that every operation keeps it
(`RoomFor.serve`): a push by the law of pushes, and any other because it puts nothing on the stack
(`lost_or_push_of_serve`). Then the doublings are the fewest that the mark can do with, and with a
stack that is filled from nothing this is a logarithm.
-/

namespace StackMachine

namespace OperandStack

/-! ## Stacks and lists -/

/-- **What can be done with a stack.** -/
inductive Operation where
  /-- To put a value on top. -/
  | push (v : Value)
  /-- To take the top value off. -/
  | pop
  /-- To look at the value at a distance from the top. -/
  | peek (distance : Nat)
  /-- To put a value in the place of the one at a distance from the top. -/
  | assign (distance : Nat) (v : Value)
  /-- To take every value off. -/
  | reset

/-- What comes of an operation: a value if it is to give one, or an underflow. -/
abbrev Reply := Except Underflow (Option Value)

/-- **A stack after an operation**, and the reply. One that fails leaves the stack alone. -/
def serve (s : OperandStack) : Operation → OperandStack × Reply
  | .push v => (s.push v, .ok none)
  | .pop =>
    match s.pop with
    | .ok (v, rest) => (rest, .ok (some v))
    | .error u => (s, .error u)
  | .peek distance => (s, (s.peek distance).map some)
  | .assign distance v =>
    match s.replace distance v with
    | .ok t => (t, .ok none)
    | .error u => (s, .error u)
  | .reset => (s.clear, .ok none)

/-- Why a list has no value at a distance from its end. -/
def lacking (values : List Value) (distance : Nat) : Underflow :=
  if values = [] then .empty else .tooDeep distance values.length

theorem fromEnd_lt {length distance : Nat} (h : distance < length) :
    length - 1 - distance < length := by
  omega

/-- **A plain list after an operation**, and the reply. The top is the end of the list. -/
def serveList (values : List Value) : Operation → List Value × Reply
  | .push v => (values ++ [v], .ok none)
  | .pop =>
    match values.getLast? with
    | some v => (values.dropLast, .ok (some v))
    | none => (values, .error .empty)
  | .peek distance =>
    (values,
      if h : distance < values.length then
        .ok (some (values.get ⟨values.length - 1 - distance, fromEnd_lt h⟩))
      else .error (lacking values distance))
  | .assign distance v =>
    if distance < values.length then (values.set (values.length - 1 - distance) v, .ok none)
    else (values, .error (lacking values distance))
  | .reset => ([], .ok none)

variable {s : OperandStack}

theorem length_contents (s : OperandStack) : s.contents.length = s.depth := by
  rw [contents, List.length_reverse, s.depth_eq]

theorem missing_eq_lacking (s : OperandStack) (distance : Nat) :
    s.missing distance = lacking s.contents distance := by
  have hempty : s.isEmpty = true ↔ s.contents = [] := by
    rw [isEmpty, List.isEmpty_iff, contents, List.reverse_eq_nil_iff]
  rw [missing, lacking, length_contents]
  exact if_congr hempty rfl rfl

/-- A value at a distance from the top is one at a distance from the end. -/
theorem values_getElem?_of_lt {distance : Nat} (h : distance < s.contents.length) :
    s.values[distance]?
      = some (s.contents.get ⟨s.contents.length - 1 - distance, fromEnd_lt h⟩) := by
  have hvalues : s.values = s.contents.reverse := (List.reverse_reverse _).symm
  rw [hvalues, List.getElem?_reverse h, List.getElem?_eq_getElem (fromEnd_lt h)]
  rfl

theorem values_getElem?_of_le {distance : Nat} (h : s.contents.length ≤ distance) :
    s.values[distance]? = none := by
  rw [length_contents, s.depth_eq] at h
  exact List.getElem?_eq_none h

theorem contents_set {distance : Nat} (h : distance < s.contents.length) (v : Value) :
    (s.set distance v).contents = s.contents.set (s.contents.length - 1 - distance) v := by
  have hlength : s.contents.length = s.values.length := List.length_reverse
  show (s.values.set distance v).reverse = s.values.reverse.set _ v
  refine List.ext_getElem (by simp) fun i hi hi' => ?_
  rw [List.length_reverse, List.length_set] at hi
  rw [List.getElem_reverse, List.getElem_set, List.getElem_set, List.getElem_reverse]
  simp only [List.length_set]
  refine if_congr ?_ rfl rfl
  omega

/-- **An operation does to a stack what it does to the list of its values**, and replies the
same. -/
theorem serve_view (s : OperandStack) (op : Operation) :
    Prod.map contents id (s.serve op) = serveList s.contents op := by
  cases op with
  | push v => rw [serve, Prod.map_apply, contents_push]; rfl
  | pop =>
    cases hvalues : s.values with
    | nil =>
      have hcontents : s.contents = [] := by rw [contents, hvalues]; rfl
      rw [serve, pop_of_values_eq_nil hvalues, serveList]
      dsimp only
      rw [Prod.map_apply, hcontents]
      rfl
    | cons v rest =>
      have hcontents : s.contents = rest.reverse ++ [v] := by
        rw [contents, hvalues, List.reverse_cons]
      have hdrop : (s.drop 1).contents = rest.reverse := by
        show (s.values.drop 1).reverse = rest.reverse
        rw [hvalues]
        rfl
      rw [serve, pop_of_values_eq_cons hvalues, serveList, hcontents, List.getLast?_concat,
        List.dropLast_concat, ← hdrop]
      rfl
  | peek distance =>
    rw [serve, serveList, peek]
    by_cases h : distance < s.contents.length
    · rw [values_getElem?_of_lt h, dif_pos h]
      rfl
    · rw [values_getElem?_of_le (Nat.le_of_not_lt h), dif_neg h, ← missing_eq_lacking]
      rfl
  | assign distance v =>
    rw [serve, serveList, replace]
    by_cases h : distance < s.contents.length
    · rw [values_getElem?_of_lt h, if_pos h, ← contents_set h]
      rfl
    · rw [values_getElem?_of_le (Nat.le_of_not_lt h), if_neg h, ← missing_eq_lacking]
      rfl
  | reset => rfl

/-! ## The account of the room -/

/-- **The lengths that a list comes to have** under some operations, one for each of them. -/
def lengths (values : List Value) : List Operation → List Nat
  | [] => []
  | op :: rest => (serveList values op).1.length :: lengths (serveList values op).1 rest

/-- **The high-water mark**: the greatest length that an empty list comes to have. -/
def highWater (ops : List Operation) : Nat := (lengths [] ops).foldr max 0

theorem foldr_max_le_iff {depths : List Nat} {n : Nat} :
    depths.foldr max 0 ≤ n ↔ ∀ depth ∈ depths, depth ≤ n := by
  induction depths with
  | nil => simp
  | cons depth rest ih => rw [List.foldr_cons, max_le_iff, ih, List.forall_mem_cons]

/-- An operation that is no push puts nothing on the stack. -/
theorem lost_or_push_of_serve (s : OperandStack) (op : Operation) :
    s.Lost (s.serve op).1 ∨ ∃ v, (s.serve op).1 = s.push v := by
  cases op with
  | push v => exact Or.inr ⟨v, rfl⟩
  | pop =>
    refine Or.inl ?_
    rw [serve]
    cases hpop : s.pop with
    | error u => exact s.lost_refl
    | ok taken =>
      dsimp only
      rw [eq_drop_of_pop hpop]
      exact s.lost_drop 1
  | peek distance => exact Or.inl s.lost_refl
  | assign distance v =>
    refine Or.inl ?_
    rw [serve, replace]
    cases s.values[distance]? with
    | none => exact s.lost_refl
    | some w => exact ⟨Nat.le_refl _, rfl, rfl⟩
  | reset => exact Or.inl s.lost_clear

namespace RoomFor

variable {initial : Nat} {depths : List Nat} (room : s.RoomFor initial depths)
include room

/-- **The doublings are the fewest that will do.** -/
theorem growths_le_iff {k : Nat} :
    s.growths ≤ k ↔ ∀ depth ∈ depths, depth ≤ initial * 2 ^ k := by
  refine ⟨fun hle depth hmem => ?_, room.needed k⟩
  calc depth ≤ s.capacity := room.enough depth hmem
    _ = initial * 2 ^ s.growths := room.doubled
    _ ≤ initial * 2 ^ k := Nat.mul_le_mul_left _ (Nat.pow_le_pow_right Nat.two_pos hle)

variable (positive : 1 ≤ initial)
include positive

/-- **Every operation keeps the account**, with the depth it leads to as one more to find room
for. -/
theorem serve (op : Operation) :
    (s.serve op).1.RoomFor initial (depths ++ [(s.serve op).1.depth]) := by
  rcases s.lost_or_push_of_serve op with lost | ⟨v, hpush⟩
  · have hkept := room.of_lost lost
    refine ⟨hkept.doubled, hkept.within, ?_, fun k hk => hkept.needed k fun depth hmem => ?_⟩
    · rw [List.forall_mem_append, List.forall_mem_singleton]
      exact ⟨hkept.enough, hkept.within⟩
    · exact hk depth (List.mem_append_left _ hmem)
  · rw [hpush]
    exact room.push positive v

/-- **So do all of them.** -/
theorem respond (ops : List Operation) :
    (StackMachine.respond OperandStack.serve s ops).1.RoomFor initial
      (depths ++ lengths s.contents ops) := by
  induction ops generalizing s depths with
  | nil => rwa [lengths, List.append_nil]
  | cons op rest ih =>
    have hnext : (s.serve op).1.contents = (serveList s.contents op).1 :=
      congrArg Prod.fst (s.serve_view op)
    have hkept := ih (room.serve positive op)
    rwa [List.append_assoc, List.singleton_append, ← length_contents, hnext] at hkept

end RoomFor

/-! ## Pushes -/

/-- Pushes alone make a list longer by one each. -/
theorem lengths_pushes_le_iff {vs values : List Value} {n : Nat} (h : values.length ≤ n) :
    (∀ depth ∈ lengths values (vs.map .push), depth ≤ n) ↔ values.length + vs.length ≤ n := by
  induction vs generalizing values with
  | nil => simpa [lengths] using h
  | cons v vs ih =>
    have hlength : (values ++ [v]).length = values.length + 1 := List.length_append
    show (∀ depth ∈ (values ++ [v]).length :: lengths (values ++ [v]) (vs.map .push), depth ≤ n) ↔ _
    rw [List.forall_mem_cons, hlength, List.length_cons]
    constructor
    · rintro ⟨hfirst, hrest⟩
      have hle := (ih (hlength ▸ hfirst)).1 hrest
      omega
    · intro hle
      have hfirst : (values ++ [v]).length ≤ n := by omega
      exact ⟨hlength ▸ hfirst, (ih hfirst).2 (by omega)⟩

/-- The fewest doublings of so much room that so many values fit into are a logarithm. -/
theorem ceil_logb_le_iff {count room k : Nat} (hcount : 1 ≤ count) (hroom : 1 ≤ room) :
    ⌈Real.logb 2 (count / room)⌉₊ ≤ k ↔ count ≤ room * 2 ^ k := by
  have hcount' : (0 : ℝ) < count := Nat.cast_pos.2 hcount
  have hroom' : (0 : ℝ) < room := Nat.cast_pos.2 hroom
  rw [Nat.ceil_le, Real.logb_le_iff_le_rpow one_lt_two (div_pos hcount' hroom'),
    Real.rpow_natCast, div_le_iff₀' hroom']
  exact_mod_cast Iff.rfl

/-- **Filling an empty stack** doubles its room as often as a logarithm says. -/
theorem RoomFor.growths_pushes {initial : Nat} {depths : List Nat}
    (room : s.RoomFor initial depths) (positive : 1 ≤ initial) (empty : s.contents = [])
    {vs : List Value} (many : s.capacity < vs.length) {t : OperandStack}
    (ht : (StackMachine.respond OperandStack.serve s (vs.map .push)).1 = t) :
    t.growths = s.growths + ⌈Real.logb 2 (vs.length / s.capacity)⌉₊ := by
  have hcapacity : 1 ≤ s.capacity := by
    rw [room.doubled]
    exact Nat.mul_pos positive (Nat.two_pow_pos _)
  have hroom : ∀ k, initial * 2 ^ (s.growths + k) = s.capacity * 2 ^ k := by
    intro k
    rw [room.doubled, Nat.pow_add, Nat.mul_assoc]
  have hlog : ∀ k, ⌈Real.logb 2 (vs.length / s.capacity)⌉₊ ≤ k ↔
      vs.length ≤ s.capacity * 2 ^ k := fun k => ceil_logb_le_iff (by omega) hcapacity
  have hfilled : t.RoomFor initial (depths ++ lengths [] (vs.map .push)) := by
    rw [← ht, ← empty]
    exact room.respond positive _
  -- For what was there before there is room already, so it is only the new length that counts.
  have hgrowths : ∀ k, t.growths ≤ s.growths + k ↔ vs.length ≤ s.capacity * 2 ^ k := by
    intro k
    rw [hfilled.growths_le_iff, List.forall_mem_append, ← room.growths_le_iff,
      and_iff_right (Nat.le_add_right _ _), hroom, lengths_pushes_le_iff (Nat.zero_le _),
      List.length_nil, Nat.zero_add]
  have hle : s.growths ≤ t.growths := by
    refine room.needed _ fun depth hmem => ?_
    exact hfilled.growths_le_iff.1 (Nat.le_refl _) depth (List.mem_append_left _ hmem)
  obtain ⟨more, hmore⟩ := Nat.exists_eq_add_of_le hle
  have hiff : ∀ k, more ≤ k ↔ ⌈Real.logb 2 (vs.length / s.capacity)⌉₊ ≤ k := by
    intro k
    rw [hlog, ← hgrowths, hmore, Nat.add_le_add_iff_left]
  rw [hmore, eq_of_forall_ge_iff hiff]

theorem roomFor_new (room : Nat) : (ofCapacity room).RoomFor (max room 1) [] := by
  have hsame : ofCapacity room = ofCapacity (max room 1) :=
    OperandStack.ext rfl (max_eq_left (Nat.le_max_right room 1)).symm rfl
  rw [hsame]
  exact roomFor_ofCapacity (Nat.le_max_right room 1)

/-- **A stack is a list, and its room is told by the list's high-water mark**, whatever room was
asked for and whatever is done with the stack. It holds the values that a plain list holds under the
same operations and gives the same replies, whatever its room. There is room for all of them. The
room is what there was at first, doubled as often as has been counted, and the doublings are the
fewest that make room for the greatest length there has been. So values that are pushed on an empty
stack, if they are more than it has room for, double its room as often as the logarithm of their
number by the room; and this is so in particular for a new stack. -/
theorem serve_as_list (room : Nat) {ops : List Operation} {s : OperandStack}
    {transcript : List (Operation × Reply)}
    (h : respond serve (ofCapacity room) ops = (s, transcript)) :
    respond serveList [] ops = (s.contents, transcript) ∧
      s.depth = s.contents.length ∧ s.depth ≤ s.capacity ∧
      s.capacity = max room 1 * 2 ^ s.growths ∧
      IsLeast { k | highWater ops ≤ max room 1 * 2 ^ k } s.growths ∧
      (∀ vs : List Value, s.contents = [] → s.capacity < vs.length →
        (respond serve s (vs.map .push)).1.growths
          = s.growths + ⌈Real.logb 2 (vs.length / s.capacity)⌉₊) ∧
      ∀ vs : List Value, 1 ≤ room → room < vs.length →
        (respond serve (ofCapacity room) (vs.map .push)).1.growths
          = ⌈Real.logb 2 (vs.length / room)⌉₊ := by
  have positive : 1 ≤ max room 1 := Nat.le_max_right room 1
  have hkept : s.RoomFor (max room 1) (lengths [] ops) := by
    have hkept := (roomFor_new room).respond positive ops
    rw [h] at hkept
    exact hkept
  have hleast : ∀ k, s.growths ≤ k ↔ highWater ops ≤ max room 1 * 2 ^ k := by
    intro k
    rw [hkept.growths_le_iff, highWater, foldr_max_le_iff]
  refine ⟨?_, (length_contents s).symm, hkept.within, hkept.doubled, ?_, ?_, ?_⟩
  · have hview := respond_view serve_view (ofCapacity room) ops
    rw [h] at hview
    exact hview.symm
  · exact ⟨(hleast _).1 (Nat.le_refl _), fun k hk => (hleast k).2 hk⟩
  · exact fun vs empty many => hkept.growths_pushes positive empty many rfl
  · intro vs hroom many
    have hcapacity : (ofCapacity room).capacity = room := Nat.max_eq_left hroom
    have hpushes := (roomFor_new room).growths_pushes positive rfl (hcapacity ▸ many) rfl
    rw [hcapacity] at hpushes
    rw [hpushes]
    exact Nat.zero_add _

/-- Three values on a stack with room for two, and then an assignment and a pop that fail: there is
room for four, though there is one value left. Seven values would have taken two doublings. -/
theorem serve_as_list_three_on_two :
    ∃ (ops : List Operation) (s : OperandStack) (transcript : List (Operation × Reply)),
      ops = [.push .nil, .push .nil, .push (.bool true), .pop, .assign 9 .nil, .reset, .pop,
        .push .nil] ∧
      respond serve (ofCapacity 2) ops = (s, transcript) ∧
      respond serveList [] ops = ([.nil], transcript) ∧ highWater ops = 3 ∧
      s.capacity = max 2 1 * 2 ^ s.growths ∧ IsLeast { k | 3 ≤ max 2 1 * 2 ^ k } s.growths ∧
      s.growths = 1 ∧ ⌈Real.logb 2 ((7 : Nat) / (2 : Nat))⌉₊ = 2 := by
  have hgrowths : (respond serve (ofCapacity 2) [.push .nil, .push .nil, .push (.bool true), .pop,
      .assign 9 .nil, .reset, .pop, .push .nil]).1.growths = 1 := by decide +kernel
  have hcontents : (respond serve (ofCapacity 2) [.push .nil, .push .nil, .push (.bool true), .pop,
      .assign 9 .nil, .reset, .pop, .push .nil]).1.contents = [.nil] := by decide +kernel
  have hseven : (respond serve (ofCapacity 2) ((List.replicate 7 Value.nil).map .push)).1.growths
      = 2 := by decide +kernel
  generalize hops : respond serve (ofCapacity 2) _ = result at hgrowths hcontents
  obtain ⟨s, transcript⟩ := result
  obtain ⟨hlist, -, -, hroom, hleast, -, hlog⟩ := serve_as_list 2 hops
  have hpushes := hlog (List.replicate 7 .nil) (by decide) (by decide)
  refine ⟨_, s, transcript, rfl, hops, ?_, by decide +kernel, hroom, hleast, hgrowths, ?_⟩
  · rw [hlist]
    exact congrArg (·, transcript) hcontents
  · exact hpushes.symm.trans hseven

end OperandStack

end StackMachine

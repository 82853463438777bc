import Mathlib.Data.List.Nodup
import StackMachine.Proofs.Encoding
import StackMachine.Proofs.Service

/-!
# Building a chunk

Whatever is done to a chunk that starts empty, in whatever order, it remains a chunk that can be
relied on: every byte has a line, the pool is no larger than one byte can count, and an index that
has been handed out goes on to find the constant that it was handed out for, until everything is
thrown away (`built_by_edits`).

The indices are what needs an argument. They are cut down to one byte, and that two of them do not
fall together is due to the check of the room alone. What carries the argument is an account of the
indices handed out since the pool was last empty (`issued`). It tells the pool: the constants in it
are those of the account, in order, and the indices are their places (`IsBuilt`).
-/

namespace StackMachine

namespace Chunk

/-- **What can be done to a chunk.** -/
inductive Edit where
  /-- To append a byte that comes from a line. -/
  | write (byte : UInt8) (line : Nat)
  /-- To append the code byte of an instruction. -/
  | writeOpcode (op : Opcode) (line : Nat)
  /-- To add a constant to the pool. -/
  | addConstant (v : Value)
  /-- To add a constant and the instruction that loads it. -/
  | emitConstant (v : Value) (line : Nat)
  /-- To throw everything away. -/
  | clear

/-- The constant that an edit is to add, if it is to add one. -/
def Edit.constant? : Edit → Option Value
  | addConstant v | emitConstant v _ => some v
  | _ => none

/-- What comes of an edit. -/
inductive Receipt where
  /-- It is done, and there is nothing to say. -/
  | done
  /-- The constant has this index. -/
  | index (i : UInt8)
  /-- There was no room for the constant. -/
  | poolFull

/-- **A chunk after an edit**, and the receipt. -/
def edit (c : Chunk) : Edit → Chunk × Receipt
  | .write byte line => (c.push byte line, .done)
  | .writeOpcode op line => (c.pushOpcode op line, .done)
  | .addConstant v =>
    match c.pool? v with
    | some (i, d) => (d, .index i)
    | none => (c, .poolFull)
  | .emitConstant v line =>
    match c.pushLoad? v line with
    | some (i, d) => (d, .index i)
    | none => (c, .poolFull)
  | .clear => (.empty, .done)

/-- Keeps account of an edit: an index that is handed out is put down with its constant, and with
the pool the account is thrown away too. -/
def note (account : List (UInt8 × Value)) : Edit × Receipt → List (UInt8 × Value)
  | (.clear, _) => []
  | (e, .index i) => account ++ (e.constant?.map fun v => (i, v)).toList
  | _ => account

/-- **The indices handed out since the last clearing**, each with the constant that it was handed
out for. -/
def issued (transcript : List (Edit × Receipt)) : List (UInt8 × Value) := transcript.foldl note []

/-- **A chunk as it is built**, with the indices handed out since the last clearing. -/
structure IsBuilt (c : Chunk) (account : List (UInt8 × Value)) : Prop where
  /-- Every byte has a line. -/
  level : c.IsLevel
  /-- There is an index for every constant. -/
  room : c.constants.size ≤ maxConstants
  /-- The account is the pool, and the indices are the places in it. -/
  pooled : account = c.constants.toList.mapIdx fun i v => (UInt8.ofNat i, v)

variable {c : Chunk} {e : Edit} {v : Value}

/-! ## One edit -/

/-- **If there is room for a constant, it is added**, and its index is the number of those before
it. -/
theorem edit_of_room (asks : e.constant? = some v) (room : c.constants.size < maxConstants) :
    ∃ d : Chunk, c.edit e = (d, .index (UInt8.ofNat c.constants.size)) ∧
      d.constants = c.constants.push v ∧ (c.IsLevel → d.IsLevel) := by
  cases e with
  | addConstant w =>
    cases asks
    have hpool : c.pool? v = some (UInt8.ofNat c.constants.size, c.withConstant v) := if_pos room
    exact ⟨c.withConstant v, by rw [edit, hpool], rfl, id⟩
  | emitConstant w line =>
    cases asks
    have hload : c.pushLoad? v line = some (UInt8.ofNat c.constants.size, c.withLoad v line) :=
      pushLoad?_eq_some_iff.2 ⟨room, rfl, rfl⟩
    exact ⟨c.withLoad v line, by rw [edit, hload], rfl, fun level => level.withLoad v line⟩
  | write | writeOpcode | clear => exact nomatch asks

/-- **If there is none, nothing is changed.** -/
theorem edit_of_full (asks : e.constant? = some v) (full : maxConstants ≤ c.constants.size) :
    c.edit e = (c, .poolFull) := by
  have hpool : ∀ w, c.pool? w = none := fun w => pool?_eq_none_iff.2 full
  cases e with
  | addConstant w => rw [edit, hpool]
  | emitConstant w line => rw [edit, pushLoad?, hpool, Option.map_none]
  | write | writeOpcode | clear => exact nomatch asks

theorem isBuilt_empty : empty.IsBuilt [] := ⟨rfl, Nat.zero_le _, rfl⟩

/-- **An edit keeps the chunk in order**, and its account too. -/
theorem IsBuilt.edit {account : List (UInt8 × Value)} (h : c.IsBuilt account) (e : Edit) :
    (c.edit e).1.IsBuilt (note account (e, (c.edit e).2)) := by
  cases asks : e.constant? with
  | some v =>
    rcases Nat.lt_or_ge c.constants.size maxConstants with room | full
    · obtain ⟨d, hedit, hpool, hlevel⟩ := edit_of_room asks room
      have hnote : note account (e, .index (UInt8.ofNat c.constants.size))
          = account ++ [(UInt8.ofNat c.constants.size, v)] := by
        cases e with
        | addConstant w | emitConstant w line => cases asks; rfl
        | write | writeOpcode | clear => exact nomatch asks
      rw [hedit, hnote]
      refine ⟨hlevel h.level, ?_, ?_⟩
      · rw [hpool, Array.size_push]
        exact room
      · rw [hpool, Array.toList_push, List.mapIdx_concat, ← h.pooled, Array.length_toList]
    · have hnote : note account (e, .poolFull) = account := by
        cases e with
        | clear => exact nomatch asks
        | _ => rfl
      rw [edit_of_full asks full, hnote]
      exact h
  | none =>
    cases e with
    | write byte line => exact ⟨h.level.push byte line, h.room, h.pooled⟩
    | writeOpcode op line => exact ⟨h.level.push op.byte line, h.room, h.pooled⟩
    | clear => exact isBuilt_empty
    | addConstant | emitConstant => exact nomatch asks

/-! ## The account -/

theorem toNat_ofNat_of_lt {i : Nat} (h : i < maxConstants) : (UInt8.ofNat i).toNat = i :=
  Nat.mod_eq_of_lt h

/-- **No index has been handed out twice.** -/
theorem IsBuilt.nodup {account : List (UInt8 × Value)} (h : c.IsBuilt account) :
    (account.map Prod.fst).Nodup := by
  have hindices : account.map Prod.fst = (List.range c.constants.size).map UInt8.ofNat := by
    rw [h.pooled]
    exact List.ext_getElem (by simp) fun i _ _ => by simp
  rw [hindices]
  refine List.Nodup.map_on (fun i hi j hj hij => ?_) List.nodup_range
  have hi := Nat.lt_of_lt_of_le (List.mem_range.1 hi) h.room
  have hj := Nat.lt_of_lt_of_le (List.mem_range.1 hj) h.room
  rw [← toNat_ofNat_of_lt hi, ← toNat_ofNat_of_lt hj, hij]

/-- The pool holds what indices were handed out for, and nothing else. -/
theorem IsBuilt.values_eq {account : List (UInt8 × Value)} (h : c.IsBuilt account) :
    account.map Prod.snd = c.constants.toList := by
  rw [h.pooled]
  exact List.ext_getElem (by simp) fun i _ _ => by simp

/-- **Every index finds what it was handed out for.** -/
theorem IsBuilt.constant?_of_mem {account : List (UInt8 × Value)} (h : c.IsBuilt account)
    {i : UInt8} (hmem : (i, v) ∈ account) : c.constant? i = some v := by
  rw [h.pooled, List.mem_mapIdx] at hmem
  obtain ⟨place, hplace, heq⟩ := hmem
  obtain ⟨rfl, rfl⟩ := Prod.mk.inj heq
  have hlt : place < c.constants.size := hplace
  rw [constant?_of_toNat (toNat_ofNat_of_lt (Nat.lt_of_lt_of_le hlt h.room)),
    Array.getElem?_eq_getElem hlt]
  rfl

/-- **A chunk can be relied on, however it was built** from the empty one. Every byte of its code
has a line and there are no further lines. It holds 256 constants at most. The indices that have
been handed out since it was last cleared are all different, and each finds exactly the constant
that it was handed out for; there are no other constants. And a further constant is turned down if
there are 256 of them and only then, alone or with the instruction that loads it, and the chunk is
then left as it was. -/
theorem built_by_edits {edits : List Edit} {transcript : List (Edit × Receipt)}
    (h : respond edit empty edits = (c, transcript)) :
    c.code.size = c.lines.size ∧ c.constants.size ≤ 256 ∧
      ((issued transcript).map Prod.fst).Nodup ∧
      (∀ i v, (i, v) ∈ issued transcript → c.constant? i = some v) ∧
      (issued transcript).map Prod.snd = c.constants.toList ∧
      ∀ e v, Edit.constant? e = some v →
        ((c.edit e).2 = .poolFull ↔ c.constants.size = 256) ∧
        ((c.edit e).2 = .poolFull → (c.edit e).1 = c) ∧
        (c.constants.size ≠ 256 → ∃ i, (c.edit e).2 = .index i) := by
  have built : c.IsBuilt (issued transcript) := by
    have hkept := respond_keeps (fun _ _ e built => built.edit e) isBuilt_empty edits
    rw [h] at hkept
    exact hkept
  refine ⟨built.level.symm, built.room, built.nodup, fun i v => built.constant?_of_mem,
    built.values_eq, fun e v asks => ?_⟩
  rcases Nat.lt_or_eq_of_le built.room with room | full
  · obtain ⟨d, hedit, -⟩ := edit_of_room asks room
    rw [hedit]
    exact ⟨⟨fun hfull => (nomatch hfull), fun full => absurd full (Nat.ne_of_lt room)⟩,
      fun hfull => (nomatch hfull), fun _ => ⟨_, rfl⟩⟩
  · rw [edit_of_full asks (Nat.le_of_eq full.symm)]
    exact ⟨⟨fun _ => full, fun _ => rfl⟩, fun _ => rfl, fun few => absurd full few⟩

/-- A load, a clearing and 256 constants: the last index finds the last of these, and no further
load goes in. -/
theorem built_by_edits_full_pool :
    ∃ (edits : List Edit) (c : Chunk) (transcript : List (Edit × Receipt)),
      edits = .emitConstant .nil 7 :: .clear ::
        (List.replicate 255 (.addConstant .nil) ++ [.addConstant (.bool true)]) ∧
      respond edit empty edits = (c, transcript) ∧ c.code.size = c.lines.size ∧
      ((issued transcript).map Prod.fst).Nodup ∧ (issued transcript).length = 256 ∧
      c.constant? 255 = some (.bool true) ∧
      (c.edit (.emitConstant .nil 9)).2 = .poolFull ∧ (c.edit (.emitConstant .nil 9)).1 = c := by
  have hrun : ∀ result, respond edit empty (.emitConstant .nil 7 :: .clear ::
      (List.replicate 255 (.addConstant .nil) ++ [.addConstant (.bool true)])) = result →
      (255, .bool true) ∈ issued result.2 ∧ (issued result.2).length = 256 ∧
        result.1.constants.size = 256 := by
    rintro _ rfl
    decide +kernel
  generalize hedits : respond edit empty _ = result at hrun
  obtain ⟨hlast, hcount, hfull⟩ := hrun result rfl
  obtain ⟨c, transcript⟩ := result
  obtain ⟨hlevel, -, hnodup, hfinds, -, hadds⟩ := built_by_edits hedits
  obtain ⟨hiff, hsame, -⟩ := hadds (.emitConstant .nil 9) .nil rfl
  have hturnedDown := hiff.2 hfull
  exact ⟨_, c, transcript, rfl, hedits, hlevel, hnodup, hcount, hfinds _ _ hlast, hturnedDown,
    hsame hturnedDown⟩

end Chunk

end StackMachine

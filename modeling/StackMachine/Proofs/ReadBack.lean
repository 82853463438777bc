import Mathlib
import StackMachine.Proofs.Composition
import StackMachine.Proofs.NumberText
import StackMachine.Proofs.Simulation
import StackMachine.Proofs.WriteBack

/-!
# A number that is shown can be read back

The text of a finite number is a literal. The number that it denotes need not be the one that was
shown, since showing and reading both round, but it is shown as the same text. So what a program has
printed can stand in another program, and this one prints it again
(`Value.text_number_read_back`).

That the two roundings do not drive each other away needs no look at how dense the doubles are
around the number. The double that is read is the nearest one to what is shown, so it is no
further away from it than the number was (`Binary64.IsNearestPattern.le`). And what was rounded to
a multiple of a millionth could as well have been anything that is no further away
(`IsNearestMultiple.of_le`): halfway between two multiples the even one is taken, on whichever side
of it the double has come to lie (`Binary64.millionths_nearestPattern`).
-/

namespace StackMachine

namespace Decimal

variable {places n : ℕ} {cs : List Char} {negative : Bool}

/-- **A decimal written in full is a numeral.** -/
theorem Shows.writes (h : Shows places cs negative n) :
    Numeral.Writes cs ⟨negative, n, -places⟩ := by
  cases h with
  | of negative filled digits brief further counted =>
    have signed : Numeral.WritesSign (if negative then ['-'] else []) negative := by
      cases negative with
      | false => exact .absent
      | true => exact .minus
    have hwrites := Numeral.Writes.of signed (.pointed filled digits further) .absent
    rwa [List.append_nil, zero_sub, counted] at hwrites

end Decimal

namespace Binary64

variable {q : ℚ} {p k : ℕ}

/-- Infinity is more than one above every finite number: the doubles just below it are further
apart than that. -/
theorem unitsOf_add_unitsPerOne_lt (hk : k < infinityPattern) :
    unitsOf k + unitsPerOne < unitsOf infinityPattern := by
  have hpos : 0 < binadeSize := by decide
  have hle : unitsOf k ≤ unitsOf (infinityPattern - 1) :=
    unitsOf_strictMono.monotone (Nat.le_sub_one_of_lt hk)
  have hlt : unitsPerOne < 2 ^ 2045 := by
    rw [unitsPerOne_eq]
    gcongr <;> decide
  rw [unitsOf_pred_infinityPattern] at hle
  rw [unitsOf_infinityPattern]
  generalize 2 ^ 2045 = spacing at *
  calc unitsOf k + unitsPerOne < (2 * binadeSize - 1) * spacing + spacing := by omega
    _ = 2 * binadeSize * spacing := by rw [← Nat.succ_mul, Nat.succ_eq_add_one,
        Nat.sub_add_cancel (by omega)]

/-- **What is within one of a finite number is not rounded to infinity.** -/
theorem IsNearestPattern.lt_infinityPattern (h : IsNearestPattern q p) (hk : k < infinityPattern)
    (hclose : 2 * |unitsOf k - q| ≤ unitsPerOne) : p < infinityPattern := by
  refine lt_of_le_of_ne h.1 ?_
  rintro rfl
  have hgap : (unitsOf k : ℚ) + unitsPerOne < unitsOf infinityPattern := by
    exact_mod_cast unitsOf_add_unitsPerOne_lt hk
  have hinfinity := (le_abs_self _).trans (h.le hk.le)
  have hnumber := neg_abs_le (unitsOf k - q)
  linarith

/-- **A magnitude that is read is shown as it was written.** The pattern nearest to so many
millionths as a finite number is shown as is finite, and shown as as many. -/
theorem millionths_nearestPattern (hk : k < infinityPattern) :
    nearestPattern (millionths k * unitsPerOne) (10 ^ 6) < infinityPattern ∧
      millionths (nearestPattern (millionths k * unitsPerOne) (10 ^ 6)) = millionths k := by
  have hone : (0 : ℚ) < unitsPerOne := Nat.cast_pos.2 unitsPerOne_pos
  have hshown := isNearestMultiple_millionths k
  have hread := isNearestPattern_nearestPattern (millionths k * unitsPerOne)
    (show 0 < 10 ^ 6 by decide)
  generalize nearestPattern (millionths k * unitsPerOne) (10 ^ 6) = p at hread ⊢
  generalize millionths k = n at hshown hread ⊢
  have hquantity : ((n * unitsPerOne : ℕ) : ℚ) / (10 ^ 6 : ℕ)
      = (n : ℤ) * (1 / 10 ^ 6) * unitsPerOne := by
    push_cast
    ring
  rw [hquantity] at hread
  -- A distance in units is the distance between the numbers, scaled.
  have hscale : ∀ j : ℕ, |(unitsOf j : ℚ) - (n : ℤ) * (1 / 10 ^ 6) * unitsPerOne|
      = |(n : ℤ) * (1 / 10 ^ 6) - (unitsOf j : ℚ) / unitsPerOne| * (unitsPerOne : ℚ) := fun j => by
    have hunits : (unitsOf j : ℚ) = unitsOf j / unitsPerOne * unitsPerOne :=
      (div_mul_cancel₀ _ hone.ne').symm
    conv_lhs => rw [hunits]
    rw [← sub_mul, abs_mul, abs_of_pos hone, abs_sub_comm]
  constructor
  · have hhalf := ((isNearestMultiple_iff (by positivity)).1 hshown).1
    refine hread.lt_infinityPattern hk ?_
    rw [hscale]
    have hshort := mul_le_mul_of_nonneg_right hhalf hone.le
    linarith
  · -- What was read is no further from what is shown than the number was.
    have hcloser := hread.le hk.le
    rw [hscale, hscale] at hcloser
    have hback := hshown.of_le (by positivity) (le_of_mul_le_mul_right hcloser hone)
    exact_mod_cast (isNearestMultiple_millionths p).unique hback (by positivity)

end Binary64

/-- **A decimal with six places is read as the double nearest to it.** -/
theorem Numeral.toBinary64_millionths (negative : Bool) (n : ℕ) :
    Numeral.toBinary64 ⟨negative, n, -(6 : ℕ)⟩ = Binary64.ofPattern negative
      (Binary64.nearestPattern (n * Binary64.unitsPerOne) (10 ^ 6)) := by
  have hexponent : -((6 : ℕ) : ℤ) = Int.negSucc 5 := rfl
  rw [hexponent, toBinary64, nearestPattern, if_neg (by omega), Nat.pow_eq]

/-! ## The program that hands a literal back -/

/-- **The program that hands a literal back.** -/
def loadAndReturn (word : String) : String := "CONSTANT " ++ word ++ "\nRET"

namespace Source

variable {word : String}

/-- What is on its two lines. -/
def loadAndReturnLines (word : String) : List Line :=
  [⟨1, Opcode.constant.mnemonic, [word]⟩, ⟨2, Opcode.ret.mnemonic, []⟩]

/-- The name of an instruction is a word. -/
theorem isWord_mnemonic (op : Opcode) : IsWord op.mnemonic := by
  have hall : op.mnemonic.toList.all (fun c => !Text.isBlank c && c != commentMark) = true := by
    cases op <;> decide
  refine ⟨by cases op <;> decide, fun c hc => ?_⟩
  have hc := List.all_eq_true.1 hall c hc
  rwa [Bool.and_eq_true, Bool.not_eq_true', bne_iff_ne] at hc

/-- What can be part of a number can be part of a word. -/
theorem not_isBlank_of_isPart {c : Char} (h : Numeral.isPart c = true) :
    Text.isBlank c = false ∧ c ≠ commentMark := by
  simp only [Numeral.isPart, Bool.or_eq_true, beq_iff_eq] at h
  rcases h with ((((hdigit | rfl) | rfl) | rfl) | rfl) | rfl
  · have hrange : 48 ≤ c.toNat ∧ c.toNat ≤ 57 := by
      simpa [Char.isDigit, UInt32.le_iff_toNat_le] using hdigit
    constructor
    · simp only [Text.isBlank, Text.blankRanges, List.any_cons, List.any_nil, Bool.or_false,
        Bool.or_eq_false_iff, Bool.and_eq_false_imp, decide_eq_true_eq, decide_eq_false_iff_not]
      omega
    · rintro rfl
      exact absurd hdigit (by decide)
  all_goals decide

/-- A numeral is a word: there is no blank in it, and nothing that starts a comment. -/
theorem isWord_of_writes {n : Numeral} (written : Numeral.Writes word.toList n) : IsWord word := by
  obtain ⟨hall, hany⟩ := Bool.and_eq_true_iff.1 written.looks
  refine ⟨?_, fun c hc => not_isBlank_of_isPart (List.all_eq_true.1 hall c hc)⟩
  rintro rfl
  exact absurd hany (by decide)

/-- **The program has two instructions**, if its literal is a word. -/
theorem lines_loadAndReturn (hword : IsWord word) :
    lines (loadAndReturn word) = loadAndReturnLines word := by
  have horder : IsInOrder 1 2 (loadAndReturnLines word) :=
    ⟨by simp [loadAndReturnLines], by simp [loadAndReturnLines],
      by simp [loadAndReturnLines, Line.words, isWord_mnemonic, hword]⟩
  have htexts : (List.range' 1 2).map (textAt (loadAndReturnLines word))
      = [" ".intercalate ["CONSTANT", word], "RET"] := rfl
  have hwrite : write 2 (loadAndReturnLines word) = loadAndReturn word := by
    rw [write, htexts, loadAndReturn]
    exact String.toList_inj.1 (by simp)
  rw [← hwrite, horder.lines_write]

end Source

section Program

variable {word : String} {v : Value} {x : Binary64}

theorem ret_ne_constant : Opcode.ret ≠ .constant := by decide

/-- **The program is assembled** if its word is a literal. -/
theorem exists_assemble_loadAndReturn (hword : Source.IsWord word)
    (literal : Value.ofLiteral? word = some v) : ∃ c, assemble (loadAndReturn word) = .ok c := by
  have hproper : Proper 0 (Source.loadAndReturnLines word) :=
    .step (.load (Opcode.ofMnemonic?_mnemonic .constant) rfl literal) le_rfl
      (.step (.plain (Opcode.ofMnemonic?_mnemonic .ret) ret_ne_constant rfl) le_rfl .done)
  have hroom : (Source.loadAndReturnLines word).countP Source.Line.isLoad ≤ Chunk.maxConstants :=
    List.countP_le_length.trans (show 2 ≤ Chunk.maxConstants by decide)
  obtain ⟨a, ha⟩ := Assembly.exists_extendAll (a := {}) hproper ((Nat.zero_add _).trans_le hroom)
  rw [← Source.lines_loadAndReturn hword] at ha
  exact ⟨a.chunk, assemble_eq_ok_iff.2 ⟨a, ha, rfl⟩⟩

/-- **The program means its literal** if that is a number. -/
theorem meaning_loadAndReturn (hword : Source.IsWord word)
    (literal : Value.ofLiteral? word = some (.number x)) (values : List Value) :
    meaning (loadAndReturn word) values = ⟨.returned (.number x), values⟩ := by
  have hload : Source.Line.react ⟨1, Opcode.constant.mnemonic, [word]⟩ values
      = Reaction.pushLiteral (some (.number x)) values :=
    Source.Line.react_of_load (Opcode.ofMnemonic?_mnemonic .constant) rfl literal values
  have hreturn : Source.Line.react ⟨2, Opcode.ret.mnemonic, []⟩ (.number x :: values)
      = reaction Opcode.ret.mnemonic (.number x :: values) :=
    Source.Line.react_of_plain (Opcode.ofMnemonic?_mnemonic .ret) ret_ne_constant rfl _
  rw [meaning, Source.lines_loadAndReturn hword, Source.loadAndReturnLines,
    evaluate_of_go (hload.trans rfl), evaluate_of_finish (hreturn.trans rfl)]

/-- **A machine that runs the program hands the number back**, and prints it, if nothing gets in its
way. -/
theorem Machine.IsUnhindered.interpret_loadAndReturn {m : Machine} (hm : m.IsUnhindered)
    (hword : Source.IsWord word) (literal : Value.ofLiteral? word = some (.number x)) :
    (m.interpret assembler (loadAndReturn word)).2 = .value (.number x) ∧
      (m.interpret assembler (loadAndReturn word)).1.out.written
        = m.out.written ++ ((Value.number x).text ++ "\n").toUTF8 := by
  obtain ⟨c, hc⟩ := exists_assemble_loadAndReturn hword literal
  obtain ⟨houtcome, -, hout, -⟩ := hm.execute hc (meaning_loadAndReturn hword literal _)
  rw [Machine.interpret_assembler hc, hout]
  exact ⟨(Option.some.inj houtcome).symm, rfl⟩

end Program

namespace Value

variable {x : Binary64}

/-- The text of a finite number is a numeral. -/
theorem writes_text (h : x.isFinite = true) :
    Numeral.Writes (number x).text.toList
      ⟨x.isNegative, Binary64.millionths x.pattern, -(6 : ℕ)⟩ := by
  rw [text_number_of_isFinite h]
  exact (Decimal.shows_withPoint (by decide) _ _).writes

/-- **What a finite number is shown as denotes a finite number that is shown the same.** -/
theorem exists_ofLiteral?_text (h : x.isFinite = true) :
    ∃ y : Binary64, y.isFinite = true ∧ ofLiteral? (number x).text = some (.number y) ∧
      (number y).text = (number x).text := by
  have hk : x.pattern < Binary64.infinityPattern := of_decide_eq_true h
  obtain ⟨hfinite, hshown⟩ := Binary64.millionths_nearestPattern hk
  have hread := ofLiteral?_of_writes (writes_text h)
  rw [Numeral.toBinary64_millionths] at hread
  generalize Binary64.nearestPattern (Binary64.millionths x.pattern * Binary64.unitsPerOne) (10 ^ 6)
    = p at *
  have hp : p < Binary64.signWeight := hfinite.trans (by decide)
  have hy : (Binary64.ofPattern x.isNegative p).isFinite = true := by
    rw [Binary64.isFinite, Binary64.pattern_ofPattern _ hp]
    exact decide_eq_true hfinite
  refine ⟨_, hy, hread, ?_⟩
  rw [text_number_of_isFinite hy, text_number_of_isFinite h, Binary64.isNegative_ofPattern _ hp,
    Binary64.pattern_ofPattern _ hp, hshown]

/-- **A number that is shown can be read back.** The text of a finite number is a literal. It
denotes a finite number with the same text; so the program that loads it and hands it back prints
it. -/
theorem text_number_read_back (h : x.isFinite = true) :
    ∃ y : Binary64, y.isFinite = true ∧ ofLiteral? (number x).text = some (.number y) ∧
      (number y).text = (number x).text ∧
      ∀ m : Machine, m.IsUnhindered →
        (m.interpret assembler (loadAndReturn (number x).text)).2 = .value (.number y) ∧
          (m.interpret assembler (loadAndReturn (number x).text)).1.out.written
            = m.out.written ++ ((number x).text ++ "\n").toUTF8 := by
  obtain ⟨y, hy, hread, htext⟩ := exists_ofLiteral?_text h
  refine ⟨y, hy, hread, htext, fun m hm => ?_⟩
  rw [← htext] at hread ⊢
  exact hm.interpret_loadAndReturn (Source.isWord_of_writes (writes_text hy)) hread

/-- 1/128 is halfway between two texts, and the one that it has denotes another number. -/
theorem text_number_read_back_halfway :
    (Binary64.ofPattern false 4575657221408423936).isFinite = true ∧
      (number (.ofPattern false 4575657221408423936)).text = "0.007812" ∧
      ofLiteral? "0.007812" = some (.number (.ofPattern false 4575656644947671633)) ∧
      (number (.ofPattern false 4575656644947671633)).text = "0.007812" ∧
      ∃ m : Machine, m.IsUnhindered ∧
        (m.interpret assembler "CONSTANT 0.007812\nRET").2
          = .value (.number (.ofPattern false 4575656644947671633)) ∧
        (m.interpret assembler "CONSTANT 0.007812\nRET").1.out.written
          = "0.007812\n".toUTF8 := by
  have hfinite : (Binary64.ofPattern false 4575657221408423936).isFinite = true := by
    decide +kernel
  have htext : (number (.ofPattern false 4575657221408423936)).text = "0.007812" := by
    decide +kernel
  have hread : ofLiteral? "0.007812" = some (.number (.ofPattern false 4575656644947671633)) := by
    decide +kernel
  have hm : Machine.IsUnhindered ⟨{}, OperandStack.ofCapacity 1, {}, {}⟩ := ⟨rfl, rfl, rfl, rfl⟩
  obtain ⟨y, -, hy, hsame, hrun⟩ := text_number_read_back hfinite
  rw [htext] at hy hsame hrun
  obtain rfl : Binary64.ofPattern false 4575656644947671633 = y := by
    rw [hread] at hy
    exact number.inj (Option.some.inj hy)
  obtain ⟨houtcome, hwritten⟩ := hrun _ hm
  rw [ByteArray.empty_append] at hwritten
  exact ⟨hfinite, htext, hread, hsame, _, hm, houtcome, hwritten⟩

end Value

end StackMachine

import Mathlib
import StackMachine.Proofs.Nearest
import StackMachine.Proofs.Numerals
import StackMachine.Value

/-!
# The text of a number is exact

A finite double stands for a rational number, which the fields of its 64 bits say
(`Binary64.toRat`). Its text is a decimal with six places (`Decimal.Shows`): a minus sign if the
sign bit is set, the whole digits without superfluous zeros, a point, and six more digits. What this
decimal denotes is the multiple of the last place that is nearest to the number, the even
multiple if two are equally near (`Value.text_number_exact`). This holds of every exponent: the
greatest doubles are written in full, with over three hundred digits, and the least ones come to
zero and keep their sign.
-/

namespace StackMachine

namespace Decimal

/-- **A decimal written in full**: with a minus sign or without one, with as many places behind the
point as asked and no superfluous zeros in front of it. The digits without the point are the number
that is shown. -/
inductive Shows (places : ℕ) : List Char → Bool → ℕ → Prop where
  /-- Sign, whole digits, point and further digits. -/
  | of {whole fraction : List Char} (negative : Bool) (filled : whole ≠ [])
      (digits : Numeral.AreDigits whole) (brief : whole.head? = some '0' → whole = ['0'])
      (further : Numeral.AreDigits fraction) (counted : fraction.length = places) :
      Shows places ((if negative then ['-'] else []) ++ (whole ++ '.' :: fraction)) negative
        (value (whole ++ fraction))

/-! ## Digits -/

/-- Only zero is written with a zero in front. -/
theorem eq_zero_of_head?_digits {n : ℕ} (h : (digits n).head? = some '0') : n = 0 := by
  induction n using Nat.strong_induction_on with
  | _ n ih =>
    unfold digits at h ih
    rw [Nat.toDigits_eq_if (by decide)] at h
    split at h
    · rename_i hlt
      interval_cases n <;> simp_all
    · rename_i hge
      rw [List.head?_append_of_ne_nil _ Nat.toDigits_ne_nil] at h
      have := ih (n / 10) (by omega) h
      omega

/-- Zeros in front of digits make no difference to what they are as a number. -/
theorem value_append (front back : List Char) :
    value (front ++ back) = 10 ^ back.length * value front + value back := by
  rw [value, Nat.ofDigitChars_append, Nat.ofDigitChars_eq_ofDigitChars_zero]
  rfl

/-- A column of digits has the width asked for if the number is not too long for it. -/
theorem length_column_of_lt {width n : ℕ} (hn : n < 10 ^ width) (hwidth : 0 < width) :
    (column '0' width n).toList.length = width := by
  rw [length_column]
  exact max_eq_left ((Nat.length_toDigits_le_iff (by decide) hwidth).2 hn)

/-- So many last places as a decimal: the digits with a point among them. -/
def withPoint (places scaled : ℕ) : String :=
  text (scaled / 10 ^ places) ++ "." ++ column '0' places (scaled % 10 ^ places)

/-- A quantity with a fixed number of places is its rounded number of last places with a point. -/
theorem fixed_eq_withPoint (places num den : ℕ) :
    fixed places num den = withPoint places (roundDiv (num * 10 ^ places) den) := rfl

/-- **Digits with a point show how many last places there are.** -/
theorem shows_withPoint {places : ℕ} (hplaces : 0 < places) (negative : Bool) (scaled : ℕ) :
    Shows places ((if negative then "-" else "") ++ withPoint places scaled).toList negative
      scaled := by
  have hcounted := length_column_of_lt (Nat.mod_lt scaled (Nat.pow_pos (by decide))) hplaces
  have hbrief : (digits (scaled / 10 ^ places)).head? = some '0' →
      digits (scaled / 10 ^ places) = ['0'] := fun hzero => by
    rw [eq_zero_of_head?_digits hzero]
    rfl
  have hfilled : digits (scaled / 10 ^ places) ≠ [] := Nat.toDigits_ne_nil
  have hshows := Shows.of negative hfilled (areDigits_digits _) hbrief (areDigits_column _ _)
    hcounted
  have hvalue : value (digits (scaled / 10 ^ places)
      ++ (column '0' places (scaled % 10 ^ places)).toList) = scaled := by
    rw [value_append, hcounted, value_column, value_digits, Nat.div_add_mod]
  have hlist : ((if negative then "-" else "") ++ withPoint places scaled).toList
      = (if negative then ['-'] else []) ++ (digits (scaled / 10 ^ places)
        ++ '.' :: (column '0' places (scaled % 10 ^ places)).toList) := by
    rw [withPoint, String.toList_append, String.toList_append, String.toList_append, text,
      String.toList_ofList, List.append_assoc]
    cases negative <;> rfl
  rwa [hvalue, ← hlist] at hshows

end Decimal

namespace Binary64

/-! ## The number behind the bits -/

/-- **The number that a finite double stands for**, as its sign bit, its exponent field and its
fraction say. -/
def toRat (x : Binary64) : ℚ :=
  let field : ℕ := x.bits.toNat / 2 ^ 52 % 2 ^ 11
  let fraction : ℕ := x.bits.toNat % 2 ^ 52
  let magnitude : ℚ :=
    if field = 0 then fraction * 2 ^ (-1074 : ℤ)
    -- Above the subnormal numbers there is a leading one in front of the fraction.
    else (2 ^ 52 + fraction) * 2 ^ ((field : ℤ) - 1075)
  if x.bits.toNat < 2 ^ 63 then magnitude else -magnitude

theorem unitsPerOne_eq : unitsPerOne = 2 ^ 1074 := by decide +kernel

theorem unitsPerOne_pos : 0 < unitsPerOne := by
  rw [unitsPerOne_eq]
  positivity

theorem two_zpow_sub (e n : ℕ) : (2 : ℚ) ^ ((e : ℤ) - n) = 2 ^ e / 2 ^ n := by
  rw [zpow_sub₀ two_ne_zero, zpow_natCast, zpow_natCast]

/-- Exponent field and fraction say of a magnitude what its pattern does. -/
theorem magnitude_eq (p : ℕ) :
    (if p / binadeSize = 0 then ((p % binadeSize : ℕ) : ℚ) * 2 ^ (-1074 : ℤ)
      else (2 ^ 52 + (p % binadeSize : ℕ)) * 2 ^ (((p / binadeSize : ℕ) : ℤ) - 1075))
        = unitsOf p / unitsPerOne := by
  have hunits : (unitsPerOne : ℚ) = 2 ^ 1074 := by
    rw [unitsPerOne_eq, Nat.cast_pow, Nat.cast_ofNat]
  rw [hunits]
  rcases lt_or_ge p binadeSize with hlt | hge
  · have hscale : (2 : ℚ) ^ (-1074 : ℤ) = 1 / 2 ^ 1074 := by
      rw [one_div, zpow_neg, zpow_ofNat]
    rw [if_pos (Nat.div_eq_of_lt hlt), Nat.mod_eq_of_lt hlt, unitsOf, if_pos hlt, hscale,
      mul_one_div]
  · obtain ⟨e, he⟩ : ∃ e, p / binadeSize = e + 1 :=
      Nat.exists_eq_add_of_le' ((Nat.le_div_iff_mul_le (by decide)).2 (by omega))
    have hsize : (binadeSize : ℚ) = 2 ^ 52 := by norm_num [binadeSize]
    have hscale : (2 : ℚ) ^ (((e + 1 : ℕ) : ℤ) - 1075) = 2 ^ e / 2 ^ 1074 := by
      rw [← two_zpow_sub]
      congr 1
      push_cast
      ring
    rw [unitsOf, if_neg (Nat.not_lt.2 hge), he, if_neg (Nat.succ_ne_zero e), hscale,
      Nat.add_sub_cancel, Nat.pow_eq, Nat.cast_mul, Nat.cast_add, Nat.cast_pow, Nat.cast_ofNat,
      hsize, mul_div_assoc]

/-- **The magnitude counts units**: the fields say the same as the pattern does. -/
theorem toRat_eq (x : Binary64) :
    x.toRat = (if x.isNegative then -1 else 1) * (x.units / unitsPerOne) := by
  have hfield : x.bits.toNat / 2 ^ 52 % 2 ^ 11 = x.pattern / binadeSize := by
    unfold pattern signWeight binadeSize
    omega
  have hfraction : x.bits.toNat % 2 ^ 52 = x.pattern % binadeSize := by
    unfold pattern signWeight binadeSize
    omega
  unfold toRat
  dsimp only
  rw [hfield, hfraction, magnitude_eq, ← units, isNegative]
  have hsign : signWeight = 2 ^ 63 := by decide
  rw [hsign]
  rcases lt_or_ge x.bits.toNat (2 ^ 63) with hlt | hge
  · rw [if_pos hlt, decide_eq_false (Nat.not_le.2 hlt), if_neg Bool.false_ne_true, one_mul]
  · rw [if_neg (Nat.not_lt.2 hge), decide_eq_true hge, if_pos rfl, neg_one_mul]

/-- How many millionths a magnitude is shown as. -/
def millionths (p : ℕ) : ℕ := roundDiv (unitsOf p * 10 ^ 6) unitsPerOne

/-- **The number of millionths is the nearest one.** -/
theorem isNearestMultiple_millionths (p : ℕ) :
    IsNearestMultiple (1 / 10 ^ 6) (unitsOf p / unitsPerOne) (millionths p) := by
  have hrounded : IsNearestMultiple (1 / 10 ^ 6)
      ((unitsOf p * 10 ^ 6 : ℕ) / unitsPerOne * (1 / 10 ^ 6)) (millionths p) :=
    isNearestMultiple_roundDiv (by positivity) (unitsOf p * 10 ^ 6) unitsPerOne_pos
  rwa [Nat.cast_mul, Nat.cast_pow, Nat.cast_ofNat, mul_one_div, div_right_comm,
    mul_div_cancel_right₀ _ (by positivity)] at hrounded

end Binary64

namespace Value

variable {x : Binary64}

/-- The text of a finite number is a sign and a number of millionths. -/
theorem text_number_of_isFinite (h : x.isFinite = true) :
    (number x).text = (if x.isNegative then "-" else "")
      ++ Decimal.withPoint 6 (Binary64.millionths x.pattern) := by
  rw [Binary64.isFinite_eq, Bool.and_eq_true, Bool.not_eq_true', Bool.not_eq_true'] at h
  rw [text, numberText, h.1, if_neg Bool.false_ne_true]
  dsimp only
  rw [h.2, if_neg Bool.false_ne_true, Decimal.fixed_eq_withPoint]
  rfl

/-- **The text of a finite number is exact**: it is a decimal with six places, with a minus sign
exactly if the sign bit is set, and no multiple of a millionth is nearer to the number; of two that
are equally near, the even one is shown. -/
theorem text_number_exact (h : x.isFinite = true) :
    ∃ n : ℕ, Decimal.Shows 6 (number x).text.toList x.isNegative n ∧
      IsNearestMultiple (1 / 10 ^ 6) x.toRat ((if x.isNegative then -1 else 1) * n) := by
  have hnear : IsNearestMultiple (1 / 10 ^ 6) (x.units / Binary64.unitsPerOne)
      (Binary64.millionths x.pattern) := Binary64.isNearestMultiple_millionths x.pattern
  refine ⟨Binary64.millionths x.pattern, ?_, ?_⟩
  · rw [text_number_of_isFinite h]
    exact Decimal.shows_withPoint (by decide) x.isNegative _
  · rw [Binary64.toRat_eq]
    cases x.isNegative with
    | false => rwa [if_neg Bool.false_ne_true, if_neg Bool.false_ne_true, one_mul, one_mul]
    | true =>
      rw [if_pos rfl, if_pos rfl, neg_one_mul, neg_one_mul]
      exact hnear.neg

/-- A negative number halfway between two multiples, -1/128: the even one is shown. -/
theorem text_number_exact_halfway :
    (Binary64.ofPattern true 4575657221408423936).isFinite = true ∧
      (Binary64.ofPattern true 4575657221408423936).toRat = -1 / 128 ∧
      (number (.ofPattern true 4575657221408423936)).text = "-0.007812" ∧
      ∃ n : ℕ, Decimal.Shows 6 "-0.007812".toList true n ∧
        IsNearestMultiple (1 / 10 ^ 6) (-1 / 128) (-n) := by
  have hfinite : (Binary64.ofPattern true 4575657221408423936).isFinite = true := by
    decide +kernel
  have hnegative : (Binary64.ofPattern true 4575657221408423936).isNegative = true := by
    decide +kernel
  have hrat : (Binary64.ofPattern true 4575657221408423936).toRat = -1 / 128 := by
    have hbits : (Binary64.ofPattern true 4575657221408423936).bits.toNat
        = 13799029258263199744 := by decide +kernel
    rw [Binary64.toRat, hbits]
    norm_num
  have htext : (number (.ofPattern true 4575657221408423936)).text = "-0.007812" := by
    decide +kernel
  obtain ⟨n, hshows, hnear⟩ := text_number_exact hfinite
  rw [htext, hnegative] at hshows
  rw [hrat, hnegative, if_pos rfl, neg_one_mul] at hnear
  exact ⟨hfinite, hrat, htext, n, hshows, hnear⟩

end Value

end StackMachine

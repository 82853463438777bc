import Mathlib
import StackMachine.Proofs.NumberText

/-!
# A literal denotes the nearest double

A literal may have any number of digits and any exponent, and writes a rational number exactly
(`Numeral.toRat`). The value it is read as is the double nearest to that number, and of two that are
equally near the one whose significand is even (`Binary64.IsNearest`). This is said of doubles as
their bits describe them, and compares with all finite doubles, of either sign and however small.
What lies beyond the last of them by half a step or more is read as infinity, and what is half a step
from zero or less as zero, with the sign that was written (`Value.ofLiteral?_rounds`).

The reader looks at no more of an exponent than it has to. Some literals it need not compute at all,
as the size of their exponent puts them beyond everything or next to zero; that the answer is then
still that of the nearest pattern is shown first (`Numeral.isNearestPattern_nearestPattern`). What
is nearest among the patterns is nearest among the doubles, because a double of the other sign is
further away than zero (`Binary64.IsNearestPattern.isNearest`).
-/

namespace StackMachine

namespace Binary64

variable {q r : ℚ} {p k : ℕ} {negative : Bool} {x y : Binary64}

/-! ## Between two patterns -/

theorem unitsOf_lt_succ (k : ℕ) : (unitsOf k : ℚ) < unitsOf (k + 1) :=
  Nat.cast_lt.2 (unitsOf_strictMono (Nat.lt_succ_self k))

theorem unitsOf_le_cast (h : p ≤ k) : (unitsOf p : ℚ) ≤ unitsOf k :=
  Nat.cast_le.2 (unitsOf_strictMono.monotone h)

theorem eq_of_unitsOf_cast (h : (unitsOf p : ℚ) = unitsOf k) : p = k :=
  unitsOf_strictMono.injective (Nat.cast_injective h)

/-- **Beyond the middle of a step a quantity is rounded up**, and so it is right in the middle if
the lower pattern is odd. -/
theorem IsNearestPattern.lt_of_middle (h : IsNearestPattern q p) (hk : k < infinityPattern)
    (hside : (unitsOf k + unitsOf (k + 1) : ℚ) < 2 * q ∨
      (unitsOf k + unitsOf (k + 1) : ℚ) = 2 * q ∧ Odd k) : k < p := by
  by_contra hge
  have hdown : (unitsOf p : ℚ) ≤ unitsOf k := unitsOf_le_cast (Nat.le_of_not_lt hge)
  have hstep := unitsOf_lt_succ k
  have hmiddle : (unitsOf k + unitsOf (k + 1) : ℚ) ≤ 2 * q := hside.elim le_of_lt fun h => h.1.le
  have hself := neg_abs_le (unitsOf p - q)
  rcases h.2 (k + 1) hk (by omega) with hcloser | ⟨hequal, heven⟩
  · have habove : |unitsOf (k + 1) - q| ≤ q - unitsOf k := abs_le.2 ⟨by linarith, by linarith⟩
    linarith
  · rcases hside with hlt | ⟨heq, hodd⟩
    · rcases abs_cases ((unitsOf (k + 1) : ℚ) - q) with habs | habs <;> linarith
    · have habove : |unitsOf (k + 1) - q| ≤ q - unitsOf k := abs_le.2 ⟨by linarith, by linarith⟩
      obtain rfl : p = k := eq_of_unitsOf_cast (by linarith)
      exact Nat.not_odd_iff_even.2 heven hodd

/-- **Before the middle it is rounded down**, and so it is right there if the lower pattern is
even. -/
theorem IsNearestPattern.le_of_middle (h : IsNearestPattern q p) (hk : k < infinityPattern)
    (hside : 2 * q < (unitsOf k + unitsOf (k + 1) : ℚ) ∨
      2 * q = (unitsOf k + unitsOf (k + 1) : ℚ) ∧ Even k) : p ≤ k := by
  by_contra hlt
  have hup : (unitsOf (k + 1) : ℚ) ≤ unitsOf p := unitsOf_le_cast (Nat.lt_of_not_le hlt)
  have hstep := unitsOf_lt_succ k
  have hmiddle : 2 * q ≤ (unitsOf k + unitsOf (k + 1) : ℚ) := hside.elim le_of_lt fun h => h.1.le
  have hself := le_abs_self (unitsOf p - q)
  rcases h.2 k hk.le (by omega) with hcloser | ⟨hequal, heven⟩
  · have hbelow : |unitsOf k - q| ≤ unitsOf (k + 1) - q := abs_le.2 ⟨by linarith, by linarith⟩
    linarith
  · rcases hside with hgt | ⟨heq, heven'⟩
    · rcases abs_cases ((unitsOf k : ℚ) - q) with habs | habs <;> linarith
    · have hbelow : |unitsOf k - q| ≤ unitsOf (k + 1) - q := abs_le.2 ⟨by linarith, by linarith⟩
      obtain rfl : p = k + 1 := eq_of_unitsOf_cast (by linarith)
      exact Nat.even_add_one.1 heven heven'

/-- A quantity is rounded to infinity from half a step beyond the last finite double on. -/
theorem IsNearestPattern.eq_infinityPattern_iff (h : IsNearestPattern q p) :
    p = infinityPattern ↔ ((2 ^ 1024 - 2 ^ 970) * 2 ^ 1074 : ℚ) ≤ q := by
  have hlast : infinityPattern - 1 < infinityPattern := by decide
  have hnext : infinityPattern - 1 + 1 = infinityPattern := by decide
  have hodd : Odd (infinityPattern - 1) := by decide
  have hsize : (binadeSize : ℚ) = 2 ^ 52 := by norm_num [binadeSize]
  have hmiddle : (unitsOf (infinityPattern - 1) + unitsOf (infinityPattern - 1 + 1) : ℚ)
      = 2 * ((2 ^ 1024 - 2 ^ 970) * 2 ^ 1074) := by
    rw [hnext, unitsOf_infinityPattern, unitsOf_pred_infinityPattern, Nat.cast_mul,
      Nat.cast_sub (by decide)]
    simp only [Nat.cast_mul, Nat.cast_pow, Nat.cast_ofNat, Nat.cast_one]
    have hlarge : (2 : ℚ) ^ 1024 = 2 ^ 54 * 2 ^ 970 := pow_add 2 54 970
    have hspacing : (2 : ℚ) ^ 2045 = 2 ^ 971 * 2 ^ 1074 := pow_add 2 971 1074
    rw [hsize, hlarge, hspacing, pow_succ 2 970]
    generalize (2 : ℚ) ^ 970 = half
    generalize (2 : ℚ) ^ 1074 = units
    ring
  generalize ((2 ^ 1024 - 2 ^ 970) * 2 ^ 1074 : ℚ) = edge at hmiddle ⊢
  constructor
  · rintro rfl
    by_contra hlt
    have := h.le_of_middle hlast (Or.inl (by rw [hmiddle]; linarith))
    omega
  · intro hle
    have hbeyond := h.lt_of_middle hlast <| by
      rcases hle.lt_or_eq with hlt | heq
      · exact Or.inl (by rw [hmiddle]; linarith)
      · exact Or.inr ⟨by rw [hmiddle]; linarith, hodd⟩
    have := h.1
    omega

/-- A quantity is rounded to zero up to half a step. -/
theorem IsNearestPattern.eq_zero_iff (h : IsNearestPattern q p) : p = 0 ↔ 2 * q ≤ 1 := by
  have hfirst : 0 < infinityPattern := by decide
  have hmiddle : (unitsOf 0 + unitsOf (0 + 1) : ℚ) = 1 := by
    have hzero : unitsOf 0 = 0 := by decide
    have hone : unitsOf (0 + 1) = 1 := by decide
    rw [hzero, hone]
    norm_num
  constructor
  · rintro rfl
    by_contra hlt
    exact absurd (h.lt_of_middle hfirst (Or.inl (by rw [hmiddle]; linarith))) (lt_irrefl 0)
  · intro hle
    refine Nat.le_zero.1 (h.le_of_middle hfirst ?_)
    rw [hmiddle]
    exact hle.lt_or_eq.imp_right fun heq => ⟨heq, Even.zero⟩

/-- Near zero, that is the nearest pattern. -/
theorem isNearestPattern_zero (hpos : 0 ≤ q) (h : 2 * q < 1) : IsNearestPattern q 0 := by
  refine ⟨Nat.zero_le _, fun k hk hne => Or.inl ?_⟩
  have hzero : unitsOf 0 = 0 := by decide
  have hone : unitsOf (0 + 1) = 1 := by decide
  have hle : (unitsOf (0 + 1) : ℚ) ≤ unitsOf k := unitsOf_le_cast (Nat.pos_of_ne_zero hne)
  rw [hone, Nat.cast_one] at hle
  rw [hzero, Nat.cast_zero, zero_sub, abs_neg, abs_of_nonneg hpos, abs_of_nonneg (by linarith)]
  linarith

/-! ## The nearest double -/

/-- The significand of a finite double: its fraction, behind a leading one if it is not one of the
subnormal numbers. -/
def significand (x : Binary64) : ℕ :=
  if x.bits.toNat / 2 ^ 52 % 2 ^ 11 = 0 then x.bits.toNat % 2 ^ 52
  else 2 ^ 52 + x.bits.toNat % 2 ^ 52

/-- **The finite double nearest to a number**: any finite double with another value is further
away, or as far, and then the significand of this one is even. -/
structure IsNearest (v : ℚ) (x : Binary64) : Prop where
  /-- It is finite itself. -/
  finite : x.isFinite = true
  /-- No other is as near, unless in a tie. -/
  nearest : ∀ y : Binary64, y.isFinite = true → y.toRat ≠ x.toRat →
    |x.toRat - v| < |y.toRat - v| ∨ |x.toRat - v| = |y.toRat - v| ∧ Even x.significand

/-- A significand is even if its pattern is. -/
theorem even_significand_iff (x : Binary64) : Even x.significand ↔ Even x.pattern := by
  rw [Nat.even_iff, Nat.even_iff, significand, pattern, signWeight]
  split <;> omega

/-- One with a sign. -/
def signOf (negative : Bool) : ℚ := if negative then -1 else 1

theorem abs_signOf (negative : Bool) : |signOf negative| = 1 := by
  cases negative <;> norm_num [signOf]

theorem signOf_not (negative : Bool) : signOf (!negative) = -signOf negative := by
  cases negative <;> norm_num [signOf]

theorem toRat_eq_signOf (x : Binary64) :
    x.toRat = signOf x.isNegative * (unitsOf x.pattern / unitsPerOne) := x.toRat_eq

/-- The distance of doubles of the same sign is that of their magnitudes. -/
theorem abs_toRat_sub_of_sign (h : x.isNegative = negative) (r : ℚ) :
    |x.toRat - signOf negative * r| = |unitsOf x.pattern - r * unitsPerOne| / unitsPerOne := by
  have hone : (0 : ℚ) < unitsPerOne := Nat.cast_pos.2 unitsPerOne_pos
  rw [toRat_eq_signOf, h, ← mul_sub, abs_mul, abs_signOf, one_mul, eq_div_iff hone.ne']
  nth_rewrite 2 [← abs_of_pos hone]
  rw [← abs_mul, sub_mul, div_mul_cancel₀ _ hone.ne']

/-- From a double of the other sign it is further than from zero, by as much as that one is. -/
theorem abs_toRat_sub_of_not_sign (h : x.isNegative = !negative) (hr : 0 ≤ r) :
    |x.toRat - signOf negative * r| = unitsOf x.pattern / unitsPerOne + r := by
  rw [toRat_eq_signOf, h, signOf_not, neg_mul, ← neg_add', ← mul_add, abs_neg, abs_mul, abs_signOf,
    one_mul]
  exact abs_of_nonneg (add_nonneg (div_nonneg (Nat.cast_nonneg _) (Nat.cast_nonneg _)) hr)

/-- **What is nearest among the patterns is nearest among the doubles.** -/
theorem IsNearestPattern.isNearest (h : IsNearestPattern (r * unitsPerOne) x.pattern)
    (finite : x.isFinite = true) (hr : 0 ≤ r) : IsNearest (signOf x.isNegative * r) x := by
  have hone : (0 : ℚ) < unitsPerOne := Nat.cast_pos.2 unitsPerOne_pos
  refine ⟨finite, fun y hy hne => ?_⟩
  have hyp : y.pattern ≤ infinityPattern := (of_decide_eq_true hy).le
  rw [abs_toRat_sub_of_sign rfl, even_significand_iff]
  by_cases hsign : y.isNegative = x.isNegative
  · have hother : y.pattern ≠ x.pattern := fun heq => hne (by
      rw [toRat_eq_signOf, toRat_eq_signOf, hsign, heq])
    rw [abs_toRat_sub_of_sign hsign, div_lt_div_iff_of_pos_right hone, div_left_inj' hone.ne']
    exact h.2 _ hyp hother
  · rw [abs_toRat_sub_of_not_sign (Bool.eq_not.2 hsign) hr, div_lt_iff₀ hone, div_eq_iff hone.ne',
      add_mul, div_mul_cancel₀ _ hone.ne']
    have hnone : unitsOf 0 = 0 := by decide
    have hzero : |unitsOf 0 - r * unitsPerOne| = r * unitsPerOne := by
      rw [hnone, Nat.cast_zero, zero_sub, abs_neg]
      exact abs_of_nonneg (mul_nonneg hr hone.le)
    rcases Nat.eq_zero_or_pos y.pattern with hy0 | hy0
    · -- The other double is a zero, so this one is not.
      have hother : 0 ≠ x.pattern := fun heq => hne (by
        rw [toRat_eq_signOf, toRat_eq_signOf, hy0, ← heq, hnone, Nat.cast_zero, zero_div, mul_zero,
          mul_zero])
      have hcompare := h.2 0 (Nat.zero_le _) hother
      rw [hzero] at hcompare
      rwa [hy0, hnone, Nat.cast_zero, zero_add]
    · have hpos : (0 : ℚ) < unitsOf y.pattern := by
        have := unitsOf_strictMono hy0
        exact_mod_cast Nat.zero_lt_of_lt this
      have hle := h.le (Nat.zero_le infinityPattern)
      rw [hzero] at hle
      exact Or.inl (by linarith)

end Binary64

namespace Numeral

open Binary64

variable {n : Numeral} {x : Binary64} {significand : ℕ}

/-! ## The number that a numeral writes -/

/-- The number that a numeral writes, but for its sign. -/
def magnitude (n : Numeral) : ℚ := n.significand * 10 ^ n.exponent

/-- **The number that a numeral writes**, exactly. -/
def toRat (n : Numeral) : ℚ := signOf n.negative * n.magnitude

/-- **A double is what a numeral is rounded to.** -/
structure RoundsTo (n : Numeral) (x : Binary64) : Prop where
  /-- It has the sign that was written. -/
  signed : x.isNegative = n.negative
  /-- What is half a step or more beyond the last finite double is rounded to infinity. -/
  infinite : 2 ^ 1024 - 2 ^ 970 ≤ |n.toRat| → x = .infinity n.negative
  /-- Everything else is rounded to the nearest double. -/
  nearest : |n.toRat| < 2 ^ 1024 - 2 ^ 970 → x.IsNearest n.toRat
  /-- What is half of the least positive double or less is rounded to zero, and nothing else is. -/
  vanishing : |n.toRat| ≤ 2 ^ (-1075 : ℤ) ↔ x = .zero n.negative

theorem magnitude_nonneg (n : Numeral) : 0 ≤ n.magnitude := by
  unfold magnitude
  positivity

theorem abs_toRat (n : Numeral) : |n.toRat| = n.magnitude := by
  rw [toRat, abs_mul, abs_signOf, one_mul, abs_of_nonneg n.magnitude_nonneg]

theorem two_pow_le_ten_pow (e : ℕ) : 2 ^ (3 * e) ≤ 10 ^ e := by
  rw [pow_mul]
  exact Nat.pow_le_pow_left (by decide) e

/-- A large exponent takes every significand but zero beyond all doubles. -/
theorem unitsOf_infinityPattern_le_mul {e : ℕ} (hpos : significand ≠ 0) (he : 342 ≤ e) :
    unitsOf infinityPattern ≤ significand * 10 ^ e * unitsPerOne := by
  have hbinary : 2 ^ 1024 ≤ 2 ^ (3 * e) := by
    gcongr
    · decide
    · omega
  have hsize : binadeSize = 2 ^ 52 := by decide
  have hunits : unitsOf infinityPattern = 2 ^ 1024 * 2 ^ 1074 := by
    rw [unitsOf_infinityPattern, hsize, ← pow_succ', ← pow_add, ← pow_add]
  rw [hunits, unitsPerOne_eq]
  refine Nat.mul_le_mul_right _ ((hbinary.trans (two_pow_le_ten_pow e)).trans ?_)
  exact Nat.le_mul_of_pos_left _ (Nat.pos_of_ne_zero hpos)

/-- A small exponent takes a significand to less than half of the least positive double. -/
theorem two_mul_unitsPerOne_lt {e : ℕ} (he : significand.log2 + 1077 ≤ 3 * e) :
    2 * (significand * unitsPerOne) < 10 ^ e := by
  rw [unitsPerOne_eq]
  calc 2 * (significand * 2 ^ 1074) < 2 * (2 ^ (significand.log2 + 1) * 2 ^ 1074) := by
        have := Nat.mul_lt_mul_of_pos_right (Nat.lt_log2_self (n := significand))
          (Nat.two_pow_pos 1074)
        omega
    _ = 2 ^ (significand.log2 + 1076) := by
        rw [← pow_add, ← pow_succ']
    _ ≤ 2 ^ (3 * e) := Nat.pow_le_pow_right two_pos (by omega)
    _ ≤ 10 ^ e := two_pow_le_ten_pow e

/-- **The reader finds the nearest pattern**, also where it does not compute it. -/
theorem isNearestPattern_nearestPattern (significand : ℕ) (exponent : ℤ) :
    IsNearestPattern (significand * 10 ^ exponent * unitsPerOne)
      (nearestPattern significand exponent) := by
  cases exponent with
  | ofNat e =>
    have hquantity : (significand * 10 ^ (Int.ofNat e) * unitsPerOne : ℚ)
        = (significand * 10 ^ e * unitsPerOne : ℕ) := by
      rw [Int.ofNat_eq_natCast, zpow_natCast, Nat.cast_mul, Nat.cast_mul, Nat.cast_pow,
        Nat.cast_ofNat]
    rw [hquantity, nearestPattern]
    split
    · rename_i hzero
      rw [hzero, zero_mul, zero_mul, Nat.cast_zero]
      exact isNearestPattern_zero le_rfl (by norm_num)
    · rename_i hpos
      split
      · rename_i he
        exact isNearestPattern_infinityPattern
          (Nat.cast_le.2 (unitsOf_infinityPattern_le_mul hpos he))
      · have hnear := Binary64.isNearestPattern_nearestPattern
          (significand * 10 ^ e * unitsPerOne) one_pos
        rwa [Nat.cast_one, div_one] at hnear
  | negSucc e =>
    have hquantity : (significand * 10 ^ (Int.negSucc e) * unitsPerOne : ℚ)
        = (significand * unitsPerOne : ℕ) / (10 ^ (e + 1) : ℕ) := by
      rw [zpow_negSucc, Nat.cast_mul, Nat.cast_pow, Nat.cast_ofNat]
      ring
    have hpower : 0 < 10 ^ (e + 1) := Nat.pow_pos (by decide)
    rw [hquantity, nearestPattern]
    split
    · rename_i he
      have hsmall : ((2 * (significand * unitsPerOne) : ℕ) : ℚ) < (10 ^ (e + 1) : ℕ) :=
        Nat.cast_lt.2 (two_mul_unitsPerOne_lt he)
      refine isNearestPattern_zero (div_nonneg (Nat.cast_nonneg _) (Nat.cast_nonneg _)) ?_
      rw [← mul_div_assoc, div_lt_one (Nat.cast_pos.2 hpower)]
      exact_mod_cast hsmall
    · exact Binary64.isNearestPattern_nearestPattern _ hpower

/-- **A numeral is rounded once**, to what it is read as. -/
theorem roundsTo_toBinary64 (n : Numeral) : n.RoundsTo n.toBinary64 := by
  have hnear : IsNearestPattern (n.magnitude * unitsPerOne)
      (nearestPattern n.significand n.exponent) :=
    isNearestPattern_nearestPattern n.significand n.exponent
  unfold toBinary64
  generalize nearestPattern n.significand n.exponent = p at hnear ⊢
  have hp : p < signWeight := hnear.1.trans_lt (by decide)
  have hsigned := isNegative_ofPattern n.negative hp
  have hpattern := pattern_ofPattern n.negative hp
  have hone : (unitsPerOne : ℚ) = 2 ^ 1074 := by
    rw [unitsPerOne_eq, Nat.cast_pow, Nat.cast_ofNat]
  have hpos : (0 : ℚ) < 2 ^ 1074 := by positivity
  have hinfinite : p = infinityPattern ↔ 2 ^ 1024 - 2 ^ 970 ≤ n.magnitude := by
    rw [hnear.eq_infinityPattern_iff, hone, mul_le_mul_iff_of_pos_right hpos]
  refine ⟨hsigned, fun hle => ?_, fun hlt => ?_, ?_⟩
  · rw [abs_toRat] at hle
    rw [hinfinite.2 hle]
    rfl
  · rw [abs_toRat] at hlt
    have hfinite : (ofPattern n.negative p).isFinite = true := by
      rw [isFinite, hpattern]
      refine decide_eq_true (lt_of_le_of_ne hnear.1 fun heq => ?_)
      exact absurd (hinfinite.1 heq) (not_le.2 hlt)
    rw [← hpattern] at hnear
    have hnearest := hnear.isNearest hfinite n.magnitude_nonneg
    rwa [hsigned] at hnearest
  · have hhalf : (2 : ℚ) ^ (-1075 : ℤ) = 1 / (2 * 2 ^ 1074) := by
      rw [zpow_neg, one_div, ← pow_succ']
      rfl
    rw [abs_toRat, hhalf, le_div_iff₀ (by positivity), ← mul_assoc, mul_comm _ 2, mul_assoc, ← hone,
      ← hnear.eq_zero_iff]
    constructor
    · rintro rfl
      rfl
    · intro heq
      rw [← hpattern, heq]
      exact pattern_ofPattern n.negative (by decide)

end Numeral

namespace Value

variable {word : String} {x : Binary64}

/-- A word that is read as a number is a numeral. -/
theorem exists_writes_of_ofLiteral? (h : ofLiteral? word = some (.number x)) :
    ∃ n, Numeral.Writes word.toList n ∧ n.toBinary64 = x := by
  have hnil : word ≠ "nil" := by
    rintro rfl
    cases h
  have htrue : word ≠ "true" := by
    rintro rfl
    cases h
  have hfalse : word ≠ "false" := by
    rintro rfl
    cases h
  rw [ofLiteral?_of_ne hnil htrue hfalse] at h
  obtain ⟨n, hread, hnumber⟩ := Option.map_eq_some_iff.1 h
  exact ⟨n, Numeral.writes_of_read? hread, number.inj hnumber⟩

/-- **A literal is read as the nearest double.** A word that is read as a number writes just one
number in decimal, of however many digits and with whatever exponent, and is read as what that
number is rounded to: infinity from half a step beyond the last finite double on, and otherwise the
double nearest to it, or the one with an even significand if two are as near. The sign is always the
one that was written, of zero too. -/
theorem ofLiteral?_rounds (h : ofLiteral? word = some (.number x)) :
    ∃ n : Numeral, (∀ m, Numeral.Writes word.toList m ↔ m = n) ∧ n.RoundsTo x := by
  obtain ⟨n, written, rfl⟩ := exists_writes_of_ofLiteral? h
  refine ⟨n, fun m => ⟨fun hm => ?_, fun hm => hm ▸ written⟩, n.roundsTo_toBinary64⟩
  exact Option.some.inj (hm.read?.symm.trans written.read?)

/-- One and half a step is halfway between two doubles, and is read as one. With a further digit at
the end it is not halfway any more, and is read as the next double. -/
theorem ofLiteral?_rounds_halfway :
    ofLiteral? "1.00000000000000011102230246251565404236316680908203125"
        = some (.number (.ofPattern false 4607182418800017408)) ∧
      (∃ n : Numeral, n.RoundsTo (.ofPattern false 4607182418800017408) ∧
        n = ⟨false, 100000000000000011102230246251565404236316680908203125, -53⟩) ∧
      ofLiteral? "1.000000000000000111022302462515654042363166809082031250000001"
        = some (.number (.ofPattern false 4607182418800017409)) ∧
      ∃ n : Numeral, n.RoundsTo (.ofPattern false 4607182418800017409) ∧
        n = ⟨false, 1000000000000000111022302462515654042363166809082031250000001, -60⟩ := by
  have heven : ofLiteral? "1.00000000000000011102230246251565404236316680908203125"
      = some (.number (.ofPattern false 4607182418800017408)) := by decide +kernel
  have hmore : ofLiteral? "1.000000000000000111022302462515654042363166809082031250000001"
      = some (.number (.ofPattern false 4607182418800017409)) := by decide +kernel
  obtain ⟨n, hwrites, hrounds⟩ := ofLiteral?_rounds heven
  obtain ⟨n', hwrites', hrounds'⟩ := ofLiteral?_rounds hmore
  have hn := (hwrites _).1 (Numeral.writes_of_read?
    (show Numeral.read? _ = some ⟨false, 100000000000000011102230246251565404236316680908203125,
      -53⟩ by decide +kernel))
  have hn' := (hwrites' _).1 (Numeral.writes_of_read?
    (show Numeral.read? _ = some
      ⟨false, 1000000000000000111022302462515654042363166809082031250000001, -60⟩ by
        decide +kernel))
  exact ⟨heven, ⟨n, hrounds, hn.symm⟩, hmore, n', hrounds', hn'.symm⟩

end Value

end StackMachine

import Mathlib
import StackMachine.Binary64.Rounding

/-!
# Nearest points

Rounding is computed in natural numbers, by a division and a look at what it leaves. What it is
for is said here in rational numbers, for the two grids that things are rounded to.

The first grid is that of the multiples of a step. `roundDiv` finds the nearest one, and of two
the even one (`isNearestMultiple_roundDiv`). A multiple that is nearest to a quantity is
nearest to whatever lies no further away from it (`IsNearestMultiple.of_le`).

The second grid is that of the doubles. It is the grid of the multiples of a power of two, but the
power depends on the place: a quantity lies in one binade, whose doubles are the multiples of one
power, and all doubles above are multiples of it too. Below that binade the doubles are denser, but
they are further away than the point where it starts. So the double nearest among these multiples
is nearest among all doubles (`isNearestPattern_nearestPattern`).
-/

namespace StackMachine

/-! ## Multiples of a step -/

/-- **The multiple of a step that is nearest to a quantity**: any other multiple is further away, or
as far, and then this one is even. -/
def IsNearestMultiple (step q : ℚ) (m : ℤ) : Prop :=
  ∀ k : ℤ, k ≠ m →
    |m * step - q| < |k * step - q| ∨ |m * step - q| = |k * step - q| ∧ Even m

variable {step q r : ℚ} {m n : ℤ}

/-- No multiple is nearer than the nearest. -/
theorem IsNearestMultiple.le (h : IsNearestMultiple step q m) (k : ℤ) :
    |m * step - q| ≤ |k * step - q| := by
  by_cases heq : k = m
  · rw [heq]
  · exact (h k heq).elim le_of_lt fun h => h.1.le

/-- Two multiples of a step are at least a step apart. -/
theorem step_le_abs_sub (hstep : 0 < step) (h : m ≠ n) : step ≤ |m * step - n * step| := by
  have hone : (1 : ℚ) ≤ |(m : ℚ) - n| := by
    exact_mod_cast Int.one_le_abs (sub_ne_zero.2 h)
  rw [← sub_mul, abs_mul, abs_of_pos hstep]
  exact le_mul_of_one_le_left hstep.le hone

/-- From one multiple to another it is no further than by way of the quantity. -/
theorem abs_multiple_sub_le (step q : ℚ) (m n : ℤ) :
    |m * step - n * step| ≤ |m * step - q| + |n * step - q| := by
  rw [← sub_sub_sub_cancel_right _ _ q]
  exact abs_sub _ _

/-- **The nearest multiple is at most half a step away**, and is even if it is as far as that. -/
theorem isNearestMultiple_iff (hstep : 0 < step) :
    IsNearestMultiple step q m ↔
      |m * step - q| ≤ step / 2 ∧ (|m * step - q| = step / 2 → Even m) := by
  constructor
  · intro h
    have hbelow := h (m - 1) (by omega)
    have habove := h (m + 1) (by omega)
    have hsub : ((m - 1 : ℤ) : ℚ) * step - q = m * step - q - step := by push_cast; ring
    have hadd : ((m + 1 : ℤ) : ℚ) * step - q = m * step - q + step := by push_cast; ring
    rw [hsub] at hbelow
    rw [hadd] at habove
    generalize (m : ℚ) * step - q = d at hbelow habove ⊢
    have hle : d ≤ step / 2 := by
      have hsq := sq_le_sq.2 (hbelow.elim le_of_lt fun h => h.1.le)
      nlinarith
    have hge : -(step / 2) ≤ d := by
      have hsq := sq_le_sq.2 (habove.elim le_of_lt fun h => h.1.le)
      nlinarith
    refine ⟨abs_le.2 ⟨hge, hle⟩, fun hhalf => ?_⟩
    -- Half a step away on one side, there is another multiple half a step away on the other.
    rcases (abs_eq (half_pos hstep).le).1 hhalf with rfl | rfl
    · refine (hbelow.resolve_left ?_).2
      rw [show step / 2 - step = -(step / 2) by ring, abs_neg]
      exact lt_irrefl _
    · refine (habove.resolve_left ?_).2
      rw [show -(step / 2) + step = step / 2 by ring, abs_neg]
      exact lt_irrefl _
  · rintro ⟨hnear, heven⟩ k hk
    have happart : step ≤ |m * step - q| + |k * step - q| :=
      (step_le_abs_sub hstep hk.symm).trans (abs_multiple_sub_le step q m k)
    rcases lt_or_ge |m * step - q| |k * step - q| with hlt | hge
    · exact Or.inl hlt
    · have hhalf : |m * step - q| = step / 2 := by linarith
      have hother : |k * step - q| = step / 2 := by linarith
      exact Or.inr ⟨hhalf.trans hother.symm, heven hhalf⟩

/-- **A nearest multiple is nearest to what is no further away.** -/
theorem IsNearestMultiple.of_le (h : IsNearestMultiple step q m) (hstep : 0 < step)
    (hle : |m * step - r| ≤ |m * step - q|) : IsNearestMultiple step r m := by
  rw [isNearestMultiple_iff hstep] at h ⊢
  exact ⟨hle.trans h.1, fun hhalf => h.2 (le_antisymm h.1 (hhalf ▸ hle))⟩

/-- **There is only one nearest multiple.** -/
theorem IsNearestMultiple.unique (h : IsNearestMultiple step q m) (hn : IsNearestMultiple step q n)
    (hstep : 0 < step) : m = n := by
  by_contra hne
  rw [isNearestMultiple_iff hstep] at h hn
  have happart := (step_le_abs_sub hstep hne).trans (abs_multiple_sub_le step q m n)
  -- Both are half a step away, hence even, and even multiples are further apart than that.
  obtain ⟨a, rfl⟩ := (h.2 (by linarith)).two_dvd
  obtain ⟨b, rfl⟩ := (hn.2 (by linarith)).two_dvd
  have hfar : step * 2 ≤ |(a : ℚ) * (step * 2) - b * (step * 2)| :=
    step_le_abs_sub (by linarith) fun hab => hne (congrArg (2 * ·) hab)
  have hclose := abs_multiple_sub_le step q (2 * a) (2 * b)
  push_cast at h hn hclose
  rw [show (2 : ℚ) * a * step - 2 * b * step = a * (step * 2) - b * (step * 2) by ring] at hclose
  linarith

theorem IsNearestMultiple.neg (h : IsNearestMultiple step q m) :
    IsNearestMultiple step (-q) (-m) := by
  intro k hk
  have hflip : ∀ j : ℤ, |((-j : ℤ) : ℚ) * step - -q| = |j * step - q| := fun j => by
    rw [← abs_neg]
    push_cast
    ring_nf
  have := h (-k) (fun heq => hk (by omega))
  rw [hflip, even_neg]
  rwa [← hflip (-k), neg_neg] at this

/-! ## Rounding a quotient -/

/-- A half goes to the even neighbour. -/
theorem even_roundDiv {num den : ℕ} (hden : 0 < den)
    (hhalf : 2 * (roundDiv num den * den) = 2 * num + den ∨
      2 * num = 2 * (roundDiv num den * den) + den) : Even (roundDiv num den) := by
  have hmod := Nat.mod_lt num hden
  have hdiv : num / den * den + num % den = num := Nat.div_add_mod' num den
  rw [Nat.even_iff]
  unfold roundDiv at hhalf ⊢
  split at hhalf <;> rename_i hc
  · rw [if_pos hc]
    omega
  · rw [if_neg hc]
    rw [add_mul, one_mul] at hhalf
    omega

/-- **Rounding a quotient finds the nearest multiple.** -/
theorem isNearestMultiple_roundDiv (hstep : 0 < step) (num : ℕ) {den : ℕ} (hden : 0 < den) :
    IsNearestMultiple step (num / den * step) (roundDiv num den) := by
  have hden' : (0 : ℚ) < den := Nat.cast_pos.2 hden
  obtain ⟨hbelow, habove⟩ := roundDiv_within_half num hden
  have hbelow : 2 * ((roundDiv num den : ℚ) * den) ≤ 2 * num + den := by exact_mod_cast hbelow
  have habove : 2 * (num : ℚ) ≤ 2 * (roundDiv num den * den) + den := by exact_mod_cast habove
  -- In steps, and with the denominator multiplied out, the distance is a whole number.
  have hdistance : ((roundDiv num den : ℤ) : ℚ) * step - num / den * step
      = (roundDiv num den * den - num) * (step / den) := by
    push_cast
    field_simp
  have hunit : 0 < step / den := div_pos hstep hden'
  have hhalf : step / 2 = den / 2 * (step / den) := by field_simp
  rw [isNearestMultiple_iff hstep, hdistance, abs_mul, abs_of_pos hunit, hhalf]
  refine ⟨mul_le_mul_of_nonneg_right (abs_le.2 ⟨by linarith, by linarith⟩) hunit.le, fun heq => ?_⟩
  have heq := mul_right_cancel₀ hunit.ne' heq
  rw [Int.even_coe_nat]
  refine even_roundDiv hden ?_
  rcases (abs_eq (half_pos hden').le).1 heq with heq | heq
  · exact Or.inl (by have : 2 * ((roundDiv num den : ℚ) * den) = 2 * num + den := by linarith
                     exact_mod_cast this)
  · exact Or.inr (by have : 2 * (num : ℚ) = 2 * (roundDiv num den * den) + den := by linarith
                     exact_mod_cast this)

namespace Binary64

/-! ## The grid of the doubles -/

/-- Above the first binade a pattern is a number of binades with a whole number of units of the
last one behind it; so is the pattern behind it, which may be the first of the next binade. -/
theorem unitsOf_eq_mul_two_pow {shift r : ℕ} (hr : r ≤ 2 * binadeSize)
    (h : shift = 0 ∨ binadeSize ≤ r) : unitsOf (shift * binadeSize + r) = r * 2 ^ shift := by
  have hpos : 0 < binadeSize := by decide
  unfold unitsOf
  split
  · rename_i hlt
    have hshift : shift = 0 := by
      rcases h with rfl | h
      · rfl
      · exact absurd hlt (by omega)
    rw [hshift, zero_mul, zero_add, pow_zero, mul_one]
  · rename_i hge
    have hle : binadeSize ≤ r := h.elim (fun h => by rw [h] at hge; omega) id
    rw [Nat.pow_eq]
    rcases eq_or_lt_of_le hr with rfl | hlt
    · -- The carry: the first pattern of the next binade.
      rw [← add_mul, Nat.mul_mod_left, Nat.mul_div_cancel _ hpos, add_zero]
      show binadeSize * 2 ^ (shift + 1) = 2 * binadeSize * 2 ^ shift
      ring
    · obtain ⟨t, rfl⟩ := Nat.exists_eq_add_of_le hle
      have ht : t < binadeSize := by omega
      have hp : shift * binadeSize + (binadeSize + t) = t + binadeSize * (shift + 1) := by ring
      rw [hp, Nat.add_mul_mod_self_left, Nat.mod_eq_of_lt ht, Nat.add_mul_div_left _ _ hpos,
        Nat.div_eq_of_lt ht, zero_add, Nat.add_sub_cancel]

/-- Every pattern is one of these. -/
theorem exists_eq_shift (p : ℕ) :
    ∃ shift r, p = shift * binadeSize + r ∧ r < 2 * binadeSize ∧
      (shift = 0 ∨ binadeSize ≤ r) := by
  by_cases hp : p < 2 * binadeSize
  · exact ⟨0, p, by omega, hp, Or.inl rfl⟩
  · have hsplit := Nat.div_add_mod' p binadeSize
    have hmod : p % binadeSize < binadeSize := Nat.mod_lt p (by decide)
    obtain ⟨shift, hshift⟩ : ∃ shift, p / binadeSize = shift + 1 :=
      Nat.exists_eq_add_of_le' ((Nat.le_div_iff_mul_le (by decide)).2 (by omega))
    rw [hshift, add_mul, one_mul] at hsplit
    exact ⟨shift, binadeSize + p % binadeSize, by omega, by omega, Or.inr (by omega)⟩

/-- **Patterns are in the order of their magnitudes.** -/
theorem unitsOf_strictMono : StrictMono unitsOf := by
  refine strictMono_nat_of_lt_succ fun p => ?_
  obtain ⟨shift, r, rfl, hr, h⟩ := exists_eq_shift p
  rw [add_assoc, unitsOf_eq_mul_two_pow hr.le h,
    unitsOf_eq_mul_two_pow hr (h.imp_right fun h => h.trans (Nat.le_succ r))]
  exact Nat.mul_lt_mul_of_pos_right (Nat.lt_succ_self r) (Nat.two_pow_pos shift)

/-- **The doubles from a binade on are multiples of the same power of two**, and those below lie
below its start. -/
theorem unitsOf_multiple_or_lt (shift p : ℕ) :
    (∃ j : ℕ, unitsOf p = j * 2 ^ shift) ∨ 0 < shift ∧ unitsOf p < binadeSize * 2 ^ shift := by
  obtain ⟨s, r, rfl, hr, h⟩ := exists_eq_shift p
  have hunits := unitsOf_eq_mul_two_pow hr.le h
  rcases le_or_gt shift s with hle | hgt
  · obtain ⟨d, rfl⟩ := Nat.exists_eq_add_of_le hle
    exact Or.inl ⟨r * 2 ^ d, by rw [hunits, pow_add]; ring⟩
  · refine Or.inr ⟨Nat.zero_lt_of_lt hgt, ?_⟩
    calc unitsOf (s * binadeSize + r) = r * 2 ^ s := hunits
      _ < 2 * binadeSize * 2 ^ s := Nat.mul_lt_mul_of_pos_right hr (Nat.two_pow_pos s)
      _ = binadeSize * 2 ^ (s + 1) := by ring
      _ ≤ binadeSize * 2 ^ shift := Nat.mul_le_mul_left _ (Nat.pow_le_pow_right two_pos hgt)

/-- **The pattern nearest to a quantity of units**: any other pattern up to that of infinity is
further away, or as far, and then this one is even. -/
def IsNearestPattern (q : ℚ) (p : ℕ) : Prop :=
  p ≤ infinityPattern ∧ ∀ k ≤ infinityPattern, k ≠ p →
    |unitsOf p - q| < |unitsOf k - q| ∨ |unitsOf p - q| = |unitsOf k - q| ∧ Even p

/-- No pattern up to that of infinity is nearer than the nearest. -/
theorem IsNearestPattern.le {p k : ℕ} (h : IsNearestPattern q p) (hk : k ≤ infinityPattern) :
    |unitsOf p - q| ≤ |unitsOf k - q| := by
  by_cases heq : k = p
  · rw [heq]
  · exact (h.2 k hk heq).elim le_of_lt fun h => h.1.le

/-- A quotient is rounded within its binade, or up to where the next one starts. -/
theorem roundDiv_within_binade (num : ℕ) {den shift : ℕ} (hden : 0 < den)
    (hshift : shift = (num / den).log2 - 52) :
    roundDiv num (den * 2 ^ shift) ≤ 2 * binadeSize ∧
      (0 < shift → binadeSize ≤ roundDiv num (den * 2 ^ shift) ∧
        binadeSize * 2 ^ shift * den ≤ num) := by
  have hsize : binadeSize = 2 ^ 52 := by decide
  have hpos : 0 < den * 2 ^ shift := Nat.mul_pos hden (Nat.two_pow_pos shift)
  have hround := roundDiv_eq_or num (den * 2 ^ shift)
  constructor
  · have hlt : num < 2 ^ (shift + 53) * den := by
      refine (Nat.div_lt_iff_lt_mul hden).1 ?_
      exact Nat.lt_log2_self.trans_le (Nat.pow_le_pow_right two_pos (by omega))
    have hquotient : num / (den * 2 ^ shift) < 2 * binadeSize := by
      rw [Nat.div_lt_iff_lt_mul hpos, hsize]
      exact hlt.trans_eq (by ring)
    omega
  · intro hlarge
    have hne : num / den ≠ 0 := fun h => by rw [h, Nat.log2_zero] at hshift; omega
    have hle : binadeSize * 2 ^ shift * den ≤ num := by
      have hself := Nat.log2_self_le hne
      rw [show (num / den).log2 = 52 + shift by omega, pow_add, ← hsize] at hself
      exact (Nat.le_div_iff_mul_le hden).1 hself
    have hquotient : binadeSize ≤ num / (den * 2 ^ shift) := by
      rw [Nat.le_div_iff_mul_le hpos]
      exact le_of_eq_of_le (by ring) hle
    exact ⟨by omega, hle⟩

/-- **The nearest multiple in a binade is the nearest pattern.** The doubles of the binade, and all
above, are among the multiples; those below are further away than where the binade starts. -/
theorem isNearestPattern_of_binade {shift r : ℕ} (hr : r ≤ 2 * binadeSize)
    (hlarge : shift = 0 ∨ binadeSize ≤ r)
    (hstart : 0 < shift → ((binadeSize * 2 ^ shift : ℕ) : ℚ) ≤ q)
    (hnear : IsNearestMultiple (2 ^ shift) q r) (hle : shift * binadeSize + r ≤ infinityPattern) :
    IsNearestPattern q (shift * binadeSize + r) := by
  have hunits : unitsOf (shift * binadeSize + r) = r * 2 ^ shift :=
    unitsOf_eq_mul_two_pow hr hlarge
  refine ⟨hle, fun k hk hne => ?_⟩
  rcases unitsOf_multiple_or_lt shift k with ⟨j, hj⟩ | ⟨hpos, hlt⟩
  · have hother : (j : ℤ) ≠ r := fun heq => hne (unitsOf_strictMono.injective (by
      rw [hj, hunits, Int.ofNat_inj.1 heq]))
    have hcompare := hnear j hother
    rw [hunits, hj]
    push_cast at hcompare ⊢
    refine hcompare.imp_right fun ⟨heq, heven⟩ => ⟨heq, ?_⟩
    exact (Even.mul_left (by decide) shift).add ((Int.even_coe_nat r).1 heven)
  · have hbinade := hstart hpos
    have hlt : (unitsOf k : ℚ) < (binadeSize * 2 ^ shift : ℕ) := Nat.cast_lt.2 hlt
    have hle : |(r : ℚ) * 2 ^ shift - q| ≤ |(binadeSize : ℚ) * 2 ^ shift - q| := by
      exact_mod_cast hnear.le binadeSize
    rw [hunits]
    push_cast at hlt hbinade ⊢
    refine Or.inl (hle.trans_lt ?_)
    rw [abs_of_nonpos (by linarith), abs_of_nonpos (by linarith)]
    linarith

/-- **Past infinity, that is the nearest pattern.** -/
theorem isNearestPattern_infinityPattern (h : (unitsOf infinityPattern : ℚ) ≤ q) :
    IsNearestPattern q infinityPattern := by
  refine ⟨le_rfl, fun k hk hne => Or.inl ?_⟩
  have hlt : (unitsOf k : ℚ) < unitsOf infinityPattern :=
    Nat.cast_lt.2 (unitsOf_strictMono (lt_of_le_of_ne hk hne))
  rw [abs_of_nonpos (by linarith), abs_of_nonpos (by linarith)]
  linarith

/-- Infinity is where the next binade would start. -/
theorem unitsOf_infinityPattern : unitsOf infinityPattern = 2 * binadeSize * 2 ^ 2045 := by
  have hsplit : infinityPattern = 2045 * binadeSize + 2 * binadeSize := by decide
  have hpos : 0 < binadeSize := by decide
  rw [hsplit, unitsOf_eq_mul_two_pow le_rfl (Or.inr (by omega))]

/-- The greatest finite double is one step below. -/
theorem unitsOf_pred_infinityPattern :
    unitsOf (infinityPattern - 1) = (2 * binadeSize - 1) * 2 ^ 2045 := by
  have hsplit : infinityPattern - 1 = 2045 * binadeSize + (2 * binadeSize - 1) := by decide
  have hpos : 0 < binadeSize := by decide
  rw [hsplit, unitsOf_eq_mul_two_pow (by omega) (Or.inr (by omega))]

/-- From some binade on there are no finite doubles. -/
theorem unitsOf_infinityPattern_le {shift r : ℕ} (hr : r ≤ 2 * binadeSize)
    (hgt : infinityPattern < shift * binadeSize + r) :
    0 < shift ∧ unitsOf infinityPattern ≤ binadeSize * 2 ^ shift := by
  have hmany : 2046 ≤ shift := by
    unfold infinityPattern at hgt
    by_contra hfew
    have := Nat.mul_le_mul_right binadeSize (show shift ≤ 2045 by omega)
    omega
  have hpast : infinityPattern ≤ shift * binadeSize + binadeSize := by
    rw [← Nat.succ_mul]
    exact Nat.mul_le_mul_right binadeSize (Nat.succ_le_succ hmany)
  refine ⟨by omega, ?_⟩
  rw [← unitsOf_eq_mul_two_pow (by decide) (Or.inr le_rfl)]
  exact unitsOf_strictMono.monotone hpast

/-- **The nearest pattern is found.** -/
theorem isNearestPattern_nearestPattern (num : ℕ) {den : ℕ} (hden : 0 < den) :
    IsNearestPattern (num / den) (nearestPattern num den) := by
  have hden' : (0 : ℚ) < den := Nat.cast_pos.2 hden
  obtain ⟨shift, hshift⟩ : ∃ shift, shift = (num / den).log2 - 52 := ⟨_, rfl⟩
  obtain ⟨hr, hlarge⟩ := roundDiv_within_binade num hden hshift
  have hfound : nearestPattern num den
      = min (shift * binadeSize + roundDiv num (den * 2 ^ shift)) infinityPattern := by
    rw [nearestPattern, ← hshift, Nat.pow_eq]
  have hstart : 0 < shift → ((binadeSize * 2 ^ shift : ℕ) : ℚ) ≤ num / den := fun hpos => by
    rw [le_div_iff₀ hden']
    exact_mod_cast (hlarge hpos).2
  have hnear : IsNearestMultiple (2 ^ shift) (num / den) (roundDiv num (den * 2 ^ shift)) := by
    have hmultiple : IsNearestMultiple (2 ^ shift) (num / (den * 2 ^ shift : ℕ) * 2 ^ shift)
        (roundDiv num (den * 2 ^ shift)) :=
      isNearestMultiple_roundDiv (by positivity) num (Nat.mul_pos hden (Nat.two_pow_pos shift))
    rwa [Nat.cast_mul, Nat.cast_pow, Nat.cast_ofNat, ← div_div,
      div_mul_cancel₀ _ (by positivity)] at hmultiple
  rw [hfound]
  rcases le_or_gt (shift * binadeSize + roundDiv num (den * 2 ^ shift)) infinityPattern with
    hle | hgt
  · rw [min_eq_left hle]
    refine isNearestPattern_of_binade hr ?_ hstart hnear hle
    exact (Nat.eq_zero_or_pos shift).imp_right fun hpos => (hlarge hpos).1
  · obtain ⟨hpos, hinfinity⟩ := unitsOf_infinityPattern_le hr hgt
    rw [min_eq_right hgt.le]
    exact isNearestPattern_infinityPattern ((Nat.cast_le.2 hinfinity).trans (hstart hpos))

end Binary64

end StackMachine

/-!
# Doubles as bit patterns

A number of the machine is a double: 64 bits that hold a sign bit, an
eleven-bit exponent field and a 52-bit fraction. We keep the bits and nothing
else, so that two numbers are the same exactly when their patterns are, and the
sign of a zero is never lost.

The pattern without its sign bit, read as a natural number, orders magnitudes:
the zero has pattern `0`, the subnormal numbers follow, then each binade in
turn, then infinity (`infinityPattern`), then the values that are no number.
`unitsOf` says how large the magnitude of a pattern is, counted in units of
`2 ^ -1074`, the least positive double. Every finite magnitude is a whole number
of units, so the exact value of a double is an integer (`toInt`) and no rational
number is needed anywhere.
-/

namespace StackMachine

/-- **A double**, held as its bit pattern. -/
structure Binary64 where
  /-- The 64 bits: sign, exponent field, fraction. -/
  bits : UInt64
  deriving DecidableEq, Inhabited

namespace Binary64

/-- The weight of the sign bit, `2 ^ 63`. -/
def signWeight : Nat := 9223372036854775808

/-- How many patterns share an exponent field, `2 ^ 52`: one for each fraction. -/
def binadeSize : Nat := 4503599627370496

/-- The pattern of an infinite magnitude: an exponent field of all ones over a
zero fraction. Greater patterns are no number. -/
def infinityPattern : Nat := 2047 * binadeSize

/-- Whether the sign bit is set. -/
def isNegative (x : Binary64) : Bool := decide (signWeight ≤ x.bits.toNat)

/-- The bits below the sign bit. -/
def pattern (x : Binary64) : Nat := x.bits.toNat % signWeight

/-- Whether the pattern stands for no number at all. -/
def isNaN (x : Binary64) : Bool := decide (infinityPattern < x.pattern)

/-- Whether the magnitude is infinite. -/
def isInfinite (x : Binary64) : Bool := decide (x.pattern = infinityPattern)

/-- Whether the pattern stands for a finite number. -/
def isFinite (x : Binary64) : Bool := decide (x.pattern < infinityPattern)

/-- Whether the number is one of the two zeros. -/
def isZero (x : Binary64) : Bool := decide (x.pattern = 0)

/-- The double with the given sign bit and pattern. -/
def ofPattern (negative : Bool) (pattern : Nat) : Binary64 :=
  ⟨UInt64.ofNat ((if negative then signWeight else 0) + pattern)⟩

/-- The value that is no number, as every operation delivers it. -/
def nan : Binary64 := ofPattern false (infinityPattern + binadeSize / 2)

/-- The infinity of the given sign. -/
def infinity (negative : Bool) : Binary64 := ofPattern negative infinityPattern

/-- The zero of the given sign. -/
def zero (negative : Bool) : Binary64 := ofPattern negative 0

/-- The number one. -/
def one : Binary64 := ofPattern false (1023 * binadeSize)

/-- The magnitude of a pattern in units of `2 ^ -1074`. In the first binade the
pattern counts units itself; above, it is a fraction under a leading one, scaled
by the exponent field. The rule runs on past the finite patterns, where
`infinityPattern` counts `2 ^ 1024`: infinity lies above every finite number. -/
def unitsOf (pattern : Nat) : Nat :=
  if pattern < binadeSize then pattern
  else (binadeSize + pattern % binadeSize) * Nat.pow 2 (pattern / binadeSize - 1)

/-- How many units make one. -/
def unitsPerOne : Nat := Nat.pow 2 1074

/-- The magnitude of a double in units. -/
def units (x : Binary64) : Nat := unitsOf x.pattern

/-- The signed value of a double in units; both zeros have value `0`. -/
def toInt (x : Binary64) : Int :=
  if x.isNegative then -(x.units : Int) else (x.units : Int)

/-! ## Sign and pattern determine a double -/

/-- A pattern fits below the sign bit. -/
theorem pattern_lt (x : Binary64) : x.pattern < signWeight :=
  Nat.mod_lt _ (by decide)

/-- **Sign and pattern come back** from the double built from them. -/
theorem toNat_bits_ofPattern (negative : Bool) {pattern : Nat}
    (h : pattern < signWeight) :
    (ofPattern negative pattern).bits.toNat
      = (if negative then signWeight else 0) + pattern := by
  refine Nat.mod_eq_of_lt ?_
  unfold signWeight at h ⊢
  split <;> omega

@[simp] theorem isNegative_ofPattern (negative : Bool) {pattern : Nat}
    (h : pattern < signWeight) : (ofPattern negative pattern).isNegative = negative := by
  rw [isNegative, toNat_bits_ofPattern negative h]
  cases negative with
  | false => simpa using h
  | true => simp

@[simp] theorem pattern_ofPattern (negative : Bool) {pattern : Nat}
    (h : pattern < signWeight) : (ofPattern negative pattern).pattern = pattern := by
  rw [Binary64.pattern, toNat_bits_ofPattern negative h]
  cases negative with
  | false => simpa using Nat.mod_eq_of_lt h
  | true => simpa using Nat.mod_eq_of_lt h

/-- **A double is its sign over its pattern.** -/
theorem ofPattern_isNegative_pattern (x : Binary64) :
    ofPattern x.isNegative x.pattern = x := by
  have hx := x.bits.toNat_lt
  refine congrArg Binary64.mk (UInt64.toNat_inj.1 ?_)
  show (ofPattern x.isNegative x.pattern).bits.toNat = x.bits.toNat
  rw [toNat_bits_ofPattern _ x.pattern_lt]
  by_cases h : signWeight ≤ x.bits.toNat
  · simp only [isNegative, h, decide_true, if_true, Binary64.pattern]
    unfold signWeight at h ⊢
    omega
  · simp only [isNegative, h, decide_false, Binary64.pattern]
    rw [Nat.mod_eq_of_lt (Nat.lt_of_not_le h)]
    exact Nat.zero_add _

/-- A double is finite, infinite or no number, and only one of these. -/
theorem isFinite_eq (x : Binary64) : x.isFinite = (!x.isNaN && !x.isInfinite) := by
  rw [Bool.eq_iff_iff]
  simp only [isFinite, isNaN, isInfinite, decide_eq_true_eq, Bool.and_eq_true,
    Bool.not_eq_true', decide_eq_false_iff_not]
  omega

end Binary64

end StackMachine

import StackMachine.Decimal.Fixed

/-!
# Decimal numerals

A numeral is an optional sign, digits with an optional point among or before or
after them, and an optional exponent: `3`, `-0.5`, `.5`, `5.`, `1e3`, `+2.5E-4`.
Nothing else is one: no words such as `inf`, no bare point, no empty exponent, no
digits outside the ten of ASCII. A double can be written as a numeral or as such a
word (`Binary64.read?`).

Reading a numeral is in two steps. `read?` recognises the form and delivers what it
denotes, a sign, a significand and a power of ten, exactly. `toBinary64` rounds that
to the nearest double, once. Exponents that settle the answer by their size alone
are answered before any power is computed, so that the work is bounded by the
length of the numeral and not by the number it writes.
-/

namespace StackMachine

/-- **What a decimal numeral denotes**: `significand * 10 ^ exponent`, with the
sign that was written (a zero keeps its sign). -/
structure Numeral where
  /-- Whether a minus sign was written. -/
  negative : Bool
  /-- The digits before and after the point, read as one number. -/
  significand : Nat
  /-- The written exponent less the number of digits after the point. -/
  exponent : Int
  deriving DecidableEq

namespace Numeral

/-- Takes an optional sign off the front, and says whether it was a minus. -/
def splitSign : List Char → Bool × List Char
  | '-' :: rest => (true, rest)
  | '+' :: rest => (false, rest)
  | rest => (false, rest)

/-- Takes the fractional digits off the front: those behind a point, if there is
one. -/
def splitFraction : List Char → List Char × List Char
  | '.' :: rest => (rest.takeWhile Char.isDigit, rest.dropWhile Char.isDigit)
  | rest => ([], rest)

/-- The exponent written by what follows the digits: nothing at all, or a mark, an
optional sign and at least one digit. -/
def readExponent? : List Char → Option Int
  | [] => some 0
  | mark :: rest =>
    if mark = 'e' ∨ mark = 'E' then
      let (negative, ds) := splitSign rest
      if ds ≠ [] ∧ ds.all Char.isDigit then
        let size : Int := Decimal.value ds
        some (if negative then -size else size)
      else none
    else none

/-- **Reads a numeral**, or nothing if the characters do not form one. -/
def read? (cs : List Char) : Option Numeral :=
  let (negative, cs) := splitSign cs
  let whole := cs.takeWhile Char.isDigit
  let (fraction, rest) := splitFraction (cs.dropWhile Char.isDigit)
  if whole = [] ∧ fraction = [] then none
  else
    (readExponent? rest).map fun exponent =>
      ⟨negative, Decimal.value (whole ++ fraction), exponent - fraction.length⟩

/-- The pattern nearest to `significand * 10 ^ exponent`.

As `10 ^ n` is at least `2 ^ (3 * n)`, an exponent of 342 or more takes every
significand but zero past the greatest double, and a significand of fewer than
`3 * n - 1076` bits is brought by `10 ^ -n` below half of the least one. -/
def nearestPattern (significand : Nat) : Int → Nat
  | .ofNat n =>
    if significand = 0 then 0
    else if 342 ≤ n then Binary64.infinityPattern
    else Binary64.nearestPattern (significand * Nat.pow 10 n * Binary64.unitsPerOne) 1
  | .negSucc n =>
    if significand.log2 + 1077 ≤ 3 * (n + 1) then 0
    else Binary64.nearestPattern (significand * Binary64.unitsPerOne) (Nat.pow 10 (n + 1))

/-- The double nearest to a numeral, with the numeral's sign. -/
def toBinary64 (n : Numeral) : Binary64 :=
  Binary64.ofPattern n.negative (nearestPattern n.significand n.exponent)

end Numeral

/-- **Reads a double**: a numeral, or a word for infinity or for what is no number, in letters
of either size and with an optional sign. -/
def Binary64.read? (cs : List Char) : Option Binary64 :=
  let (negative, word) := Numeral.splitSign cs
  let letters := word.map Char.toLower
  if letters = ['i', 'n', 'f'] ∨ letters = ['i', 'n', 'f', 'i', 'n', 'i', 't', 'y'] then
    some (infinity negative)
  else if letters = ['n', 'a', 'n'] then some (ofPattern negative nan.pattern)
  else (Numeral.read? cs).map Numeral.toBinary64

end StackMachine

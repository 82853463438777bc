/-!
# Blank characters and words

Words of a line are what stands between blanks. A blank is a character with the
Unicode property `White_Space`: twenty-five characters, of which six are in ASCII.
The zero-width spaces, the separators U+001C to U+001F and the byte order mark are
not among them, so they are letters of a word like any other.
-/

namespace StackMachine

namespace Text

/-- The code points of the blank characters as ranges with both ends included, in
ascending order. -/
def blankRanges : List (Nat × Nat) :=
  [(0x09, 0x0D), (0x20, 0x20), (0x85, 0x85), (0xA0, 0xA0), (0x1680, 0x1680),
    (0x2000, 0x200A), (0x2028, 0x2029), (0x202F, 0x202F), (0x205F, 0x205F),
    (0x3000, 0x3000)]

/-- Whether a character is blank. -/
def isBlank (c : Char) : Bool :=
  blankRanges.any fun (first, last) => first ≤ c.toNat && c.toNat ≤ last

/-- The words of a line: its longest runs of characters that are not blank. -/
def words (cs : List Char) : List (List Char) :=
  (cs.splitOnP isBlank).filter fun w => !w.isEmpty

/-- The line without the blanks at its two ends. -/
def strip (cs : List Char) : List Char :=
  ((cs.dropWhile isBlank).reverse.dropWhile isBlank).reverse

/-- There are twenty-five blank characters. -/
theorem blankRanges_count :
    blankRanges.foldl (fun count (first, last) => count + (last + 1 - first)) 0 = 25 := by
  decide

/-- Every character that the language itself counts as white space is blank. -/
theorem isBlank_of_isWhitespace {c : Char} (h : c.isWhitespace = true) :
    isBlank c = true := by
  simp only [Char.isWhitespace, Bool.or_eq_true, decide_eq_true_eq] at h
  rcases h with ((h | h) | h) | h <;> subst h <;> decide

/-- A word is never empty. -/
theorem ne_nil_of_mem_words {cs w : List Char} (h : w ∈ words cs) : w ≠ [] := by
  rintro rfl
  simp [words] at h

end Text

end StackMachine

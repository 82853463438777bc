import Mathlib.Data.List.Basic
import Mathlib.Data.List.TakeWhile
import StackMachine.Literal

/-!
# What a literal looks like

A literal that denotes a number is a numeral. What that is, is said here once more and without a
reader: an optional sign, digits among which there may be a point, and perhaps an exponent
(`Numeral.Writes`). The grammar says as well what is written, so that there is one numeral, and
only one, behind every text of that form; the reader finds it and takes nothing else
(`Numeral.read?_eq_some_iff`).

A double can be written in other ways too. Infinity, and what is no number, have names. These are
kept out of the literals by a look at the characters (`Numeral.isPart`) before anything is read.
The look is a loose one, and lets through much that is no number, such as two points in a row; but
the reader turns that down. Together they take the numerals and nothing else
(`Value.ofLiteral?_grammar`).
-/

namespace StackMachine

namespace Numeral

/-! ## The grammar -/

/-- Digits, if there are any characters at all: the ten of ASCII. -/
def AreDigits (ds : List Char) : Prop := ∀ c ∈ ds, c.isDigit = true

/-- **An optional sign**, and whether it is a minus. -/
inductive WritesSign : List Char → Bool → Prop where
  /-- No sign. -/
  | absent : WritesSign [] false
  /-- A plus. -/
  | plus : WritesSign ['+'] false
  /-- A minus. -/
  | minus : WritesSign ['-'] true

/-- **Digits with an optional point**: which number they are without the point, and how many of
them are behind it. -/
inductive WritesDecimal : List Char → Nat → Nat → Prop where
  /-- Digits and no point. -/
  | whole {ds : List Char} (filled : ds ≠ []) (digits : AreDigits ds) :
      WritesDecimal ds (Decimal.value ds) 0
  /-- Digits, a point, and perhaps further digits. -/
  | pointed {ds fs : List Char} (filled : ds ≠ []) (digits : AreDigits ds)
      (further : AreDigits fs) :
      WritesDecimal (ds ++ '.' :: fs) (Decimal.value (ds ++ fs)) fs.length
  /-- A point and digits behind it. -/
  | fraction {fs : List Char} (filled : fs ≠ []) (digits : AreDigits fs) :
      WritesDecimal ('.' :: fs) (Decimal.value fs) fs.length

/-- **An optional exponent**, and its value. -/
inductive WritesExponent : List Char → Int → Prop where
  /-- No exponent. -/
  | absent : WritesExponent [] 0
  /-- A mark, an optional sign and digits. -/
  | marked {mark : Char} {sign ds : List Char} {negative : Bool} (isMark : mark = 'e' ∨ mark = 'E')
      (signed : WritesSign sign negative) (filled : ds ≠ []) (digits : AreDigits ds) :
      WritesExponent (mark :: (sign ++ ds))
        (if negative then -(Decimal.value ds : Int) else (Decimal.value ds : Int))

/-- **A text that is a numeral**, and what it writes. -/
inductive Writes : List Char → Numeral → Prop where
  /-- A sign, digits and an exponent, one behind the other and with nothing around them. -/
  | of {sign decimal mark : List Char} {negative : Bool} {significand places : Nat} {exponent : Int}
      (signed : WritesSign sign negative) (digits : WritesDecimal decimal significand places)
      (scaled : WritesExponent mark exponent) :
      Writes (sign ++ (decimal ++ mark)) ⟨negative, significand, exponent - places⟩

variable {cs ds fs rest : List Char} {negative : Bool} {exponent : Int} {n : Numeral}

/-! ## Whatever is written is read -/

theorem WritesSign.splitSign (signed : WritesSign cs negative)
    (bare : ∀ c ∈ rest.head?, c ≠ '-' ∧ c ≠ '+') : splitSign (cs ++ rest) = (negative, rest) := by
  cases signed with
  | plus | minus => rfl
  | absent =>
    cases rest with
    | nil => rfl
    | cons c rest =>
      obtain ⟨hminus, hplus⟩ := bare c rfl
      rw [List.nil_append, Numeral.splitSign]
      · exact fun other heq => hminus (List.cons.inj heq).1
      · exact fun other heq => hplus (List.cons.inj heq).1

/-- No digit is a sign. -/
theorem not_sign_of_areDigits (digits : AreDigits ds) {c : Char} (hc : c ∈ ds.head?) :
    c ≠ '-' ∧ c ≠ '+' := by
  have hdigit : c.isDigit = true := digits c (List.mem_of_head? hc)
  constructor <;> (rintro rfl; exact absurd hdigit (by decide))

/-- Digits are read up to where an exponent or nothing follows. -/
theorem WritesExponent.takeWhile (scaled : WritesExponent rest exponent) :
    rest.takeWhile Char.isDigit = [] ∧ rest.dropWhile Char.isDigit = rest := by
  cases scaled with
  | absent => exact ⟨rfl, rfl⟩
  | marked isMark signed filled digits => rcases isMark with rfl | rfl <;> exact ⟨rfl, rfl⟩

theorem takeWhile_digits (digits : AreDigits ds) (hstop : rest.takeWhile Char.isDigit = []) :
    (ds ++ rest).takeWhile Char.isDigit = ds := by
  rw [List.takeWhile_append_of_pos digits, hstop, List.append_nil]

theorem dropWhile_digits (digits : AreDigits ds) (hstop : rest.dropWhile Char.isDigit = rest) :
    (ds ++ rest).dropWhile Char.isDigit = rest := by
  rw [List.dropWhile_append_of_pos digits, hstop]

theorem WritesExponent.splitFraction (scaled : WritesExponent rest exponent) :
    splitFraction rest = ([], rest) := by
  cases scaled with
  | absent => rfl
  | marked isMark signed filled digits => rcases isMark with rfl | rfl <;> rfl

/-- **An exponent is read.** -/
theorem WritesExponent.readExponent? (scaled : WritesExponent cs exponent) :
    readExponent? cs = some exponent := by
  cases scaled with
  | absent => rfl
  | @marked mark sign ds negative isMark signed filled digits =>
    have hsplit : Numeral.splitSign (sign ++ ds) = (negative, ds) :=
      signed.splitSign fun c hc => not_sign_of_areDigits digits hc
    rw [Numeral.readExponent?, if_pos isMark, hsplit]
    exact if_pos ⟨filled, List.all_eq_true.2 digits⟩

/-- In front of an exponent, or of nothing, digits are read with their point. -/
theorem WritesDecimal.split {significand places : Nat}
    (digits : WritesDecimal cs significand places) (scaled : WritesExponent rest exponent) :
    ∃ whole fraction, (cs ++ rest).takeWhile Char.isDigit = whole ∧
      Numeral.splitFraction ((cs ++ rest).dropWhile Char.isDigit) = (fraction, rest) ∧
      ¬(whole = [] ∧ fraction = []) ∧
      Decimal.value (whole ++ fraction) = significand ∧ fraction.length = places := by
  obtain ⟨htake, hdrop⟩ := scaled.takeWhile
  -- A point ends the digits in front of it.
  have hpoint : ∀ tail : List Char, ('.' :: tail).takeWhile Char.isDigit = [] ∧
      ('.' :: tail).dropWhile Char.isDigit = '.' :: tail := fun tail => ⟨rfl, rfl⟩
  have hfraction : ∀ fs, AreDigits fs →
      Numeral.splitFraction ('.' :: (fs ++ rest)) = (fs, rest) := fun fs hfs =>
    Prod.ext (takeWhile_digits hfs htake) (dropWhile_digits hfs hdrop)
  cases digits with
  | whole filled digits =>
    refine ⟨cs, [], takeWhile_digits digits htake, ?_, fun h => filled h.1, ?_, rfl⟩
    · rw [dropWhile_digits digits hdrop, scaled.splitFraction]
    · rw [List.append_nil]
  | @pointed ds fs filled digits further =>
    rw [List.append_assoc, List.cons_append]
    refine ⟨ds, fs, takeWhile_digits digits (hpoint _).1, ?_, fun h => filled h.1, rfl, rfl⟩
    rw [dropWhile_digits digits (hpoint _).2, hfraction fs further]
  | @fraction fs filled digits =>
    refine ⟨[], fs, (hpoint _).1, ?_, fun h => filled h.2, rfl, rfl⟩
    rw [List.cons_append, (hpoint _).2, hfraction fs digits]

theorem WritesDecimal.bare {significand places : Nat} (digits : WritesDecimal cs significand places)
    (rest : List Char) : ∀ c ∈ (cs ++ rest).head?, c ≠ '-' ∧ c ≠ '+' := by
  cases digits with
  | whole filled digits =>
    rw [List.head?_append_of_ne_nil _ filled]
    exact fun c hc => not_sign_of_areDigits digits hc
  | pointed filled digits further =>
    rw [List.append_assoc, List.head?_append_of_ne_nil _ filled]
    exact fun c hc => not_sign_of_areDigits digits hc
  | fraction filled digits =>
    intro c hc
    cases hc
    decide

/-- **A numeral is read**, as what is written. -/
theorem Writes.read? (h : Writes cs n) : read? cs = some n := by
  cases h with
  | @of sign decimal mark negative significand places exponent signed digits scaled =>
    obtain ⟨whole, fraction, htake, hsplit, hfilled, rfl, rfl⟩ := digits.split scaled
    unfold Numeral.read?
    rw [signed.splitSign (digits.bare mark)]
    dsimp only
    rw [htake, hsplit]
    dsimp only
    rw [if_neg hfilled, scaled.readExponent?, Option.map_some]

/-! ## Whatever is read is written -/

theorem writesSign_of_splitSign (h : splitSign cs = (negative, rest)) :
    ∃ sign, WritesSign sign negative ∧ cs = sign ++ rest := by
  unfold splitSign at h
  split at h <;> cases h
  · exact ⟨_, .minus, rfl⟩
  · exact ⟨_, .plus, rfl⟩
  · exact ⟨_, .absent, rfl⟩

theorem areDigits_takeWhile (cs : List Char) : AreDigits (cs.takeWhile Char.isDigit) :=
  fun _ hc => List.mem_takeWhile_imp hc

theorem splitFraction_cases (h : splitFraction cs = (fs, rest)) :
    (fs = [] ∧ cs = rest) ∨ AreDigits fs ∧ cs = '.' :: (fs ++ rest) := by
  unfold splitFraction at h
  split at h <;> cases h
  · exact Or.inr ⟨areDigits_takeWhile _, congrArg _ List.takeWhile_append_dropWhile.symm⟩
  · exact Or.inl ⟨rfl, rfl⟩

/-- **What is read as an exponent is one.** -/
theorem writesExponent_of_readExponent? (h : readExponent? cs = some exponent) :
    WritesExponent cs exponent := by
  unfold readExponent? at h
  split at h
  · cases h
    exact .absent
  · rename_i mark rest
    split at h
    · rename_i isMark
      generalize hsplit : splitSign rest = parts at h
      obtain ⟨negative, ds⟩ := parts
      obtain ⟨sign, signed, rfl⟩ := writesSign_of_splitSign hsplit
      dsimp only at h
      split at h
      · rename_i hds
        cases h
        exact .marked isMark signed hds.1 (List.all_eq_true.1 hds.2)
      · exact nomatch h
    · exact nomatch h

/-- **What is read as a numeral is one.** -/
theorem writes_of_read? (h : read? cs = some n) : Writes cs n := by
  unfold read? at h
  generalize hsign : splitSign cs = parts at h
  obtain ⟨negative, tail⟩ := parts
  obtain ⟨sign, signed, rfl⟩ := writesSign_of_splitSign hsign
  dsimp only at h
  generalize hfraction : splitFraction (tail.dropWhile Char.isDigit) = parts at h
  obtain ⟨fraction, mark⟩ := parts
  dsimp only at h
  split at h
  · exact nomatch h
  · rename_i hfilled
    obtain ⟨exponent, hexponent, rfl⟩ := Option.map_eq_some_iff.1 h
    have scaled := writesExponent_of_readExponent? hexponent
    have whole := areDigits_takeWhile tail
    have htail : tail = tail.takeWhile Char.isDigit ++ tail.dropWhile Char.isDigit :=
      List.takeWhile_append_dropWhile.symm
    generalize tail.takeWhile Char.isDigit = ds at *
    generalize tail.dropWhile Char.isDigit = after at *
    subst htail
    rcases splitFraction_cases hfraction with ⟨rfl, rfl⟩ | ⟨further, rfl⟩
    · rw [List.append_nil]
      exact .of signed (.whole (fun hds => hfilled ⟨hds, rfl⟩) whole) scaled
    · rw [← List.cons_append, ← List.append_assoc ds]
      refine .of signed ?_ scaled
      cases ds with
      | nil => exact .fraction (fun hfs => hfilled ⟨rfl, hfs⟩) further
      | cons d ds => exact .pointed (List.cons_ne_nil _ _) whole further

/-- **The reader takes numerals and nothing else.** -/
theorem read?_eq_some_iff : Numeral.read? cs = some n ↔ Writes cs n :=
  ⟨writes_of_read?, Writes.read?⟩

/-! ## The look at the characters -/

theorem isPart_of_isDigit {c : Char} (h : c.isDigit = true) : isPart c = true := by
  simp [isPart, h]

theorem AreDigits.all_isPart (digits : AreDigits ds) : ds.all isPart = true :=
  List.all_eq_true.2 fun c hc => isPart_of_isDigit (digits c hc)

theorem AreDigits.any_isDigit (digits : AreDigits ds) (filled : ds ≠ []) :
    ds.any Char.isDigit = true := by
  obtain ⟨c, rest, rfl⟩ := List.exists_cons_of_ne_nil filled
  exact List.any_eq_true.2 ⟨c, List.mem_cons_self, digits c List.mem_cons_self⟩

theorem WritesSign.all_isPart (signed : WritesSign cs negative) : cs.all isPart = true := by
  cases signed <;> decide

theorem WritesDecimal.looks {significand places : Nat}
    (digits : WritesDecimal cs significand places) :
    cs.all isPart = true ∧ cs.any Char.isDigit = true := by
  have hpoint : isPart '.' = true := by decide
  cases digits with
  | whole filled digits => exact ⟨digits.all_isPart, digits.any_isDigit filled⟩
  | pointed filled digits further =>
    rw [List.all_append, List.all_cons, List.any_append, digits.all_isPart, further.all_isPart,
      hpoint, digits.any_isDigit filled]
    exact ⟨rfl, rfl⟩
  | fraction filled digits =>
    rw [List.all_cons, List.any_cons, hpoint, digits.all_isPart, digits.any_isDigit filled]
    exact ⟨rfl, rfl⟩

theorem WritesExponent.all_isPart (scaled : WritesExponent cs exponent) :
    cs.all isPart = true := by
  cases scaled with
  | absent => rfl
  | @marked mark sign ds negative isMark signed filled digits =>
    have hmark : isPart mark = true := by rcases isMark with rfl | rfl <;> decide
    rw [List.all_cons, List.all_append, hmark, signed.all_isPart, digits.all_isPart]
    rfl

/-- **A numeral passes the look at its characters.** -/
theorem Writes.looks (h : Writes cs n) :
    (cs.all isPart && cs.any Char.isDigit) = true := by
  cases h with
  | of signed digits scaled =>
    rw [List.all_append, List.all_append, List.any_append, List.any_append, signed.all_isPart,
      digits.looks.1, digits.looks.2, scaled.all_isPart, Bool.true_or, Bool.or_true]
    rfl

/-- There is no letter `n` among these characters, neither a small nor a capital one. -/
theorem toLower_ne_of_isPart {c : Char} (h : isPart c = true) : c.toLower ≠ 'n' := by
  simp only [isPart, Bool.or_eq_true, beq_iff_eq] at h
  rcases h with ((((hdigit | rfl) | rfl) | rfl) | rfl) | rfl
  · -- A digit comes before all letters, so it stays as it is.
    have hsmall : ¬(c.val ≥ 'A'.val ∧ c.val ≤ 'Z'.val) := by
      simp only [Char.isDigit, Bool.and_eq_true, decide_eq_true_eq] at hdigit
      exact fun hcapital => absurd (UInt32.le_trans hcapital.1 hdigit.2) (by decide)
    have hsame : c.toLower = c := dif_neg hsmall
    rw [hsame]
    rintro rfl
    exact absurd hdigit (by decide)
  all_goals decide

/-- **No name of a double passes it**: there is a letter `n` in each of them. -/
theorem read?_of_looks (looks : cs.all isPart = true) :
    Binary64.read? cs = (read? cs).map toBinary64 := by
  have hsplit : splitSign cs = ((splitSign cs).1, (splitSign cs).2) := rfl
  obtain ⟨sign, -, hcs⟩ := writesSign_of_splitSign hsplit
  have hletter : 'n' ∉ (splitSign cs).2.map Char.toLower := by
    intro hn
    obtain ⟨c, hc, hlower⟩ := List.mem_map.1 hn
    have hpart := List.all_eq_true.1 looks c (hcs ▸ List.mem_append_right _ hc)
    exact toLower_ne_of_isPart hpart hlower
  unfold Binary64.read?
  dsimp only
  rw [if_neg, if_neg]
  · intro heq
    exact hletter (heq ▸ by decide)
  · rintro (heq | heq) <;> exact hletter (heq ▸ by decide)

/-- **What a numeral is read as is a number**, though it may be an infinite one. -/
theorem isNaN_toBinary64 (n : Numeral) : n.toBinary64.isNaN = false := by
  have hle : nearestPattern n.significand n.exponent ≤ Binary64.infinityPattern := by
    unfold nearestPattern
    split
    · split
      · exact Nat.zero_le _
      · split
        · exact Nat.le_refl _
        · exact Binary64.nearestPattern_le _ _
    · split
      · exact Nat.zero_le _
      · exact Binary64.nearestPattern_le _ _
  have hlt : Binary64.infinityPattern < Binary64.signWeight := by decide
  rw [toBinary64, Binary64.isNaN, Binary64.pattern_ofPattern _ (Nat.lt_of_le_of_lt hle hlt)]
  exact decide_eq_false (Nat.not_lt.2 hle)

end Numeral

namespace Decimal

/-! ## The digits of a number -/

theorem areDigits_digits (n : Nat) : Numeral.AreDigits (digits n) := fun _ hc =>
  Nat.isDigit_of_mem_toDigits (by decide) (by decide) hc

theorem toList_column (fill : Char) (width n : Nat) :
    (column fill width n).toList = List.replicate (width - (digits n).length) fill ++ digits n := by
  rw [column, String.toList_ofList, List.leftpad]

theorem areDigits_column (width n : Nat) : Numeral.AreDigits (column '0' width n).toList := by
  intro c hc
  rw [toList_column] at hc
  rcases List.mem_append.1 hc with hc | hc
  · rw [List.eq_of_mem_replicate hc]
    decide
  · exact areDigits_digits n c hc

theorem value_column (width n : Nat) : value (column '0' width n).toList = n := by
  rw [toList_column, value, Nat.ofDigitChars_append, Nat.ofDigitChars_replicate_zero, Nat.mul_zero]
  exact value_digits n

end Decimal

namespace Value

/-! ## Literals -/

/-- Apart from the three words, a literal is what the reader of numerals makes of it. -/
theorem ofLiteral?_of_ne {word : String} (hnil : word ≠ "nil") (htrue : word ≠ "true")
    (hfalse : word ≠ "false") :
    ofLiteral? word = (Numeral.read? word.toList).map fun n => .number n.toBinary64 := by
  unfold ofLiteral?
  split
  · exact absurd rfl hnil
  · exact absurd rfl htrue
  · exact absurd rfl hfalse
  · split
    · rename_i looks
      rw [Numeral.read?_of_looks (Bool.and_eq_true_iff.1 looks).1, Option.map_map]
      rfl
    · rename_i looks
      cases hread : Numeral.read? word.toList with
      | none => rfl
      | some n => exact absurd (Numeral.writes_of_read? hread).looks looks

/-- **What a word denotes as a literal.** -/
inductive Denotes : String → Value → Prop where
  /-- The absence of a value. -/
  | nil : Denotes "nil" .nil
  /-- A truth value. -/
  | yes : Denotes "true" (.bool true)
  /-- The other one. -/
  | no : Denotes "false" (.bool false)
  /-- The double nearest to what a numeral writes. -/
  | number {word : String} {n : Numeral} (written : Numeral.Writes word.toList n) :
      Denotes word (.number n.toBinary64)

/-- A numeral is none of the three words. -/
theorem ofLiteral?_of_writes {word : String} {n : Numeral}
    (written : Numeral.Writes word.toList n) :
    ofLiteral? word = some (.number n.toBinary64) := by
  have hne : ∀ other : String, Numeral.read? other.toList = none → word ≠ other := by
    rintro other hother rfl
    rw [written.read?] at hother
    exact nomatch hother
  rw [ofLiteral?_of_ne (hne "nil" rfl) (hne "true" rfl) (hne "false" rfl), written.read?,
    Option.map_some]

/-- **A literal is one of three words or a numeral**: an optional sign, digits with an optional
point, and an optional exponent. A word is read as the value that it denotes, and turned down if it
denotes none. A number that is denoted may be infinite, but it is always a number. -/
theorem ofLiteral?_grammar (word : String) :
    (∀ v, ofLiteral? word = some v ↔ Denotes word v) ∧
      (ofLiteral? word = none ↔ ∀ v, ¬Denotes word v) ∧
      ∀ x, Denotes word (.number x) → x.isNaN = false := by
  have hiff : ∀ v, ofLiteral? word = some v ↔ Denotes word v := by
    refine fun v => ⟨fun h => ?_, fun h => ?_⟩
    · by_cases hnil : word = "nil"
      · subst hnil
        cases h
        exact .nil
      by_cases htrue : word = "true"
      · subst htrue
        cases h
        exact .yes
      by_cases hfalse : word = "false"
      · subst hfalse
        cases h
        exact .no
      rw [ofLiteral?_of_ne hnil htrue hfalse] at h
      obtain ⟨n, hread, rfl⟩ := Option.map_eq_some_iff.1 h
      exact .number (Numeral.writes_of_read? hread)
    · cases h with
      | nil | yes | no => rfl
      | number written => exact ofLiteral?_of_writes written
  refine ⟨hiff, ?_, fun x h => ?_⟩
  · rw [Option.eq_none_iff_forall_ne_some]
    exact forall_congr' fun v => not_congr (hiff v)
  · cases h with
    | number written => exact Numeral.isNaN_toBinary64 _

/-- A sign, a point with digits on one side only, and an exponent with superfluous zeros: the word
denotes -50, and that is a number. -/
theorem ofLiteral?_grammar_bare_point :
    Denotes "-.5E+02" (.number (.ofPattern true 4632233691727265792)) ∧
      (Binary64.ofPattern true 4632233691727265792).isNaN = false := by
  have hread : ofLiteral? "-.5E+02" = some (.number (.ofPattern true 4632233691727265792)) := by
    decide +kernel
  obtain ⟨hiff, -, hnumber⟩ := ofLiteral?_grammar "-.5E+02"
  have hdenotes := (hiff _).1 hread
  exact ⟨hdenotes, hnumber _ hdenotes⟩

/-- Near misses: a digit is missing, there is a sign or a point too many, or it is a word. -/
example : ["-.", "1e", "1e+", "+-1", ".e5", "1.2.3", "inf", "-nan", "٣"].all
    (fun word => (ofLiteral? word).isNone) = true := by
  decide +kernel

end Value

end StackMachine

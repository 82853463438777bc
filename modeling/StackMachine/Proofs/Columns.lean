import Mathlib.Data.List.Basic
import StackMachine.Listing
import StackMachine.Proofs.Numerals

/-!
# The columns of a printed row

A row is data, but what somebody sees of it is a line of text. The line has three columns, and
nothing but the way they are written tells offset, line and instruction apart. Here they are told
apart: there is a reader for each column (`offsetColumn`, `lineColumn`, `instructionColumn`) that
knows the characters and not the row, and it finds what the row is about.

The offset is padded with zeros and so ends at the first blank; the line is padded with blanks and
so begins behind them, and ends at the next. All that is left is the instruction, which may have
blanks of its own. A row has no line feed in it, so the rows of a listing are its lines.

What the columns say can therefore be said of the printed rows, without a word about the data that
they were printed from.
-/

namespace StackMachine

namespace Listing

/-! ## Reading the columns -/

/-- **The offset column of a printed row**, which is the digits in front. -/
def offsetColumn (row : List Char) : Nat := Decimal.value (row.takeWhile Char.isDigit)

/-- **The line column of a printed row.** It stands behind the digits of the offset. -/
def lineColumn (row : List Char) : LineMark :=
  match (row.dropWhile Char.isDigit).dropWhile fun c => c == ' ' with
  | '|' :: _ => .same
  | '?' :: _ => .unknown
  | cs => .line (Decimal.value (cs.takeWhile Char.isDigit))

/-- **The instruction column of a printed row**: all there is behind the blank that ends the line
column. -/
def instructionColumn (row : List Char) : List Char :=
  (((row.dropWhile Char.isDigit).dropWhile fun c => c == ' ').dropWhile fun c => c != ' ').drop 1

/-- A mark without the blanks around it. -/
def LineMark.symbols : LineMark → List Char
  | line number => Decimal.digits number
  | same => ['|']
  | unknown => ['?']

/-- The characters of a row. -/
theorem toList_text (r : Row) :
    r.text.toList = (Decimal.column '0' 4 r.offset).toList
      ++ ' ' :: (r.mark.text.toList ++ r.content.text.toList) := by
  rw [Row.text, String.toList_append, String.toList_append, String.toList_append,
    List.append_assoc, List.append_assoc]
  rfl

/-- **The offset can be read off a printed row.** -/
theorem offsetColumn_text (r : Row) : offsetColumn r.text.toList = r.offset := by
  rw [offsetColumn, toList_text,
    Numeral.takeWhile_digits (Decimal.areDigits_column 4 r.offset) rfl, Decimal.value_column]

theorem LineMark.toList_text (mark : LineMark) :
    ∃ n, mark.text.toList = List.replicate n ' ' ++ (mark.symbols ++ [' ']) := by
  cases mark with
  | same | unknown => exact ⟨3, rfl⟩
  | line number =>
    refine ⟨4 - (Decimal.digits number).length, ?_⟩
    rw [text, String.toList_append, Decimal.toList_column, List.append_assoc]
    rfl

theorem LineMark.symbols_ne_nil (mark : LineMark) : mark.symbols ≠ [] := by
  cases mark with
  | same | unknown => exact List.cons_ne_nil _ _
  | line number => exact Nat.toDigits_ne_nil

theorem LineMark.ne_space_of_mem_symbols {mark : LineMark} {c : Char} (h : c ∈ mark.symbols) :
    c ≠ ' ' := by
  rintro rfl
  cases mark with
  | same | unknown => exact absurd h (by decide)
  | line number => exact absurd (Decimal.areDigits_digits number ' ' h) (by decide)

/-- **Behind the offset and the blanks there is the mark**, and the instruction behind it. -/
theorem dropWhile_text (r : Row) :
    ((r.text.toList.dropWhile Char.isDigit).dropWhile fun c => c == ' ')
      = r.mark.symbols ++ ' ' :: r.content.text.toList := by
  obtain ⟨n, hmark⟩ := r.mark.toList_text
  obtain ⟨symbol, symbols, hsymbols⟩ := List.exists_cons_of_ne_nil r.mark.symbols_ne_nil
  have hsymbol : symbol ≠ ' ' :=
    LineMark.ne_space_of_mem_symbols (hsymbols ▸ List.mem_cons_self)
  have hblanks : ∀ c ∈ ' ' :: List.replicate n ' ', (c == ' ') = true := by
    simp [List.mem_replicate]
  have hsplit : ' ' :: (r.mark.text.toList ++ r.content.text.toList)
      = (' ' :: List.replicate n ' ') ++ (r.mark.symbols ++ ' ' :: r.content.text.toList) := by
    rw [hmark, List.append_assoc, List.append_assoc]
    rfl
  rw [Listing.toList_text, Numeral.dropWhile_digits (Decimal.areDigits_column 4 r.offset) rfl,
    hsplit, List.dropWhile_append_of_pos hblanks, hsymbols, List.cons_append,
    List.dropWhile_cons_of_neg (by simpa using hsymbol)]

/-- **The line column can be read off a printed row.** -/
theorem lineColumn_text (r : Row) : lineColumn r.text.toList = r.mark := by
  rw [lineColumn, dropWhile_text]
  cases r.mark with
  | same | unknown => rfl
  | line number =>
    have hdigits : ∀ c ∈ LineMark.symbols (.line number), c.isDigit = true :=
      Decimal.areDigits_digits number
    obtain ⟨d, ds, hsymbols⟩ :=
      List.exists_cons_of_ne_nil (LineMark.line number).symbols_ne_nil
    have hdigit : d.isDigit = true := hdigits d (hsymbols ▸ List.mem_cons_self)
    -- A digit is neither a bar nor a question mark.
    split
    · rename_i heq
      rw [hsymbols] at heq
      rw [(List.cons.inj heq).1] at hdigit
      exact absurd hdigit (by decide)
    · rename_i heq
      rw [hsymbols] at heq
      rw [(List.cons.inj heq).1] at hdigit
      exact absurd hdigit (by decide)
    · rw [Numeral.takeWhile_digits hdigits rfl]
      exact congrArg LineMark.line (Decimal.value_digits number)

/-- **The instruction column can be read off a printed row.** -/
theorem instructionColumn_text (r : Row) :
    instructionColumn r.text.toList = r.content.text.toList := by
  have hsymbols : ∀ c ∈ r.mark.symbols, (c != ' ') = true := fun c hc =>
    bne_iff_ne.2 (LineMark.ne_space_of_mem_symbols hc)
  rw [instructionColumn, dropWhile_text, List.dropWhile_append_of_pos hsymbols]
  rfl

/-! ## Two things that an instruction column may say -/

theorem toList_loadColumn_append (back : String) :
    (loadColumn ++ back).toList = "CONSTANT         ".toList ++ back.toList := by
  rw [String.toList_append]
  rfl

/-- Texts that begin with different characters differ, whatever there is behind. -/
theorem append_ne_of_head?_ne {cs ds back : List Char} (hfilled : cs ≠ [])
    (hne : cs.head? ≠ ds.head?) : cs ++ back ≠ ds := by
  rintro rfl
  exact hne (List.head?_append_of_ne_nil _ hfilled).symm

/-- A number in its column begins with a blank or with a digit. -/
theorem head?_column_ne (width n : Nat) : (Decimal.column ' ' width n).toList.head? ≠ some '<' := by
  intro h
  rw [Decimal.toList_column] at h
  rcases List.mem_append.1 (List.mem_of_mem_head? h) with hblank | hdigit
  · exact absurd (List.eq_of_mem_replicate hblank) (by decide)
  · exact absurd (Decimal.areDigits_digits n _ hdigit) (by decide)

/-- A load with its index does not read as one that lacks it. -/
theorem load_ne_missingOperand (index : UInt8) (back : String) :
    (loadColumn ++ Decimal.column ' ' 4 index.toNat ++ back).toList
      ≠ (loadColumn ++ "<missing operand>").toList := by
  intro h
  rw [String.append_assoc, toList_loadColumn_append (Decimal.column ' ' 4 index.toNat ++ back),
    toList_loadColumn_append "<missing operand>"] at h
  have hfilled : (Decimal.column ' ' 4 index.toNat).toList ≠ [] := by
    rw [Decimal.toList_column]
    exact List.append_ne_nil_of_right_ne_nil _ Nat.toDigits_ne_nil
  have hhead : (Decimal.column ' ' 4 index.toNat).toList.head?
      ≠ "<missing operand>".toList.head? := head?_column_ne 4 index.toNat
  have hback := List.append_cancel_left h
  rw [String.toList_append] at hback
  exact append_ne_of_head?_ne hfilled hhead hback

/-- **An operand is said to be missing only where it is.** -/
theorem Content.text_eq_missingOperand_iff {content : Content} :
    content.text.toList = "CONSTANT         <missing operand>".toList
      ↔ content = .missingOperand := by
  constructor
  · intro h
    cases content with
    | missingOperand => rfl
    | instruction op => exact absurd h (by cases op <;> decide)
    | constant index v =>
      have hload := load_ne_missingOperand index (" '" ++ v.text ++ "'")
      rw [← String.append_assoc, ← String.append_assoc] at hload
      exact absurd h hload
    | invalid index => exact absurd h (load_ne_missingOperand index _)
    | unknown byte =>
      exact absurd (String.toList_append.symm.trans h)
        (append_ne_of_head?_ne (by decide) (by decide))
    | endOfCode => exact absurd h (by decide)
  · rintro rfl
    rfl

/-- **The code is said to be over only where it is.** -/
theorem Content.text_eq_endOfCode_iff {content : Content} :
    content.text.toList = "<end of chunk>".toList ↔ content = .endOfCode := by
  -- Everything else begins with a capital letter.
  have hload : ∀ back : String, (loadColumn ++ back).toList ≠ "<end of chunk>".toList := by
    intro back h
    rw [toList_loadColumn_append] at h
    exact append_ne_of_head?_ne (by decide) (by decide) h
  constructor
  · intro h
    cases content with
    | endOfCode => rfl
    | instruction op => exact absurd h (by cases op <;> decide)
    | constant index v =>
      have hconstant := hload (Decimal.column ' ' 4 index.toNat ++ (" '" ++ v.text ++ "'"))
      rw [← String.append_assoc, ← String.append_assoc, ← String.append_assoc] at hconstant
      exact absurd h hconstant
    | invalid index =>
      have hinvalid := hload (Decimal.column ' ' 4 index.toNat ++ " <invalid>")
      rw [← String.append_assoc] at hinvalid
      exact absurd h hinvalid
    | missingOperand => exact absurd h (hload _)
    | unknown byte =>
      exact absurd (String.toList_append.symm.trans h)
        (append_ne_of_head?_ne (by decide) (by decide))
  · rintro rfl
    rfl

/-! ## Rows are lines of text -/

/-- A text that has no line feed in it. -/
def IsOneLine (text : String) : Prop := '\n' ∉ text.toList

instance (text : String) : Decidable (IsOneLine text) :=
  inferInstanceAs (Decidable ('\n' ∉ text.toList))

theorem IsOneLine.append {front back : String} (h : IsOneLine front) (h' : IsOneLine back) :
    IsOneLine (front ++ back) := by
  rw [IsOneLine, String.toList_append, List.mem_append, not_or]
  exact ⟨h, h'⟩

theorem not_mem_of_areDigits {ds : List Char} (digits : Numeral.AreDigits ds) : '\n' ∉ ds :=
  fun hmem => absurd (digits _ hmem) (by decide)

theorem isOneLine_text (n : Nat) : IsOneLine (Decimal.text n) := by
  rw [IsOneLine, Decimal.text, String.toList_ofList]
  exact not_mem_of_areDigits (Decimal.areDigits_digits n)

theorem isOneLine_column {fill : Char} (hfill : fill ≠ '\n') (width n : Nat) :
    IsOneLine (Decimal.column fill width n) := by
  rw [IsOneLine, Decimal.toList_column, List.mem_append, not_or]
  exact ⟨fun hmem => hfill (List.eq_of_mem_replicate hmem).symm,
    not_mem_of_areDigits (Decimal.areDigits_digits n)⟩

theorem isOneLine_numberText (x : Binary64) : IsOneLine (Value.numberText x) := by
  have hsign : IsOneLine (if x.isNegative then "-" else "") := by cases x.isNegative <;> decide
  unfold Value.numberText
  split
  · decide
  · dsimp only
    split
    · exact hsign.append (by decide)
    · exact hsign.append (((isOneLine_text _).append (by decide)).append
        (isOneLine_column (by decide) _ _))

theorem isOneLine_valueText (v : Value) : IsOneLine v.text := by
  cases v with
  | nil => decide
  | bool b => cases b <;> decide
  | number x => exact isOneLine_numberText x

theorem LineMark.isOneLine (mark : LineMark) : IsOneLine mark.text := by
  cases mark with
  | same | unknown => decide
  | line number => exact (isOneLine_column (by decide) 4 number).append (by decide)

theorem Content.isOneLine (content : Content) : IsOneLine content.text := by
  have hload : ∀ index : UInt8, IsOneLine (loadColumn ++ Decimal.column ' ' 4 index.toNat) :=
    fun index => IsOneLine.append (by decide) (isOneLine_column (by decide) _ _)
  cases content with
  | instruction op => cases op <;> decide
  | missingOperand | endOfCode => decide
  | unknown byte => exact IsOneLine.append (by decide) (isOneLine_text _)
  | invalid index => exact (hload index).append (by decide)
  | constant index v =>
    exact (((hload index).append (by decide)).append (isOneLine_valueText v)).append (by decide)

/-- **A row is a single line.** -/
theorem Row.isOneLine (r : Row) : IsOneLine r.text :=
  (((isOneLine_column (by decide) 4 r.offset).append (by decide)).append r.mark.isOneLine).append
    r.content.isOneLine

end Listing

end StackMachine

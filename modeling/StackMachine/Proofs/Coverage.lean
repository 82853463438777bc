import Mathlib.Data.List.Pairwise
import StackMachine.Proofs.Composition

/-!
# A listing leaves nothing out

A chunk of any bytes at all is listed in rows, and the rows share the bytes out among them. Each
byte of the code is shown by one row and by no other, as its code byte or as the operand of the
load that the row is about; and what the row shows is the byte that stands there
(`rows_share_out_code`).

The listing takes whole instructions as long as there are any, and only where the code stops short
does it have to do with less. A load may be the last byte. Its row then leads one past the end, says
that the operand is missing, and has no other behind it. So the rows need not look at how long
the code is, and still none of them is about an offset where there is nothing.

All of this is read off what a row can be that is about a byte of the code (`Row.Fits`), of which
there are three kinds, and off where its successor stands. It holds of the listing as it is printed,
since the rows are what is printed, and their columns say what they are about.
-/

namespace StackMachine

namespace Listing

/-! ## What a row shows of the code -/

/-- The byte that is shown as a code byte, be it that of an instruction or not. -/
def Content.code? : Content → Option UInt8
  | instruction op => some op.byte
  | constant .. | invalid _ | missingOperand => some Opcode.constant.byte
  | unknown byte => some byte
  | endOfCode => none

/-- The byte that is shown as an operand. -/
def Content.operand? : Content → Option UInt8
  | constant index _ | invalid index => some index
  | _ => none

/-- **A row covers a byte at an offset**: it shows it as the code byte that it is about, or as the
operand behind that one. -/
inductive Row.Covers (r : Row) : UInt8 → Nat → Prop where
  /-- The code byte. -/
  | code {b : UInt8} (shown : r.content.code? = some b) : Covers r b r.offset
  /-- The operand, which only a load has. -/
  | operand {b : UInt8} (shown : r.content.operand? = some b) : Covers r b (r.offset + 1)

/-- **What a row can be that is about a byte of the code.** -/
inductive Row.Fits (c : Chunk) (r : Row) : Prop where
  /-- The byte is all there is to show, as an instruction or as none. -/
  | single {b : UInt8} (code : c.byte? r.offset = some b) (shown : r.content.code? = some b)
      (bare : r.content.operand? = none) (whole : r.content ≠ .missingOperand)
      (next : r.next = r.offset + 1)
  /-- The byte is that of a load, and its operand is shown too. -/
  | pair {b index : UInt8} (code : c.byte? r.offset = some b) (shown : r.content.code? = some b)
      (operand : c.byte? (r.offset + 1) = some index) (named : r.content.operand? = some index)
      (whole : r.content ≠ .missingOperand) (next : r.next = r.offset + 2)
  /-- The byte is that of a load, and the last one. -/
  | cut {b : UInt8} (code : c.byte? r.offset = some b) (shown : r.content.code? = some b)
      (last : r.offset + 1 = c.size) (missing : r.content = .missingOperand)
      (next : r.next = r.offset + 2)

variable {c : Chunk} {offset i : Nat} {r : Row} {b : UInt8}

/-- **A row about a byte of the code is one of these.** -/
theorem fits_rowAt (h : offset < c.size) : (rowAt c offset).Fits c := by
  have hcode : c.byte? offset = some c.code[offset] := Array.getElem?_eq_getElem h
  generalize c.code[offset] = b at hcode
  -- All that matters of the row is its content, which is found byte by byte.
  obtain ⟨content, hcontent⟩ : ∃ content, contentAt c offset = content := ⟨_, rfl⟩
  have hrow : rowAt c offset = ⟨offset, markAt c offset, content⟩ := by rw [rowAt, hcontent]
  rw [hrow]
  rw [contentAt, hcode] at hcontent
  dsimp only at hcontent
  cases hop : Opcode.ofByte? b with
  | none =>
    rw [hop] at hcontent
    subst hcontent
    exact .single hcode rfl rfl (by simp) rfl
  | some op =>
    obtain rfl := Opcode.eq_byte_of_ofByte? hop
    rw [hop] at hcontent
    by_cases hload : op = .constant
    · subst hload
      dsimp only at hcontent
      cases hoperand : c.byte? (offset + 1) with
      | none =>
        rw [hoperand] at hcontent
        subst hcontent
        have hend : c.size ≤ offset + 1 := Array.getElem?_eq_none_iff.1 hoperand
        exact .cut hcode rfl (Nat.le_antisymm h hend) rfl rfl
      | some index =>
        rw [hoperand] at hcontent
        dsimp only at hcontent
        cases hfound : c.constant? index with
        | none =>
          rw [hfound] at hcontent
          subst hcontent
          exact .pair hcode rfl hoperand rfl (by simp) rfl
        | some v =>
          rw [hfound] at hcontent
          subst hcontent
          exact .pair hcode rfl hoperand rfl (by simp) rfl
    · have hplain : content = .instruction op := by
        cases op with
        | constant => exact absurd rfl hload
        | _ => exact hcontent.symm
      subst hplain
      exact .single hcode rfl rfl (by simp) (congrArg (offset + ·) (Opcode.size_eq_one hload))

namespace Row.Fits

theorem content_ne (h : r.Fits c) : r.content ≠ .endOfCode := by
  intro hend
  cases h with
  | single code shown | pair code shown | cut code shown =>
    rw [hend] at shown
    exact nomatch shown

/-- **A row leads past the end if its operand is missing, and only then**, and then by one. -/
theorem size_lt_next_iff (h : r.Fits c) : c.size < r.next ↔ r.content = .missingOperand := by
  cases h with
  | single code shown bare whole next =>
    have hlt := Chunk.lt_size_of_byte? code
    exact iff_of_false (by omega) whole
  | pair code shown operand named whole next =>
    have hlt := Chunk.lt_size_of_byte? operand
    exact iff_of_false (by omega) whole
  | cut code shown last missing next => exact iff_of_true (by omega) missing

theorem next_of_missing (h : r.Fits c) (missing : r.content = .missingOperand) :
    r.next = c.size + 1 := by
  cases h with
  | single code shown bare whole next => exact absurd missing whole
  | pair code shown operand named whole next => exact absurd missing whole
  | cut code shown last missing' next => omega

/-- **What a row shows stands there**, and from the row to the next one. -/
theorem of_covers (h : r.Fits c) (covers : r.Covers b i) :
    c.byte? i = some b ∧ r.offset ≤ i ∧ i < r.next := by
  cases covers with
  | code shown' =>
    cases h with
    | single code shown | pair code shown | cut code shown =>
      rw [code, ← shown]
      exact ⟨shown', Nat.le_refl _, r.lt_next⟩
  | operand shown' =>
    cases h with
    | single code shown bare => exact nomatch bare.symm.trans shown'
    | pair code shown operand named whole next =>
      rw [operand, ← named]
      exact ⟨shown', Nat.le_succ _, by omega⟩
    | cut code shown last missing =>
      rw [missing] at shown'
      exact nomatch shown'

/-- **What stands between a row and the next one is shown.** -/
theorem covers (h : r.Fits c) (byte : c.byte? i = some b) (hle : r.offset ≤ i)
    (hlt : i < r.next) : r.Covers b i := by
  have hinside := Chunk.lt_size_of_byte? byte
  rcases Nat.eq_or_lt_of_le hle with rfl | hgt
  · cases h with
    | single code shown | pair code shown | cut code shown =>
      exact .code (shown.trans (code.symm.trans byte))
  · cases h with
    | single code shown bare whole next => omega
    | pair code shown operand named whole next =>
      obtain rfl : r.offset + 1 = i := by omega
      exact .operand (named.trans (operand.symm.trans byte))
    | cut code shown last missing next => omega

end Row.Fits

/-! ## Rows one behind the other -/

theorem fits_of_mem_rowsFrom (h : r ∈ rowsFrom c offset) : r.Fits c := by
  fun_induction rowsFrom c offset with
  | case1 offset hlt ih =>
    rcases List.mem_cons.1 h with rfl | hrest
    · exact fits_rowAt hlt
    · exact ih hrest
  | case2 offset hge => cases h

/-- **A row does not begin before those above it have ended.** -/
theorem pairwise_next_le (c : Chunk) (offset : Nat) :
    (rowsFrom c offset).Pairwise fun r later => r.next ≤ later.offset := by
  fun_induction rowsFrom c offset with
  | case1 offset hlt ih =>
    exact List.pairwise_cons.2 ⟨fun later hlater => le_offset_of_mem_rowsFrom hlater, ih⟩
  | case2 offset hge => exact List.Pairwise.nil

/-- **Every byte from the first row on is covered.** -/
theorem exists_covers (byte : c.byte? i = some b) (hle : offset ≤ i) :
    ∃ r ∈ rowsFrom c offset, r.Covers b i := by
  fun_induction rowsFrom c offset with
  | case1 offset hlt ih =>
    by_cases hnext : i < (rowAt c offset).next
    · exact ⟨_, List.mem_cons_self, (fits_rowAt hlt).covers byte hle hnext⟩
    · obtain ⟨r, hr, hcovers⟩ := ih (Nat.le_of_not_lt hnext)
      exact ⟨r, List.mem_cons_of_mem _ hr, hcovers⟩
  | case2 offset hge =>
    exact absurd (Nat.lt_of_le_of_lt hle (Chunk.lt_size_of_byte? byte)) hge

/-- Two rows have no offset in common. -/
def Row.Apart (r r' : Row) : Prop := r.next ≤ r'.offset ∨ r'.next ≤ r.offset

instance : Std.Symm Row.Apart := ⟨fun _ _ => Or.symm⟩

/-- There are no more rows than bytes. -/
theorem length_rowsFrom_le (c : Chunk) (offset : Nat) :
    (rowsFrom c offset).length ≤ c.size - offset := by
  fun_induction rowsFrom c offset with
  | case1 offset hlt ih =>
    have hforward : offset < (rowAt c offset).next := (rowAt c offset).lt_next
    rw [List.length_cons]
    omega
  | case2 offset hge => exact Nat.zero_le _

/-- Rows that cover the same offset are the same. -/
theorem eq_of_covers {r' : Row} {b' : UInt8} (hr : r ∈ rows c) (hr' : r' ∈ rows c)
    (covers : r.Covers b i) (covers' : r'.Covers b' i) : r = r' := by
  by_contra hne
  have hapart : (rows c).Pairwise Row.Apart := (pairwise_next_le c 0).imp Or.inl
  have hends := (fits_of_mem_rowsFrom hr).of_covers covers
  have hends' := (fits_of_mem_rowsFrom hr').of_covers covers'
  rcases hapart.forall hr hr' hne with hle | hle <;> omega

/-- A row that leads past the end is the last one. -/
theorem getLast?_of_size_lt_next (hr : r ∈ rows c) (past : c.size < r.next) :
    (rows c).getLast? = some r := by
  obtain ⟨before, behind, hsplit⟩ := List.append_of_mem hr
  have hbehind : behind = [] := by
    refine List.eq_nil_iff_forall_not_mem.2 fun later hlater => ?_
    have hordered : (rows c).Pairwise _ := pairwise_next_le c 0
    have hmem : later ∈ rows c := by simp [hsplit, hlater]
    rw [hsplit] at hordered
    have hle := (List.pairwise_cons.1 (List.pairwise_append.1 hordered).2.1).1 later hlater
    cases fits_of_mem_rowsFrom hmem with
    | single code | pair code | cut code =>
      have := Chunk.lt_size_of_byte? code
      omega
  rw [hsplit, hbehind, List.getLast?_concat]

/-- **A listing shares the code out among its rows**, whatever bytes the code is made of. It is its
heading and these rows, each on a line of its own that begins with its offset. There are no more
rows than bytes; the first is about the first byte, and every other is about a later byte than the
one above it. Each byte is covered by just one row, as its code byte or as its operand, and no row
covers anything else. No row is about the end of the code, or says so. Where a row leads past the end
it says that an operand is missing, and where it says so it leads past the end: it is then the last
row, and one byte is what it lacks. -/
theorem rows_share_out_code (c : Chunk) :
    (∀ name : String,
        text c name
          = "== " ++ name ++ " ==\n" ++ String.join ((rows c).map fun r => r.text ++ "\n")) ∧
      (rows c).length ≤ c.size ∧
      (rows c).head?.map Row.offset = (if c.size = 0 then none else some 0) ∧
      ((rows c).Pairwise fun r later => r.offset < later.offset) ∧
      (∀ i b, c.byte? i = some b → ∃! r, r ∈ rows c ∧ r.Covers b i) ∧
      ∀ r ∈ rows c,
        ('\n' ∉ r.text.toList ∧ offsetColumn r.text.toList = r.offset) ∧
        (∀ b i, r.Covers b i → c.byte? i = some b) ∧
        r.content ≠ .endOfCode ∧
        instructionColumn r.text.toList ≠ "<end of chunk>".toList ∧
        (c.size < r.next ↔ r.content = .missingOperand) ∧
        (c.size < r.next ↔
          instructionColumn r.text.toList = "CONSTANT         <missing operand>".toList) ∧
        (c.size < r.next → (rows c).getLast? = some r ∧ r.next = c.size + 1) := by
  refine ⟨fun name => rfl, length_rowsFrom_le c 0, ?_, ?_, fun i b byte => ?_, fun r hr => ?_⟩
  · rw [rows]
    split
    · rename_i hempty
      rw [rowsFrom_of_eq hempty.symm]
      rfl
    · rename_i hsome
      rw [rowsFrom_of_lt (Nat.pos_of_ne_zero hsome)]
      rfl
  · exact (pairwise_next_le c 0).imp fun hle => Nat.lt_of_lt_of_le (Row.lt_next _) hle
  · obtain ⟨r, hr, hcovers⟩ := exists_covers byte (Nat.zero_le i)
    exact ⟨r, ⟨hr, hcovers⟩, fun other hother => eq_of_covers hother.1 hr hother.2 hcovers⟩
  · have hfits := fits_of_mem_rowsFrom hr
    have hmissing := hfits.size_lt_next_iff
    rw [instructionColumn_text]
    refine ⟨⟨r.isOneLine, offsetColumn_text r⟩, fun b i covers => (hfits.of_covers covers).1,
      hfits.content_ne, mt Content.text_eq_endOfCode_iff.1 hfits.content_ne, hmissing,
      hmissing.trans Content.text_eq_missingOperand_iff.symm, fun past => ?_⟩
    exact ⟨getLast?_of_size_lt_next hr past, hfits.next_of_missing (hmissing.1 past)⟩

/-- A load whose operand is the code byte of a load, a byte that is no instruction, and a load that
is cut off: the byte at offset one is in no row of its own, and the last row, which says that its
operand is missing, leads to offset five. -/
theorem rows_share_out_code_cut_load :
    ∃ c : Chunk, c = ⟨#[1, 1, 200, 1], #[], #[]⟩ ∧
      (rows c).map (fun r => (r.offset, r.content))
        = [(0, .invalid 1), (2, .unknown 200), (3, .missingOperand)] ∧
      text c programName
        = "== code ==\n0000    ? CONSTANT            1 <invalid>\n0002    | Unknown opcode 200\n"
          ++ "0003    | CONSTANT         <missing operand>\n" ∧
      c.byte? 1 = some 1 ∧ (∃! r, r ∈ rows c ∧ r.Covers 1 1) ∧
      rowAt c 0 ∈ rows c ∧ (rowAt c 0).Covers 1 1 ∧
      rowAt c 3 ∈ rows c ∧ c.size < (rowAt c 3).next ∧
      offsetColumn (rowAt c 3).text.toList = 3 ∧
      instructionColumn (rowAt c 3).text.toList = "CONSTANT         <missing operand>".toList ∧
      (rows c).getLast? = some (rowAt c 3) ∧ (rowAt c 3).next = 5 := by
  have hrows : rows ⟨#[1, 1, 200, 1], #[], #[]⟩
      = [⟨0, .unknown, .invalid 1⟩, ⟨2, .same, .unknown 200⟩, ⟨3, .same, .missingOperand⟩] := by
    decide +kernel
  have hfirst : rowAt ⟨#[1, 1, 200, 1], #[], #[]⟩ 0 = ⟨0, .unknown, .invalid 1⟩ := by
    decide +kernel
  have hlast : rowAt ⟨#[1, 1, 200, 1], #[], #[]⟩ 3 = ⟨3, .same, .missingOperand⟩ := by
    decide +kernel
  obtain ⟨hprinted, -, -, -, hbytes, hall⟩ := rows_share_out_code ⟨#[1, 1, 200, 1], #[], #[]⟩
  have hmem : rowAt ⟨#[1, 1, 200, 1], #[], #[]⟩ 3 ∈ rows ⟨#[1, 1, 200, 1], #[], #[]⟩ := by
    rw [hrows, hlast]
    decide
  have hpast : Chunk.size ⟨#[1, 1, 200, 1], #[], #[]⟩
      < (rowAt ⟨#[1, 1, 200, 1], #[], #[]⟩ 3).next := by decide +kernel
  obtain ⟨⟨-, hoffset⟩, -, -, -, -, hmissing, hend⟩ := hall _ hmem
  refine ⟨_, rfl, ?_, ?_, rfl, hbytes 1 1 rfl, ?_, ?_, hmem, hpast, hoffset, hmissing.1 hpast,
    hend hpast⟩
  · rw [hrows]
    rfl
  · rw [hprinted, hrows]
    decide +kernel
  · rw [hrows, hfirst]
    decide
  · rw [hfirst]
    exact .operand rfl

end Listing

end StackMachine

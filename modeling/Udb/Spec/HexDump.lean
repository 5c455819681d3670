import Udb.ForStd.Chunks
import Udb.Native.Utils

/-!
# The hex dump

The output of `dumphex` is one row for each chunk of sixteen bytes. The loop prints
a row cell by cell; `hexCells` is what it has printed of the row it is in, and
`Open` says what the text buffer then holds. A row is `rowText`, whose two parts are
read back by `parseHex` and by looking at the text.

## Key results

- `dumphexLoop_eq`: the loop prints the rows of the chunks
- `dumphex_faithful`: the rows are faithful, and aligned
-/

namespace Udb.Spec

open CMem Udb.Native

/-! ## Reading a row -/

/-- The value of a hex digit. -/
def hexValue (c : UInt8) : Option Nat :=
  if 48 ≤ c ∧ c ≤ 57 then some (c.toNat - 48)
  else if 65 ≤ c ∧ c ≤ 70 then some (c.toNat - 55)
  else none

/-- The bytes that pairs of hex digits stand for, with blanks between the pairs. -/
def parseHex : Bytes → Option Bytes
  | [] => some []
  | 32 :: rest => parseHex rest
  | [_] => none
  | hi :: lo :: rest => do
    let h ← hexValue hi
    let l ← hexValue lo
    let bytes ← parseHex rest
    pure (UInt8.ofNat (16 * h + l) :: bytes)

/-- The column of the bar. -/
def barColumn : Nat := 50

/-- A row shows the chunk: in front of the bar its bytes in hexadecimal, behind it one character
    for each byte and nothing else. -/
structure RowOf (chunk row : Bytes) : Prop where
  hex : parseHex (row.take barColumn) = some chunk
  bar : row[barColumn]? = some 124
  first : (124 : UInt8) ∉ row.take barColumn
  text : row.drop (barColumn + 1) = ascii "  " ++ chunk.map asciiChar ++ ascii " \n"

/-! ## The hexadecimal part -/

/-- The cell of the byte at place `j` of a row: a second blank stands behind the eighth. -/
def rowCell (j : Nat) (b : UInt8) : Bytes := hexCell b ++ if j + 1 = 8 then [32] else []

/-- The cells from place `j` of a row on. -/
def hexCells : (j : Nat) → Bytes → Bytes
  | _, [] => []
  | j, b :: bs => rowCell j b ++ hexCells (j + 1) bs

/-- A whole row. -/
def rowText (chunk : Bytes) : Bytes :=
  hexCells 0 chunk ++ List.replicate (barColumn - (hexCells 0 chunk).length) 32 ++
    (ascii "|  " ++ chunk.map asciiChar ++ ascii " \n")

section Cells

variable {j d : Nat} {b : UInt8} {bs chunk rest : Bytes}

/-- The cells of a row and one more. -/
private theorem hexCells_append (j : Nat) (bs : Bytes) (b : UInt8) :
    hexCells j (bs ++ [b]) = hexCells j bs ++ rowCell (j + bs.length) b := by
  induction bs generalizing j with
  | nil => simp [hexCells]
  | cons c bs ih =>
    rw [List.cons_append, hexCells, hexCells, ih, List.append_assoc, List.length_cons,
      Nat.add_assoc, Nat.add_comm 1]

/-- The middle of a row has a wider cell. -/
private theorem length_rowCell (j : Nat) (b : UInt8) :
    (rowCell j b).length = if j + 1 = 8 then 4 else 3 := by
  unfold rowCell hexCell
  split <;> rfl

/-- Three columns for each byte, and one for the gap in the middle. -/
private theorem length_hexCells (j : Nat) (bs : Bytes) :
    (hexCells j bs).length =
      3 * bs.length + if j < 8 ∧ 8 ≤ j + bs.length then 1 else 0 := by
  induction bs generalizing j with
  | nil =>
    have hno : ¬ (j < 8 ∧ 8 ≤ j + ([] : Bytes).length) := by
      rw [List.length_nil]
      omega
    rw [if_neg hno]
    rfl
  | cons b bs ih =>
    -- The extra blank stands behind the eighth cell.
    rw [hexCells, List.length_append, length_rowCell, ih, List.length_cons]
    split <;> split <;> split <;> omega

/-- A digit is read as what was printed. -/
private theorem hexValue_hexDigit (hd : d < 16) : hexValue (hexDigit d) = some d := by
  interval_cases d <;> decide

/-- No digit is a blank or the bar. -/
private theorem hexDigit_ne (hd : d < 16) : hexDigit d ≠ 32 ∧ hexDigit d ≠ 124 := by
  interval_cases d <;> decide

/-- Blanks are passed over. -/
private theorem parseHex_blanks (k : Nat) (rest : Bytes) :
    parseHex (List.replicate k 32 ++ rest) = parseHex rest := by
  induction k with
  | zero => rfl
  | succ k ih => rw [List.replicate_succ, List.cons_append, parseHex, ih]

/-- Two digits are a byte. -/
private theorem parseHex_pair {hi lo : UInt8} (hne : hi ≠ 32) :
    parseHex (hi :: lo :: rest) = (do
      let h ← hexValue hi
      let l ← hexValue lo
      let bytes ← parseHex rest
      pure (UInt8.ofNat (16 * h + l) :: bytes)) := by
  rw [parseHex]
  simpa using hne

/-- A cell reads back as its byte. -/
private theorem parseHex_rowCell (j : Nat) (b : UInt8) (rest : Bytes) :
    parseHex (rowCell j b ++ rest) = (parseHex rest).map (b :: ·) := by
  have hb := b.toNat_lt
  have hhi : b.toNat / 16 < 16 := by omega
  have hlo : b.toNat % 16 < 16 := by omega
  have hbyte : UInt8.ofNat (16 * (b.toNat / 16) + b.toNat % 16) = b := by
    rw [Nat.div_add_mod, UInt8.ofNat_toNat]
  -- A cell is two digits and one blank, or two behind the eighth.
  obtain ⟨k, hk⟩ : ∃ k, rowCell j b ++ rest = hexDigit (b.toNat / 16) ::
      hexDigit (b.toNat % 16) :: (List.replicate k 32 ++ rest) := by
    unfold rowCell hexCell
    split
    · exact ⟨2, rfl⟩
    · exact ⟨1, rfl⟩
  rw [hk, parseHex_pair (hexDigit_ne hhi).1, hexValue_hexDigit hhi, hexValue_hexDigit hlo,
    parseHex_blanks]
  simp only [Option.bind_eq_bind, Option.bind_some, hbyte]
  cases parseHex rest <;> rfl

/-- A row of cells is read back, with blanks behind it. -/
private theorem parseHex_hexCells (j k : Nat) (bs : Bytes) :
    parseHex (hexCells j bs ++ List.replicate k 32) = some bs := by
  induction bs generalizing j with
  | nil =>
    have hblanks := parseHex_blanks k []
    rwa [List.append_nil] at hblanks
  | cons b bs ih =>
    rw [hexCells, List.append_assoc, parseHex_rowCell, ih]
    rfl

/-- No cell holds a bar. -/
private theorem bar_not_mem_hexCells (j : Nat) (bs : Bytes) : (124 : UInt8) ∉ hexCells j bs := by
  induction bs generalizing j with
  | nil => exact List.not_mem_nil
  | cons b bs ih =>
    -- Digits are not the bar, nor is a blank.
    have hb := b.toNat_lt
    have hhi := (@hexDigit_ne (b.toNat / 16) (by omega)).2
    have hlo := (@hexDigit_ne (b.toNat % 16) (by omega)).2
    rw [hexCells, List.mem_append, not_or]
    refine ⟨?_, ih (j + 1)⟩
    unfold rowCell hexCell
    split <;> simp [hhi.symm, hlo.symm]

/-- A row of at most sixteen bytes reads back. -/
private theorem rowOf_rowText (hlen : chunk.length ≤ 16) : RowOf chunk (rowText chunk) := by
  have hcells : (hexCells 0 chunk).length ≤ barColumn := by
    -- A full row ends in front of the bar.
    rw [length_hexCells]
    unfold barColumn
    split <;> omega
  have hfront : (hexCells 0 chunk ++
      List.replicate (barColumn - (hexCells 0 chunk).length) 32).length = barColumn := by
    rw [List.length_append, List.length_replicate]
    omega
  refine ⟨?_, ?_, ?_, ?_⟩
  · -- The cells give the bytes, the bar stands in its column, and there is none before.
    rw [rowText, List.take_left' hfront, parseHex_hexCells]
  · rw [rowText, List.getElem?_append_right hfront.le, hfront, Nat.sub_self]
    rfl
  · rw [rowText, List.take_left' hfront, List.mem_append, not_or]
    refine ⟨bar_not_mem_hexCells 0 chunk, fun hmem => ?_⟩
    exact absurd (List.eq_of_mem_replicate hmem) (by decide)
  · rw [rowText, ← List.drop_drop, List.drop_left' hfront]
    rfl

end Cells

/-! ## The loop -/

/-- What the text buffer holds when `row` has been printed of the row. -/
structure Open (row : Bytes) (ascii : Buf 17) : Prop where
  short : row.length < 16
  text : ascii.bytes.take row.length = row.map asciiChar
  nul : ascii.bytes[16]? = some 0

section Loop

variable {size i : Nat} {b : UInt8} {row rest : Bytes} {ascii ascii' : Buf 17}

/-- What stands for a byte is no 0. -/
private theorem asciiChar_ne_zero (b : UInt8) : asciiChar b ≠ 0 := by
  unfold asciiChar
  split
  · rename_i h
    intro h0
    rw [h0] at h
    exact absurd h.1 (by decide)
  · decide

/-- So the text of a row has none. -/
private theorem zero_not_mem_text (row : Bytes) : (0 : UInt8) ∉ row.map asciiChar := by
  intro h
  obtain ⟨b, -, hb⟩ := List.mem_map.mp h
  exact asciiChar_ne_zero b hb

/-- The text is printed up to the terminator behind it. -/
private theorem printAscii_eq (htext : ascii.bytes.take row.length = row.map asciiChar)
    (hnul : ascii.bytes[row.length]? = some 0) :
    printAscii ascii =
      .ok (CMem.ascii "|  " ++ row.map asciiChar ++ CMem.ascii " \n") := by
  obtain ⟨hlt, hget⟩ := List.getElem?_eq_some_iff.mp hnul
  have hbytes : ascii.bytes =
      [] ++ row.map asciiChar ++ 0 :: ascii.bytes.drop (row.length + 1) := by
    rw [List.nil_append, ← htext, ← hget, ← List.drop_eq_getElem_cons hlt,
      List.take_append_drop]
  have hread := cstrAt_append (zero_not_mem_text row) [] (ascii.bytes.drop (row.length + 1))
  rw [← hbytes, List.length_nil] at hread
  rw [printAscii, hread, ok_bind, pure_eq_ok]

/-- Storing the character of the next byte. -/
theorem Open.store (h : Open row ascii) (hi : i % 16 = row.length) (b : UInt8) :
    ∃ ascii', ascii.memcpy (i % 16) [asciiChar b] = .ok ascii' ∧
      ascii'.bytes.take (row ++ [b]).length = (row ++ [b]).map asciiChar ∧
      ascii'.bytes[16]? = some 0 := by
  have hshort := h.short
  obtain ⟨ascii', hcpy⟩ : ∃ ascii', ascii.memcpy (i % 16) [asciiChar b] = .ok ascii' :=
    ⟨_, dif_pos (by rw [List.length_singleton]; omega)⟩
  -- The character goes behind those of the row.
  have hget := Buf.getElem?_memcpy_of_mem hcpy le_rfl (by rw [List.length_singleton]; omega)
  refine ⟨ascii', hcpy, ?_, ?_⟩
  · rw [hi, Nat.sub_self] at hget
    rw [List.length_append, List.length_singleton, List.take_add_one, hget,
      Buf.take_memcpy hcpy hi.ge, h.text, List.map_append]
    rfl
  · rw [Buf.getElem?_memcpy hcpy (.inr (by rw [List.length_singleton]; omega)), h.nul]

/-- A row that goes on. -/
private theorem dumphexTurn_open (h : Open row ascii) (hi : i % 16 = row.length)
    (hgoes : row.length + 1 < 16) (hmore : i + 1 ≠ size) :
    ∃ ascii', dumphexTurn size i b ascii = .ok (rowCell row.length b, ascii') ∧
      Open (row ++ [b]) ascii' := by
  obtain ⟨ascii', hcpy, htext, hnul⟩ := h.store hi b
  refine ⟨ascii', ?_, by rw [List.length_append, List.length_singleton]; exact hgoes, htext, hnul⟩
  rw [dumphexTurn, hcpy, ok_bind, rowCell]
  by_cases height : row.length + 1 = 8
  · -- The gap in the middle.
    rw [if_pos (.inl (by omega)), if_neg (by omega), if_neg hmore, if_pos height]
    rfl
  · rw [if_neg (by omega), if_neg height, List.append_nil]
    rfl

/-- Blanks behind a cell, the one in the middle among them. -/
private theorem rowCell_blanks (j k : Nat) (b : UInt8) :
    rowCell j b ++ List.replicate k 32 =
      hexCell b ++ List.replicate ((if j + 1 = 8 then 1 else 0) + k) 32 := by
  unfold rowCell
  split
  · rw [List.append_assoc, List.replicate_add, List.replicate_one]
  · rw [List.append_nil, Nat.zero_add]

/-- The blanks behind the last byte of a row fill it up to the bar. -/
private theorem hexPart_append (hshort : row.length < 16) (b : UInt8) :
    hexCells 0 (row ++ [b]) ++
        List.replicate (barColumn - (hexCells 0 (row ++ [b])).length) 32 =
      hexCells 0 row ++ (hexCell b ++ List.replicate
        ((if row.length + 1 ≤ 8 then 2 else 1) + 3 * (16 - (row.length + 1))) 32) := by
  have hlen : (row ++ [b]).length = row.length + 1 := by
    rw [List.length_append, List.length_singleton]
  -- The blanks in front of the bar are those of the cells that are missing.
  have hcount : ((if row.length + 1 = 8 then 1 else 0) +
      (barColumn - (3 * (row.length + 1) + if 0 < 8 ∧ 8 ≤ 0 + (row.length + 1) then 1 else 0))) =
        (if row.length + 1 ≤ 8 then 2 else 1) + 3 * (16 - (row.length + 1)) := by
    unfold barColumn
    split <;> split <;> split <;> omega
  rw [length_hexCells, hlen, hexCells_append, Nat.zero_add, List.append_assoc, rowCell_blanks,
    ← hcount, Nat.zero_add]

/-- The sixteenth byte ends its row. -/
private theorem dumphexTurn_full (h : Open row ascii) (hi : i % 16 = row.length)
    (hfull : row.length + 1 = 16) :
    ∃ out ascii', dumphexTurn size i b ascii = .ok (out, ascii') ∧
      hexCells 0 row ++ out = rowText (row ++ [b]) ∧ Open [] ascii' := by
  obtain ⟨ascii', hcpy, htext, hnul⟩ := h.store hi b
  -- With the sixteenth byte the row is printed with its bar.
  have hlen : (row ++ [b]).length = 16 := by
    rw [List.length_append, List.length_singleton]
    omega
  have hprint := printAscii_eq htext (by rw [hlen]; exact hnul)
  have hturn : dumphexTurn size i b ascii = .ok (hexCell b ++ [32] ++
      (CMem.ascii "|  " ++ (row ++ [b]).map asciiChar ++ CMem.ascii " \n"), ascii') := by
    rw [dumphexTurn, hcpy, ok_bind, if_pos (.inl (by omega)), if_pos (by omega), hprint, ok_bind,
      pure_eq_ok]
  refine ⟨_, ascii', hturn, ?_, by decide, rfl, hnul⟩
  rw [rowText, hexPart_append h.short, if_neg (by omega), hfull, Nat.sub_self, Nat.mul_zero,
    List.replicate_one]
  simp only [List.append_assoc]

/-- The last byte ends a row that is shorter. -/
private theorem dumphexTurn_last (h : Open row ascii) (hi : i % 16 = row.length)
    (hshort : row.length + 1 < 16) (hlast : i + 1 = size) :
    ∃ out ascii', dumphexTurn size i b ascii = .ok (out, ascii') ∧
      hexCells 0 row ++ out = rowText (row ++ [b]) := by
  obtain ⟨ascii₁, hcpy, htext, -⟩ := h.store hi b
  have hlen : (row ++ [b]).length = row.length + 1 := by
    rw [List.length_append, List.length_singleton]
  have hplace : (i + 1) % 16 = row.length + 1 := by omega
  obtain ⟨ascii₂, hcpy₂⟩ : ∃ ascii₂, ascii₁.memcpy ((i + 1) % 16) [0] = .ok ascii₂ :=
    ⟨_, dif_pos (by rw [List.length_singleton]; omega)⟩
  have htext₂ : ascii₂.bytes.take (row ++ [b]).length = (row ++ [b]).map asciiChar := by
    rw [Buf.take_memcpy hcpy₂ (by omega), htext]
  have hnul₂ : ascii₂.bytes[(row ++ [b]).length]? = some 0 := by
    have hget := Buf.getElem?_memcpy_of_mem hcpy₂ le_rfl (by rw [List.length_singleton]; omega)
    rw [hplace, Nat.sub_self] at hget
    rw [hlen, hget]
    rfl
  have hprint := printAscii_eq htext₂ hnul₂
  have hturn : dumphexTurn size i b ascii = .ok (hexCell b ++ [32] ++
      (if (i + 1) % 16 ≤ 8 then [32] else []) ++
      List.replicate (3 * (16 - (i + 1) % 16)) 32 ++
      (CMem.ascii "|  " ++ (row ++ [b]).map asciiChar ++ CMem.ascii " \n"), ascii₂) := by
    rw [dumphexTurn, hcpy, ok_bind, if_pos (.inr hlast), if_neg (by omega), if_pos hlast, hcpy₂,
      ok_bind, hprint, ok_bind, pure_eq_ok]
  refine ⟨_, ascii₂, hturn, ?_⟩
  -- One blank, another one up to the middle, and three for each byte that the row lacks.
  have hgap : ([32] : Bytes) ++ (if row.length + 1 ≤ 8 then [32] else []) =
      List.replicate (if row.length + 1 ≤ 8 then 2 else 1) 32 := by
    split <;> rfl
  rw [rowText, hexPart_append h.short, hplace, List.replicate_add, ← hgap]
  simp only [List.append_assoc]

/-- One turn of the loop and those behind it. -/
private theorem dumphexLoop_cons {out outs : Bytes}
    (hturn : dumphexTurn size i b ascii = .ok (out, ascii'))
    (hloop : dumphexLoop size (i + 1) rest ascii' = .ok outs) :
    dumphexLoop size i (b :: rest) ascii = .ok (out ++ outs) := by
  simp only [dumphexLoop, hturn, ok_bind, hloop, pure_eq_ok]

/-- From an open row on, the loop prints the rows of what is left, the open one among them. -/
theorem dumphexLoop_eq (h : Open row ascii) (hi : i % 16 = row.length)
    (hsize : i + rest.length = size) (hne : row = [] ∨ rest ≠ []) :
    ∃ out, dumphexLoop size i rest ascii = .ok out ∧
      hexCells 0 row ++ out = (((row ++ rest).toChunks 16).map rowText).flatten := by
  -- Induction on the bytes that are left; the cases are how the row goes on behind the next one.
  induction rest generalizing i row ascii with
  | nil =>
    obtain rfl : row = [] := by tauto
    exact ⟨[], rfl, rfl⟩
  | cons b rest ih =>
    have hlen : (row ++ [b]).length = row.length + 1 := by
      rw [List.length_append, List.length_singleton]
    have happ : row ++ b :: rest = row ++ [b] ++ rest := by simp
    rw [List.length_cons] at hsize
    rw [happ]
    have hshort := h.short
    by_cases hfull : row.length + 1 = 16
    · obtain ⟨out, ascii', hturn, hline, hopen⟩ := @dumphexTurn_full size i b row ascii h hi hfull
      have hnext : (i + 1) % 16 = ([] : Bytes).length := by
        rw [List.length_nil]
        omega
      obtain ⟨outs, hloop, houts⟩ := ih hopen hnext (by omega) (.inl rfl)
      refine ⟨out ++ outs, dumphexLoop_cons hturn hloop, ?_⟩
      rw [Chunks.toChunks_append (by decide) (by omega), List.map_cons, List.flatten_cons,
        ← hline, List.append_assoc]
      rw [List.nil_append] at houts
      rw [← houts]
      rfl
    · by_cases hlast : rest = []
      · subst hlast
        rw [List.length_nil] at hsize
        obtain ⟨out, ascii', hturn, hline⟩ :=
          @dumphexTurn_last size i b row ascii h hi (by omega) (by omega)
        refine ⟨out ++ [], dumphexLoop_cons hturn rfl, ?_⟩
        rw [List.append_nil, List.append_nil, Chunks.toChunks_of_le (by simp) (by omega),
          List.map_singleton, List.flatten_singleton, hline]
      · have hmore : i + 1 ≠ size := by
          have := List.length_pos_iff.mpr hlast
          omega
        obtain ⟨ascii', hturn, hopen⟩ :=
          @dumphexTurn_open size i b row ascii h hi (by omega) hmore
        have hnext : (i + 1) % 16 = (row ++ [b]).length := by omega
        obtain ⟨outs, hloop, houts⟩ := ih hopen hnext (by omega) (.inr hlast)
        refine ⟨rowCell row.length b ++ outs, dumphexLoop_cons hturn hloop, ?_⟩
        rw [← houts, hexCells_append, Nat.zero_add, List.append_assoc]

end Loop

/-! ## All byte sequences -/

/-- The dump of any bytes is one row for each sixteen of them: the pairs in front of the bar read
    back as the bytes, the bar is in the same column everywhere, and the text has one character for
    each byte. Whatever the text buffer holds at first makes no difference. -/
theorem dumphex_faithful (ascii : Buf 17) (data : Bytes) (size : UInt32)
    (hsize : size.toNat ≤ data.length) :
    ∃ rows, dumphexOutput ascii data size = .ok rows.flatten ∧
      List.Forall₂ RowOf ((data.take size.toNat).toChunks 16) rows := by
  have hload : dumphex data size = .ok (data.take size.toNat) := by
    -- No byte is read that is not there.
    rw [dumphex, load_eq_ok (by omega), List.drop_zero]
  obtain ⟨ascii', hcpy⟩ : ∃ ascii', ascii.memcpy 16 [0] = .ok ascii' := ⟨_, dif_pos (by decide)⟩
  -- The text buffer ends in a NUL from the start, whatever else is in it.
  have hopen : Open [] ascii' := by
    refine ⟨by decide, rfl, ?_⟩
    rw [Buf.getElem?_memcpy_of_mem hcpy le_rfl (by decide)]
    rfl
  have hlen : 0 + (data.take size.toNat).length = size.toNat := by
    rw [List.length_take]
    omega
  obtain ⟨out, hloop, hout⟩ := dumphexLoop_eq hopen (Nat.zero_mod 16) hlen (.inl rfl)
  rw [List.nil_append] at hout
  refine ⟨((data.take size.toNat).toChunks 16).map rowText, ?_, ?_⟩
  · rw [dumphexOutput, hload, ok_bind, hcpy, ok_bind, hloop, ← hout]
    rfl
  · -- Each row is the text of its chunk.
    rw [List.forall₂_map_right_iff, List.forall₂_same]
    intro chunk hchunk
    exact rowOf_rowText (Chunks.length_le_of_mem_toChunks (by decide) hchunk)

/-- Three letters. -/
theorem dumphex_faithful_three :
    ∃ rows, dumphexOutput (Buf.zero 17) (CMem.ascii "abc") 3 = .ok rows.flatten ∧
      List.Forall₂ RowOf (((CMem.ascii "abc").take 3).toChunks 16) rows :=
  dumphex_faithful (Buf.zero 17) (CMem.ascii "abc") 3 (by decide)

end Udb.Spec

import Udb.ForStd.Chunks
import Udb.ForStd.Terminal
import Udb.Spec.Codepoint
import Udb.Spec.Slices

/-!
# What the terminal shows

The program prints bytes; what its user sees is what a terminal makes of them. An
image ends up as lines of cells, each with the character and the two colours of its
block, or with the colour of its pixel where only spaces are printed.

`print_raw_img` compares the addresses of two arrays to find out whether a colour has
changed. They are never the same, so each cell gets both of its colours, and no cell
shows those of the cell in front of it.

## Key results

- `printRawImg_shows_iff`: the lines of an image of blocks
- `run_printRawImgCompat`: those of an image of spaces
-/

namespace Udb.Spec

open CMem Chunks Grid Native Terminal

variable {image : Bytes} {pen : Pen} {above old : List (List Cell)} {line : List Cell}

/-! ## Numbers and colours -/

/-- `%u` prints a numeral. -/
private theorem isNumeral_fmtU (n : Nat) : Term.IsNumeral (fmtU n) n := Term.isNumeral_toDigits n

/-- So does `%03u`. -/
private theorem isNumeral_fmt03u (n : Nat) : Term.IsNumeral (fmt03u n) n :=
  (isNumeral_fmtU n).replicate_append _

/-- A byte is not clamped. -/
private theorem clampByte_natCast {n : Nat} (h : n ≤ 255) : (clampByte n).toNat = n := by
  unfold clampByte
  rw [if_neg (by omega), if_neg (by omega)]
  rfl

/-- A colour of a cell. -/
private theorem run_emitColor (isBg : Bool) {c : Color} (h : ∀ i, c i ≤ 255) (screen : Screen) :
    Term.run ⟨.ground, pen, screen⟩ (emitColor isBg (c 0) (c 1) (c 2)) =
      ⟨.ground, if isBg then { pen with bg := some c } else { pen with fg := some c }, screen⟩ := by
  have hc : ![c 0, c 1, c 2] = c := by
    funext i
    fin_cases i <;> rfl
  -- The sequence names the three channels, and clamping leaves bytes as they are.
  have hrun := Term.run_color isBg pen screen (isNumeral_fmtU (c 0))
    (isNumeral_fmtU (c 1)) (isNumeral_fmtU (c 2))
  rw [hc] at hrun
  unfold emitColor
  rw [clampByte_natCast (h 0), clampByte_natCast (h 1), clampByte_natCast (h 2)]
  exact hrun

/-- A code point that is printed as its shortest sequence. -/
private theorem run_emitCodepoint {n : Nat} (hlo : 0x20 ≤ n) (hdel : n ≠ 0x7f) (hhi : n < 0x10ffff)
    (h₁ : n ≠ 0x7ff) (h₂ : n ≠ 0xffff) (screen : Screen) :
    Term.run ⟨.ground, pen, screen⟩ (emitCodepoint n) = ⟨.ground, pen, screen.put ⟨n, pen⟩⟩ := by
  rw [emitCodepoint_eq_seq hhi, emitForm_eq_of h₁ h₂]
  exact Term.run_utf8 hlo hdel (by omega)

/-! ## Cells -/

/-- The cell that a block is shown as. -/
def CharData.cell (c : CharData) : Cell := ⟨c.codePoint, ⟨some c.fgColor, some c.bgColor⟩⟩

/-- What the terminal can show: the colours have three bytes, and the code point is printed
    right. -/
structure Showable (c : CharData) : Prop where
  fgColor : ∀ i, c.fgColor i ≤ 255
  bgColor : ∀ i, c.bgColor i ≤ 255
  lo : 0x20 ≤ c.codePoint
  del : c.codePoint ≠ 0x7f
  hi : c.codePoint < 0x10ffff
  two : c.codePoint ≠ 0x7ff
  three : c.codePoint ≠ 0xffff

/-- A turn prints one cell, and ends the line behind the last one. -/
private theorem run_drawTurn {charWidth i : Nat} (junk : Nat → CharData) {chars : List CharData}
    {c : CharData} (hc : chars[i]? = some c) (hshow : Showable c) {last : Nat}
    (hlast : i ≠ last ∨ i = 0) :
    ∃ out, drawTurn charWidth junk (chars.map some) i i last = .ok out ∧ ∀ pen above line old,
      Term.run ⟨.ground, pen, .within above line old⟩ out =
        if (i + 1) % charWidth = 0 then
          ⟨.ground, .plain,
            .within (above ++ [overLine (line ++ [CharData.cell c]) (old.headD [])]) [] old.tail⟩
        else ⟨.ground, ⟨some c.fgColor, some c.bgColor⟩,
          .within above (line ++ [CharData.cell c]) old⟩ := by
  have hload : loadCell junk (chars.map some) i = .ok c := by
    rw [loadCell, List.getElem?_map, hc]
    rfl
  -- Both colours are printed for every cell: the pointer to the last one is never the same.
  have hboth : i % charWidth = 0 ∨ i ≠ last := by
    rcases hlast with hne | hzero
    · exact .inr hne
    · exact .inl (by rw [hzero, Nat.zero_mod])
  refine ⟨_, by rw [drawTurn, hload]; rfl, fun pen above line old => ?_⟩
  rw [if_pos hboth, if_pos hboth, Term.run_append, run_emitColor true hshow.bgColor,
    Term.run_append, run_emitColor false hshow.fgColor, Term.run_append,
    run_emitCodepoint hshow.lo hshow.del hshow.hi hshow.two hshow.three, Screen.put_within]
  by_cases heol : (i + 1) % charWidth = 0
  · rw [if_pos heol, if_pos heol, ← Screen.newLine_within]
    rfl
  · rw [if_neg heol, if_neg heol]
    rfl

/-- The place behind the last one of a line is the first one of the next. -/
private theorem succ_mod_cases {a : Nat} (ha : 0 < a) (i : Nat) :
    i % a + 1 = a ∧ (i + 1) % a = 0 ∨ i % a + 1 < a ∧ (i + 1) % a = i % a + 1 := by
  have hi : i + 1 = a * (i / a) + (i % a + 1) := by
    rw [← Nat.add_assoc, Nat.div_add_mod]
  have hlt : i % a < a := Nat.mod_lt i ha
  rw [hi, Nat.mul_add_mod]
  by_cases hend : i % a + 1 = a
  · exact .inl ⟨hend, by rw [hend, Nat.mod_self]⟩
  · exact .inr ⟨by omega, Nat.mod_eq_of_lt (by omega)⟩

/-- Lines printed over `old`. -/
def printed (above rows old : List (List Cell)) : Screen :=
  .within (above ++ overLines rows old) [] (old.drop rows.length)

/-- One line more. -/
private theorem printed_cons (row : List Cell) (rows : List (List Cell)) :
    printed (above ++ [overLine row (old.headD [])]) rows old.tail =
      printed above (row :: rows) old := by
  simp [printed, overLines]

/-- The loop, from a place in a line on: the lines fill up one behind the other. -/
private theorem run_draw {a : Nat} (junk : Nat → CharData) {chars : List CharData} (ha : 0 < a)
    (hshow : ∀ c ∈ chars, Showable c) (hfull : a ∣ chars.length) {turns i last : Nat}
    (hturns : i + turns = chars.length) (hlast : i ≠ last ∨ i = 0) :
    ∃ out, draw a junk (chars.map some) turns i i last = .ok out ∧ ∀ pen above line old,
      line.length = i % a → (line = [] → pen = .plain) →
      Term.run ⟨.ground, pen, .within above line old⟩ out =
        ⟨.ground, .plain,
          printed above ((line ++ (chars.drop i).map CharData.cell).toChunks a) old⟩ := by
  -- Induction on the turns that are left, for every line that is begun.
  induction turns generalizing i last with
  | zero =>
    have hi : i = chars.length := by omega
    refine ⟨[], rfl, fun pen above line old hline hpen => ?_⟩
    have hnil : line = [] := by
      apply List.eq_nil_of_length_eq_zero
      rw [hline, hi]
      exact Nat.mod_eq_zero_of_dvd hfull
    rw [hpen hnil, hnil, hi, List.drop_length]
    simp [printed, overLines, List.toChunks]
  | succ turns ih =>
    have hlt : i < chars.length := by omega
    obtain ⟨out, hout, hrun⟩ := run_drawTurn junk (List.getElem?_eq_getElem hlt)
      (hshow _ (List.getElem_mem hlt)) hlast
    obtain ⟨rest, hrest, hrun'⟩ := @ih (i + 1) i (by omega) (.inl (by omega))
    refine ⟨out ++ rest, by rw [draw, hout, ok_bind, hrest]; rfl, ?_⟩
    intro pen above line old hline hpen
    have hdrop : line ++ (chars.drop i).map CharData.cell =
        (line ++ [CharData.cell chars[i]]) ++ (chars.drop (i + 1)).map CharData.cell := by
      rw [List.drop_eq_getElem_cons hlt, List.map_cons, List.append_assoc, List.singleton_append]
    have hnext : (line ++ [CharData.cell chars[i]]).length = i % a + 1 := by
      rw [List.length_append, hline, List.length_singleton]
    rw [Term.run_append, hrun, hdrop]
    rcases succ_mod_cases ha i with ⟨hend, heol⟩ | ⟨hlt, heol⟩
    · rw [if_pos heol, hrun' _ _ [] _ heol.symm fun _ => rfl, List.nil_append,
        toChunks_append ha (hnext.trans hend), ← printed_cons]
    · rw [if_neg (by omega), hrun' _ _ _ _ (hnext.trans heol.symm) (by simp)]

/-! ## The cells of an image -/

section Blocks

variable {x0 y0 width : Nat} {c : CharData} {p : UInt32} {cs : List Color}

/-- Sums of bytes. -/
structure Bounded (b : Buckets) : Prop where
  fgColor : ∀ i, b.fgColor i ≤ 255 * b.fgCount
  bgColor : ∀ i, b.bgColor i ≤ 255 * b.bgCount

/-- A pixel keeps the sums bounded. -/
theorem Bounded.put {b : Buckets} {d : Color} (h : Bounded b) (hd : ∀ i, d i ≤ 255) :
    Bounded (Spec.put p b d) := by
  unfold Spec.put
  split
  · refine ⟨fun i => ?_, h.bgColor⟩
    -- One more pixel adds at most 255 to a sum.
    have hsum := h.fgColor i
    have hbyte := hd i
    show b.fgColor i + d i ≤ 255 * (b.fgCount + 1)
    omega
  · refine ⟨h.fgColor, fun i => ?_⟩
    have hsum := h.bgColor i
    have hbyte := hd i
    show b.bgColor i + d i ≤ 255 * (b.bgCount + 1)
    omega

/-- So do all pixels of a block. -/
theorem Bounded.foldl_put {b : Buckets} (h : Bounded b) (hcs : ∀ d ∈ cs, ∀ i, d i ≤ 255) :
    Bounded (cs.foldl (Spec.put p) b) := by
  induction cs generalizing b with
  | nil => exact h
  | cons d cs ih =>
    obtain ⟨hd, hcs⟩ := List.forall_mem_cons.mp hcs
    exact ih (h.put hd) hcs

/-- The average of bytes is a byte. -/
private theorem average_le {sum : Color} {count : Nat} (h : ∀ i, sum i ≤ 255 * count) (i : Fin 3) :
    average sum count i ≤ 255 := by
  have hsum := h i
  unfold average
  split
  · exact Nat.div_le_of_le_mul (by rwa [Nat.mul_comm] at hsum)
  · omega

/-- The characters of the table are printed right. -/
private theorem regular_code
    : ∀ e ∈ regular, 0x20 ≤ e.2 ∧ e.2 ≠ 0x7f ∧ e.2 < 0x10ffff ∧ e.2 ≠ 0x7ff ∧
    e.2 ≠ 0xffff := by
  decide

/-- The search ends with a character of the table, or with the one that it started with. -/
private theorem codepoint_searchBitmaps (bits : UInt32) :
    ∃ p, (p, (searchBitmaps bits bitmaps startMatch).codepoint) ∈ regular := by
  have hnone : Searched bits startMatch [] startMatch := ⟨by simp, .inl rfl⟩
  have htable : ∀ e ∈ bitmaps.takeWhile (·.2 ≠ 0), 32 ≤ e.2 := by
    rw [regular_eq]
    exact regular_codepoint
  have hall := hnone.searchBitmaps htable
  rw [List.nil_append, regular_eq] at hall
  -- Nothing better was found, so it is the pattern that the search starts with.
  rcases hall.entry with heq | hfound
  · rw [heq]
    exact ⟨0x0000ffff, by decide⟩
  · exact ⟨_, hfound.1⟩

/-- What a block is matched with was searched for. -/
private theorem exists_bits_of_matchBlock {m : Match} (h : matchBlock image x0 y0 width = .ok m) :
    ∃ bits, searchBitmaps bits bitmaps startMatch = m := by
  unfold matchBlock at h
  obtain ⟨r, -, h⟩ := bind_eq_ok.mp h
  obtain ⟨bits, -, h⟩ := bind_eq_ok.mp h
  exact ⟨bits, Except.ok.inj h⟩

/-- The colours of a block are averages of bytes. -/
private theorem bounded_createCharData {codepoint : Nat}
    (hin : ∀ px ∈ blockPixels x0 y0 width, px + 2 < image.length)
    (h : createCharData image x0 y0 width codepoint p = .ok c) :
    c.codePoint = codepoint ∧ (∀ i, c.fgColor i ≤ 255) ∧ ∀ i, c.bgColor i ≤ 255 := by
  obtain ⟨cs, hcs⟩ := exists_forall₂_read fun px hpx => readPixel_ok (hin px hpx)
  -- The channels of an image are bytes, so their averages are.
  have hbytes : ∀ d ∈ cs, ∀ i, d i ≤ 255 := by
    intro d hd
    obtain ⟨n, hn, rfl⟩ := List.getElem_of_mem hd
    exact channel_le (hcs.get (by rw [hcs.length_eq]; exact hn) hn)
  have hstart : Bounded ⟨fun _ => 0, fun _ => 0, 0, 0, 0x80000000⟩ := by
    constructor <;> simp
  have hsums := hstart.foldl_put (p := p) hbytes
  rw [createCharData_eq_ok codepoint hcs] at h
  obtain rfl := Except.ok.inj h
  exact ⟨rfl, average_le hsums.fgColor, average_le hsums.bgColor⟩

/-- A block is shown by a character of the table, in colours of three bytes. -/
private theorem showable_findCharData (h : findCharData image x0 y0 width = .ok c)
    : Showable c := by
  have hin := lt_of_findCharData h
  obtain ⟨m, hmatch, hcreate⟩ := bind_eq_ok.mp h
  obtain ⟨bits, rfl⟩ := exists_bits_of_matchBlock hmatch
  obtain ⟨hcode, hfg, hbg⟩ := bounded_createCharData hin hcreate
  obtain ⟨p, hp⟩ := codepoint_searchBitmaps bits
  rw [← hcode] at hp
  obtain ⟨hlo, hdel, hhi, htwo, hthree⟩ := regular_code _ hp
  exact ⟨hfg, hbg, hlo, hdel, hhi, htwo, hthree⟩

end Blocks

/-! ## Images of blocks -/

/-- The cell in a column of a line. -/
def cellAt (rows : List (List Cell)) (x y : Nat) : Option Cell := rows[y]?.bind fun row => row[x]?

/-- There are `b` lines of `a` cells, one for each block. A block that shows two colours along a
    pattern of the table is shown by a character that the table has for a pattern which makes up
    the same block with the two colours of the cell. -/
structure ShowsBlocks (image : Bytes) (a b : Nat) (rows : List (List Cell)) : Prop where
  height : rows.length = b
  width : ∀ row ∈ rows, row.length = a
  cell : ∀ y < b, ∀ x < a, ∃ c, findCharData image (4 * x) (8 * y) (4 * a) = .ok c ∧
    cellAt rows x y = some (CharData.cell c)
  exact : ∀ y < b, ∀ x < a, ∀ e ∈ regular, ∀ f g,
    Paints image (4 * x) (8 * y) (4 * a) e.1 f g → ∃ pattern code fg bg,
      cellAt rows x y = some ⟨code, ⟨some fg, some bg⟩⟩ ∧ (pattern, code) ∈ regular ∧
      Paints image (4 * x) (8 * y) (4 * a) pattern fg bg

/-- A cell of the lines that a list of cells is cut into. -/
private theorem cellAt_toChunks {cells : List Cell} {a b x y : Nat} (hlen : cells.length = b * a)
    (hx : x < a) (hy : y < b) : cellAt (cells.toChunks a) x y = cells[y * a + x]? := by
  rw [cellAt, toChunks_eq_map (by omega) hlen, List.getElem?_map, List.getElem?_range hy]
  show ((cells.drop (y * a)).take a)[x]? = _
  rw [List.getElem?_take_of_lt hx, List.getElem?_drop]

/-- The place of a cell. -/
private theorem place_lt {a b x y : Nat} (hx : x < a) (hy : y < b) : y * a + x < b * a := by
  have hrow : (y + 1) * a ≤ b * a := Nat.mul_le_mul_right a hy
  rw [Nat.succ_mul] at hrow
  omega

/-- The cells in lines show the blocks of the image. -/
private theorem showsBlocks {a b : Nat} {chars : List CharData} (ha : 0 < a)
    (hlen : chars.length = b * a) (h : CellsOf image a chars) :
    ShowsBlocks image a b ((chars.map CharData.cell).toChunks a) := by
  have hcells : (chars.map CharData.cell).length = b * a := by rw [List.length_map, hlen]
  have hcell : ∀ y < b, ∀ x < a, ∃ c, findCharData image (4 * x) (8 * y) (4 * a) = .ok c ∧
      cellAt ((chars.map CharData.cell).toChunks a) x y = some (CharData.cell c) := by
    intro y hy x hx
    have hlt : y * a + x < chars.length := by
      rw [hlen]
      exact place_lt hx hy
    have hplace := h (y * a + x) hlt
    have hcol : (y * a + x) % a = x := by rw [Nat.mul_comm, Nat.mul_add_mod, Nat.mod_eq_of_lt hx]
    have hrow : (y * a + x) / a = y := by
      rw [Nat.mul_comm, Nat.mul_add_div ha, Nat.div_eq_of_lt hx, Nat.add_zero]
    rw [hcol, hrow] at hplace
    refine ⟨_, hplace, ?_⟩
    rw [cellAt_toChunks hcells hx hy, List.getElem?_map, List.getElem?_eq_getElem hlt]
    rfl
  -- Where the block shows two colours along a pattern, the search finds it.
  refine ⟨length_toChunks ha hcells, fun row => length_of_mem_toChunks ha hcells, hcell, ?_⟩
  intro y hy x hx e he f g hpaints
  obtain ⟨c, hc, hat⟩ := hcell y hy x hx
  obtain ⟨m, r, -, hr, hmem, hsame⟩ := findCharData_exact he hpaints
  obtain rfl := Except.ok.inj (hc.symm.trans hr)
  exact ⟨_, _, _, _, hat, hmem, hsame⟩

/-- If five divides the number of lines, `print_raw_img` shows the image. -/
theorem run_printRawImg {a b : Nat} {order : List Nat} (ha : 1 ≤ a)
    (hlen : image.length = 3 * (4 * a * (8 * b))) (horder : order.Perm (List.range threadNum))
    (hdvd : threadNum ∣ b) (junk : Nat → CharData) (above old : List (List Cell)) :
    ∃ out rows, printRawImg junk order image (4 * a) (8 * b) = .ok out ∧
      Term.run ⟨.ground, .plain, .within above [] old⟩ out =
        ⟨.ground, .plain, printed above rows old⟩ ∧
      ShowsBlocks image a b rows := by
  obtain ⟨chars, hslices, hplain⟩ := slicesAgree_of_dvd hlen horder hdvd
  -- The cells that the slices have stored are those of the blocks.
  obtain ⟨chars', hchars, hcells⟩ := exists_cellsOf hlen
  have heq := (plain_eq_ok hcells hchars).symm.trans hplain
  rw [Except.ok.injEq, (Option.some_injective CharData).list_map.eq_iff] at heq
  subst heq
  have hshow : ∀ c ∈ chars', Showable c := by
    intro c hc
    obtain ⟨k, hk, rfl⟩ := List.getElem_of_mem hc
    exact showable_findCharData (hcells k hk)
  have hturns : 0 + b * a = chars'.length := by omega
  obtain ⟨out, hout, hrun⟩ := @run_draw a junk chars' ha hshow (Dvd.intro_left b hchars.symm)
    (b * a) 0 0 hturns (.inr rfl)
  refine ⟨out, _, ?_, hrun _ above [] old (by simp) fun _ => rfl, showsBlocks ha hchars hcells⟩
  rw [printRawImg, hslices, ok_bind, numCells_eq, Nat.mul_div_cancel_left _ (by decide)]
  exact hout

/-- At the start of a line, `print_raw_img` shows the image over what is there, exactly if five
    divides the number of lines. -/
theorem printRawImg_shows_iff {a b : Nat} {order : List Nat} (ha : 1 ≤ a)
    (hlen : image.length = 3 * (4 * a * (8 * b))) (horder : order.Perm (List.range threadNum))
    (junk : Nat → CharData) (above old : List (List Cell)) :
    (∃ out rows, printRawImg junk order image (4 * a) (8 * b) = .ok out ∧
      Term.run ⟨.ground, .plain, .within above [] old⟩ out =
        ⟨.ground, .plain, printed above rows old⟩ ∧
      ShowsBlocks image a b rows) ↔ threadNum ∣ b := by
  constructor
  · intro h
    obtain ⟨out, rows, hout, -⟩ := h
    obtain ⟨cells, hcells, -⟩ := bind_eq_ok.mp hout
    exact dvd_of_transImage ha hlen (horder.mem_iff.mpr (by decide)) hcells
  · exact fun hdvd => run_printRawImg ha hlen horder hdvd junk above old

/-- Five lines of one block, with the slices in some order. -/
theorem printRawImg_shows_iff_five :
    ∃ out rows, printRawImg (fun _ => ⟨fun _ => 0, fun _ => 0, 0⟩) [4, 2, 0, 3, 1]
        (List.replicate 480 0) (4 * 1) (8 * 5) = .ok out ∧
      Term.run ⟨.ground, .plain, .within [] [] []⟩ out = ⟨.ground, .plain, printed [] rows []⟩ ∧
      ShowsBlocks (List.replicate 480 0) 1 5 rows :=
  (printRawImg_shows_iff (by decide) (by rw [List.length_replicate]) (by decide) _ _ _).mpr
    (by decide)

/-! ## Images of spaces -/

/-- The cell that a pixel is shown as. -/
def pixelCell (c : Color) : Cell := ⟨0x20, ⟨none, some c⟩⟩

/-- The lines of an image of spaces. An empty image is shown as an empty line. -/
def pixelLines (width : Nat) (cells : List Cell) : List (List Cell) :=
  if cells = [] then [[]] else cells.toChunks width

/-- The colour of a pixel, and the space behind it. -/
private theorem run_pixel {c : Color} (bg : Option Color) (screen : Screen) :
    Term.run ⟨.ground, ⟨none, bg⟩, screen⟩ (ascii "\x1b[48;2;" ++ (fmt03u (c 0) ++ (ascii ";" ++
      (fmt03u (c 1) ++ (ascii ";" ++ (fmt03u (c 2) ++ ascii "m ")))))) =
      ⟨.ground, ⟨none, some c⟩, screen.put (pixelCell c)⟩ := by
  have hc : ![c 0, c 1, c 2] = c := by
    funext i
    fin_cases i <;> rfl
  have hrun := Term.run_color true ⟨none, bg⟩ screen (isNumeral_fmt03u (c 0))
    (isNumeral_fmt03u (c 1)) (isNumeral_fmt03u (c 2))
  rw [hc, if_pos rfl, if_pos rfl] at hrun
  -- A pixel is a sequence for the background, and a blank.
  have hsplit : ascii "\x1b[48;2;" ++ (fmt03u (c 0) ++ (ascii ";" ++ (fmt03u (c 1) ++
      (ascii ";" ++ (fmt03u (c 2) ++ ascii "m "))))) =
      (ascii "\x1b[48;2;" ++ (fmt03u (c 0) ++ 59 :: (fmt03u (c 1) ++ 59 :: (fmt03u (c 2) ++
        [109])))) ++ [0x20] := by
    simp only [List.append_assoc, List.cons_append]
    rfl
  rw [hsplit, Term.run_append, hrun]
  rfl

/-- A turn prints one pixel, and ends the line in front of it if that is full. -/
private theorem run_compatTurn (w : Nat) {d : Nat} {c : Color}
    (hc : readPixel image (3 * d) = .ok c) :
    ∃ out, compatTurn image w d = .ok out ∧ ∀ bg above line old,
      Term.run ⟨.ground, ⟨none, bg⟩, .within above line old⟩ out =
        if d % w = 0 ∧ d ≠ 0 then
          ⟨.ground, ⟨none, some c⟩,
            .within (above ++ [overLine line (old.headD [])]) [pixelCell c] old.tail⟩
        else ⟨.ground, ⟨none, some c⟩, .within above (line ++ [pixelCell c]) old⟩ := by
  refine ⟨_, by rw [compatTurn, hc]; rfl, fun bg above line old => ?_⟩
  rw [Term.run_append]
  by_cases hwrap : d % w = 0 ∧ d ≠ 0
  · rw [if_pos hwrap, if_pos hwrap, ← List.nil_append [pixelCell c], ← Screen.put_within,
      ← Screen.newLine_within]
    exact run_pixel none _
  · rw [if_neg hwrap, if_neg hwrap, ← Screen.put_within]
    exact run_pixel bg _

/-- Where the cursor is behind a pixel. -/
private theorem length_line {w d : Nat} (hw : 0 < w) (hwrap : ¬ (d % w = 0 ∧ d ≠ 0)) :
    (if d = 0 then 0 else (d - 1) % w + 1) = d % w := by
  cases d with
  | zero => simp
  | succ d =>
    rw [if_neg (Nat.succ_ne_zero d)]
    rcases succ_mod_cases hw d with ⟨-, hend⟩ | ⟨-, hnext⟩
    · exact absurd ⟨hend, Nat.succ_ne_zero d⟩ hwrap
    · exact hnext.symm

/-- The loop from a pixel on, with what is printed behind it: the lines fill up. -/
private theorem run_compatLoop {w turns d : Nat} {cs : List Color} (hw : 0 < w)
    (hread : List.Forall₂ (fun i c => readPixel image (3 * i) = .ok c) (List.range' d turns) cs) :
    ∃ out, compatLoop image w turns d = .ok out ∧ ∀ bg above line old,
      line.length = (if d = 0 then 0 else (d - 1) % w + 1) →
      Term.run ⟨.ground, ⟨none, bg⟩, .within above line old⟩
          (out ++ (ascii "\x1b[0m" ++ ascii "\n")) =
        ⟨.ground, .plain, printed above (pixelLines w (line ++ cs.map pixelCell)) old⟩ := by
  induction turns generalizing d cs with
  | zero =>
    obtain rfl : cs = [] := by
      simpa using hread
    refine ⟨[], rfl, fun bg above line old hline => ?_⟩
    have hlines : pixelLines w (line ++ [].map pixelCell) = [line] := by
      unfold pixelLines
      rw [List.map_nil, List.append_nil]
      by_cases hnil : line = []
      · rw [if_pos hnil, hnil]
      · rw [if_neg hnil]
        refine toChunks_of_le hnil ?_
        rw [hline]
        split
        · omega
        · exact Nat.mod_lt _ hw
    rw [hlines, ← printed_cons]
    simp only [printed, overLines, List.append_nil, List.length_nil, List.drop_zero,
      ← Screen.newLine_within]
    rfl
  | succ turns ih =>
    rw [List.range'_succ] at hread
    cases hread with
    | @cons _ c _ cs hc hread =>
    obtain ⟨out, hout, hrun⟩ := run_compatTurn w hc
    obtain ⟨rest, hrest, hrun'⟩ := ih hread
    refine ⟨out ++ rest, by rw [compatLoop, hout, ok_bind, hrest]; rfl, ?_⟩
    intro bg above line old hline
    rw [List.append_assoc, Term.run_append, hrun]
    by_cases hwrap : d % w = 0 ∧ d ≠ 0
    · -- The line is full, so the pixel goes into the next one.
      have hfull : line.length = w := by
        rw [hline, if_neg hwrap.2]
        obtain ⟨e, rfl⟩ := Nat.exists_eq_succ_of_ne_zero hwrap.2
        rw [Nat.succ_sub_one]
        rcases succ_mod_cases hw e with ⟨hend, -⟩ | ⟨-, hnext⟩
        · exact hend
        · have hzero : (e + 1) % w = 0 := hwrap.1
          omega
      rw [if_pos hwrap, hrun' _ _ _ _ (by simp [hwrap.1]), List.map_cons, List.singleton_append]
      simp only [pixelLines, reduceCtorEq, if_false, List.append_eq_nil_iff, and_false,
        toChunks_append hw hfull, printed_cons]
    · have hlen : line.length = d % w := hline.trans (length_line hw hwrap)
      rw [if_neg hwrap, hrun' _ _ _ _ (by simp [hlen]), List.map_cons, List.append_assoc]
      rfl

/-- There are `h` lines of `w` spaces, each with the colour of its pixel; or one empty line if the
    image is empty. -/
structure ShowsPixels (image : Bytes) (w h : Nat) (rows : List (List Cell)) : Prop where
  height : rows.length = if w * h = 0 then 1 else h
  width : ∀ row ∈ rows, row.length = if w * h = 0 then 0 else w
  cell : ∀ y < h, ∀ x < w, ∃ c, readPixel image (3 * (y * w + x)) = .ok c ∧
    cellAt rows x y = some (pixelCell c)

/-- The pixels in lines show the image. -/
private theorem showsPixels {w h : Nat} {cs : List Color}
    (hread : List.Forall₂ (fun i c => readPixel image (3 * i) = .ok c) (List.range (w * h)) cs) :
    ShowsPixels image w h (pixelLines w (cs.map pixelCell)) := by
  have hlen : cs.length = h * w := by
    rw [← hread.length_eq, List.length_range, Nat.mul_comm]
  -- An image without pixels is one empty line.
  by_cases hzero : w * h = 0
  · obtain rfl : cs = [] := by
      apply List.eq_nil_of_length_eq_zero
      rw [hlen, Nat.mul_comm, hzero]
    refine ⟨by rw [if_pos hzero]; rfl, by rw [if_pos hzero]; simp [pixelLines], ?_⟩
    intro y hy x hx
    have := Nat.mul_pos (Nat.zero_lt_of_lt hx) (Nat.zero_lt_of_lt hy)
    omega
  · have hw : 0 < w := Nat.pos_of_mul_pos_right (Nat.pos_of_ne_zero hzero)
    have hcells : (cs.map pixelCell).length = h * w := by rw [List.length_map, hlen]
    have hne : cs.map pixelCell ≠ [] := by
      apply List.ne_nil_of_length_pos
      rw [hcells, Nat.mul_comm]
      omega
    rw [pixelLines, if_neg hne]
    refine ⟨?_, ?_, ?_⟩
    · rw [if_neg hzero, length_toChunks hw hcells]
    · rw [if_neg hzero]
      exact fun row => length_of_mem_toChunks hw hcells
    · intro y hy x hx
      have hlt : y * w + x < cs.length := by
        rw [hlen]
        exact place_lt hx hy
      have hget := hread.get (by rw [hread.length_eq]; exact hlt) hlt
      rw [List.get_eq_getElem, List.getElem_range] at hget
      refine ⟨_, hget, ?_⟩
      rw [cellAt_toChunks hcells hx hy, List.getElem?_map, List.getElem?_eq_getElem hlt]
      rfl

/-- At the start of a line, `print_raw_img_compat` shows the image over what is there. -/
theorem run_printRawImgCompat {w h : UInt32} (hlen : image.length = 3 * (w.toNat * h.toNat))
    (hsize : w.toNat * h.toNat < 2 ^ 32) (above old : List (List Cell)) :
    ∃ out rows, printRawImgCompat image w h = .ok out ∧
      Term.run ⟨.ground, .plain, .within above [] old⟩ out =
        ⟨.ground, .plain, printed above rows old⟩ ∧
      ShowsPixels image w.toNat h.toNat rows := by
  have hturns : (w * h).toNat = w.toNat * h.toNat := by
    rw [UInt32.toNat_mul, Nat.mod_eq_of_lt hsize]
  have hpixels : ∀ i ∈ List.range (w.toNat * h.toNat), ∃ c, readPixel image (3 * i) = .ok c := by
    intro i hi
    have hlt := List.mem_range.mp hi
    exact readPixel_ok (by omega)
  obtain ⟨cs, hcs⟩ := exists_forall₂_read hpixels
  have hshows := showsPixels hcs
  by_cases hw : w.toNat = 0
  · -- The loop makes no turn.
    rw [hw, Nat.zero_mul] at hcs hturns
    obtain rfl : cs = [] := by simpa using hcs
    refine ⟨ascii "\x1b[0m" ++ ascii "\n", _, ?_, ?_, hshows⟩
    · rw [printRawImgCompat, hturns]
      rfl
    · simp only [List.map_nil, pixelLines, if_true, printed, overLines, List.length_singleton,
        List.drop_one, ← Screen.newLine_within]
      rfl
  · rw [List.range_eq_range'] at hcs
    obtain ⟨out, hout, hrun⟩ := run_compatLoop (Nat.pos_of_ne_zero hw) hcs
    refine ⟨_, _, ?_, hrun none above [] old rfl, hshows⟩
    rw [printRawImgCompat, hturns, hout]
    rfl

end Udb.Spec

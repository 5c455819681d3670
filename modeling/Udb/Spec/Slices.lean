import Udb.Spec.Blocks

/-!
# The image in five slices

`print_raw_img` converts an image in five slices, and divides the number of cells, the
number of pixels and the height by five, each on its own. If the number of rows of
cells is a multiple of five, the slices are stripes of whole rows: each one converts
its own rows, in whatever order they run. Otherwise the height of a slice is rounded up
to whole rows, and the last slice starts so late that its last row is read outside the
image.

## Key results

- `findCharData_drop`: a block of a slice is a block of the image
- `transToChardata_eq_ok`: what one conversion writes
- `slicesAgree_iff`: the slices agree with the plain conversion exactly if five divides
  the number of rows of cells
-/

namespace Udb.Spec

open Native CMem Grid

variable {image : Bytes} {width : Nat}

/-! ## Slices of the image -/

/-- A channel of the rest of an image. -/
private theorem readChannel_drop (image : Bytes) (k i : Nat) :
    readChannel (image.drop k) i = readChannel image (k + i) := by
  rw [readChannel, readChannel, List.getElem?_drop]

/-- A pixel of the rest. -/
private theorem readPixel_drop (image : Bytes) (k px : Nat) :
    readPixel (image.drop k) px = readPixel image (k + px) := by
  simp only [readPixel, readChannel_drop, Nat.add_assoc]

/-- The pixels of a block some rows further down. -/
private theorem blockPixels_add (x0 y0 width rows : Nat) :
    blockPixels x0 (y0 + rows) width
      = (blockPixels x0 y0 width).map (3 * (width * rows) + ·) := by
  rw [blockPixels, blockPixels, List.map_flatMap]
  congr 1
  funext y
  rw [List.map_map]
  congr 1
  funext x
  simp only [Function.comp_apply]
  ring

/-- The range of a block of the rest. -/
private theorem colorRange_drop (image : Bytes) (k : Nat) (pixels : List Nat) :
    colorRange (image.drop k) pixels = colorRange image (pixels.map (k + ·)) := by
  rw [colorRange, colorRange, List.foldlM_map]
  simp only [readPixel_drop]

/-- Its bits. -/
private theorem splitBits_drop (image : Bytes) (k : Nat) (pixels : List Nat) (i : Fin 3) (v : Nat) :
    splitBits (image.drop k) pixels i v = splitBits image (pixels.map (k + ·)) i v := by
  rw [splitBits, splitBits, List.foldlM_map]
  simp only [readChannel_drop, Nat.add_assoc]

/-- A block of the image from a row on is a block of the whole image. -/
theorem findCharData_drop (image : Bytes) (x0 y0 width rows : Nat) :
    findCharData (image.drop (3 * (width * rows))) x0 y0 width
      = findCharData image x0 (y0 + rows) width := by
  -- Dropping whole rows of pixels moves every block up.
  have hmatch : matchBlock (image.drop (3 * (width * rows))) x0 y0 width
      = matchBlock image x0 (y0 + rows) width := by
    simp only [matchBlock, colorRange_drop, splitBits_drop, blockPixels_add]
  have hcreate : ∀ codepoint pattern,
      createCharData (image.drop (3 * (width * rows))) x0 y0 width codepoint pattern
        = createCharData image x0 (y0 + rows) width codepoint pattern := by
    intro codepoint pattern
    simp only [createCharData, blockPixels_add, List.foldlM_map]
    congr 2
    funext b px
    rw [Buckets.add, Buckets.add, readPixel_drop]
  rw [findCharData, findCharData, hmatch]
  simp only [hcreate]

/-! ## Blocks inside and outside the image -/

/-- A pixel inside the image is read. -/
theorem readPixel_ok {px : Nat} (h : px + 2 < image.length) :
    ∃ c, readPixel image px = .ok c := by
  -- The three channels of a pixel stand one behind the other.
  have hread : ∀ i, i ≤ px + 2 → ∃ v, readChannel image i = .ok v := by
    intro i hi
    rw [readChannel, List.getElem?_eq_getElem (by omega)]
    exact ⟨_, rfl⟩
  obtain ⟨r, hr⟩ := hread px (by omega)
  obtain ⟨g, hg⟩ := hread (px + 1) (by omega)
  obtain ⟨b, hb⟩ := hread (px + 2) (by omega)
  simp only [readPixel, hr, hg, hb]
  exact ⟨_, rfl⟩

/-- A pixel that is read is inside. -/
private theorem lt_of_readPixel {px : Nat} {c : Color} (h : readPixel image px = .ok c) :
    px + 2 < image.length := by
  obtain ⟨r, -, h⟩ := bind_eq_ok.mp h
  obtain ⟨g, -, h⟩ := bind_eq_ok.mp h
  obtain ⟨b, hb, -⟩ := bind_eq_ok.mp h
  by_contra hout
  rw [readChannel, List.getElem?_eq_none (by omega)] at hb
  simp at hb

/-- A block whose pixels are in the image has a match and colours. -/
private theorem findCharData_ok {x0 y0 : Nat}
    (h : ∀ px ∈ blockPixels x0 y0 width, px + 2 < image.length) :
    ∃ c, findCharData image x0 y0 width = .ok c := by
  obtain ⟨cs, hcs⟩ := exists_forall₂_read fun px hpx => readPixel_ok (h px hpx)
  have hne : cs ≠ [] := by
    apply List.ne_nil_of_length_pos
    rw [← hcs.length_eq, blockPixels_eq, List.length_map, List.length_range]
    decide
  obtain ⟨r, hrange, -⟩ := colorRange_spec hcs hne
  rw [findCharData, matchBlock_eq_ok hrange (splitBits_eq_ok hcs _ _)]
  exact ⟨_, createCharData_eq_ok _ hcs⟩

/-- Only a block whose pixels are in the image has them. -/
theorem lt_of_findCharData {x0 y0 : Nat} {c : CharData}
    (h : findCharData image x0 y0 width = .ok c) :
    ∀ px ∈ blockPixels x0 y0 width, px + 2 < image.length := by
  intro px hpx
  obtain ⟨m, -, hcreate⟩ := bind_eq_ok.mp h
  obtain ⟨b, hloop, -⟩ := bind_eq_ok.mp hcreate
  rw [add_eq] at hloop
  obtain ⟨c, hc⟩ := read_of_foldlM_eq_ok hloop px hpx
  exact lt_of_readPixel hc

/-- The pixels of a block in the image are in the image. -/
private theorem blockPixels_lt {x0 y0 height : Nat} (hx : x0 + 4 ≤ width) (hy : y0 + 8 ≤ height)
    (hlen : image.length = 3 * (width * height)) :
    ∀ px ∈ blockPixels x0 y0 width, px + 2 < image.length := by
  intro px hpx
  rw [blockPixels_eq] at hpx
  obtain ⟨k, hk, rfl⟩ := List.mem_map.mp hpx
  have hk32 : k < 32 := List.mem_range.mp hk
  -- The pixel is in a row that ends before the image does.
  have hrow : width * (y0 + k / 4 + 1) ≤ width * height :=
    Nat.mul_le_mul_left width (by omega)
  rw [Nat.mul_succ] at hrow
  omega

/-! ## One conversion -/

/-- The places of the blocks in a conversion. -/
private theorem places_eq {a : Nat} (height : Nat) :
    ((steps 8 height).flatMap fun y => (steps 4 (4 * a)).map fun x => (x, y))
      = (List.range ((height + 7) / 8 * a)).map fun k => (4 * (k % a), 8 * (k / a)) := by
  have hcols : (4 * a + 4 - 1) / 4 = a := by omega
  have hplace := flatMap_range_map a ((height + 7) / 8) fun x y => (4 * x, 8 * y)
  rw [← hplace, steps, steps, hcols, List.flatMap_map]
  simp only [List.map_map, Function.comp_def]
  rfl

/-- What one turn of the conversion does with the cell it has found. -/
def store (st : Cells × Nat) (c : CharData) : Except Fault (Cells × Nat) := do
  let cells ← storeCell st.1 st.2 c
  pure (cells, st.2 + 1)

/-- The cells are stored one behind the other. -/
private theorem foldlM_store {cells : Cells} {cha : Nat} {cs : List CharData}
    (h : cha + cs.length ≤ cells.length) :
    cs.foldlM store (cells, cha) = .ok (overwrite cells cha (cs.map some), cha + cs.length) := by
  induction cs generalizing cells cha with
  | nil => simp [overwrite, pure, Except.pure]
  | cons c cs ih =>
    rw [List.length_cons] at h
    have hlt : cha < cells.length := by omega
    -- The first cell is stored in its place, which is inside.
    have hstore : store (cells, cha) c = .ok (cells.set cha (some c), cha + 1) := by
      rw [store, storeCell, if_pos hlt]
      rfl
    -- The others follow behind it.
    have hrest : cs.foldlM store (cells.set cha (some c), cha + 1) = _ :=
      ih (by rw [List.length_set]; omega)
    rw [overwrite_set hlt] at hrest
    rw [List.foldlM_cons, hstore, List.map_cons, List.length_cons, Nat.add_comm cs.length,
      ← Nat.add_assoc]
    exact hrest

/-- A conversion reads a block at each place and goes on by storing a cell. -/
private theorem transToChardata_eq (cells : Cells) (cha : Nat) (image : Bytes) (a height : Nat) :
    transToChardata cells cha image (4 * a) height
      = ((List.range ((height + 7) / 8 * a)).map fun k => (4 * (k % a), 8 * (k / a))).foldlM
          (fun st place => findCharData image place.1 place.2 (4 * a) >>= store st) (cells, cha)
        >>= fun st => pure st.1 := by
  rw [transToChardata, places_eq]
  rfl

/-- The cells of the blocks of an image, row by row, with `a` blocks in a row. -/
def CellsOf (image : Bytes) (a : Nat) (chars : List CharData) : Prop :=
  ∀ (k : Nat) (hk : k < chars.length),
    findCharData image (4 * (k % a)) (8 * (k / a)) (4 * a) = .ok chars[k]

variable {a b q num : Nat} {cells : Cells} {chars : List CharData} {order : List Nat}

/-- What a conversion writes. -/
theorem transToChardata_eq_ok {cha height : Nat} (h : CellsOf image a chars)
    (hlen : chars.length = (height + 7) / 8 * a) (hroom : cha + chars.length ≤ cells.length) :
    transToChardata cells cha image (4 * a) height
      = .ok (overwrite cells cha (chars.map some)) := by
  have hread : List.Forall₂ (fun (place : Nat × Nat) c =>
      findCharData image place.1 place.2 (4 * a) = .ok c)
      ((List.range ((height + 7) / 8 * a)).map fun k => (4 * (k % a), 8 * (k / a))) chars :=
    forall₂_map_range.mpr ⟨hlen, h⟩
  rw [transToChardata_eq, foldlM_read store hread, foldlM_store hroom]
  rfl

/-- A conversion that succeeds has found a cell at each place. -/
private theorem ok_of_transToChardata {cells' : Cells} {cha height k : Nat}
    (h : transToChardata cells cha image (4 * a) height = .ok cells')
    (hk : k < (height + 7) / 8 * a) :
    ∃ c, findCharData image (4 * (k % a)) (8 * (k / a)) (4 * a) = .ok c := by
  rw [transToChardata_eq] at h
  obtain ⟨st, hloop, -⟩ := bind_eq_ok.mp h
  have hread := read_of_foldlM_eq_ok hloop
  exact hread (4 * (k % a), 8 * (k / a)) (List.mem_map.mpr ⟨k, List.mem_range.mpr hk, rfl⟩)

/-! ## The plain conversion -/

/-- The conversion by slices and the plain one write every cell, and the same ones; neither reads
    outside the image or writes outside the cells. -/
def SlicesAgree (image : Bytes) (width height : Nat) (order : List Nat) : Prop :=
  ∃ chars : List CharData, transImage image width height order = .ok (chars.map some)
    ∧ transToChardata (List.replicate (width / 4 * (height / 8)) none) 0 image width height
      = .ok (chars.map some)

/-- An image has a cell for each of its blocks. -/
theorem exists_cellsOf (hlen : image.length = 3 * (4 * a * (8 * b))) :
    ∃ chars, chars.length = b * a ∧ CellsOf image a chars := by
  have hread : ∀ k ∈ (List.range (b * a)).map id,
      ∃ c, findCharData image (4 * (k % a)) (8 * (k / a)) (4 * a) = .ok c := by
    intro k hk
    -- Cell `k` stands in row `k / a` and column `k % a`, so its block is inside.
    have hlt : k < b * a := by simpa using hk
    have ha : 0 < a := Nat.pos_of_lt_mul_left hlt
    have hcol : k % a < a := Nat.mod_lt k ha
    have hrow : k / a < b := Nat.div_lt_of_lt_mul (by rwa [Nat.mul_comm])
    exact findCharData_ok (blockPixels_lt (by omega) (by omega) hlen)
  obtain ⟨chars, hchars⟩ := exists_forall₂_read hread
  exact ⟨chars, forall₂_map_range.mp hchars⟩

/-- There is a cell for each block. -/
theorem numCells_eq (a b : Nat) : 4 * a / 4 * (8 * b / 8) = b * a := by
  rw [Nat.mul_div_cancel_left _ (by decide), Nat.mul_div_cancel_left _ (by decide), Nat.mul_comm]

/-- Without threads the cells are those of the image. -/
theorem plain_eq_ok (h : CellsOf image a chars) (hchars : chars.length = b * a) :
    transToChardata (List.replicate (4 * a / 4 * (8 * b / 8)) none) 0 image (4 * a) (8 * b)
      = .ok (chars.map some) := by
  have hrows : (8 * b + 7) / 8 = b := by omega
  rw [numCells_eq, ← hchars, transToChardata_eq_ok h (by rw [hrows, hchars]) (by simp)]
  simp [overwrite]

/-! ## The slices -/

/-- The cells of a stripe are those of the blocks in its rows. -/
theorem CellsOf.stripe (h : CellsOf image a chars) (q num : Nat) :
    CellsOf (image.drop (3 * (4 * a * (8 * (q * num))))) a (stripe (q * a) chars num) := by
  intro k hk
  -- Cell `k` of the stripe is cell `q * a * num + k` of the image.
  obtain ⟨hk', hin⟩ : k < q * a ∧ q * a * num + k < chars.length := by
    simp only [Grid.stripe, List.length_take, List.length_drop] at hk
    omega
  have ha : 0 < a := Nat.pos_of_lt_mul_left hk'
  have hplace := h (q * a * num + k) hin
  have hsplit : q * a * num + k = a * (q * num) + k := by ring
  have hcol : (q * a * num + k) % a = k % a := by rw [hsplit, Nat.mul_add_mod]
  -- It stands as many rows lower as there are in the stripes above.
  have hrow : (q * a * num + k) / a = k / a + q * num := by
    rw [hsplit, Nat.mul_add_div ha, Nat.add_comm]
  rw [hcol, hrow, Nat.mul_add] at hplace
  rw [findCharData_drop, hplace]
  simp [Grid.stripe]

/-- The arguments of a slice, where the number of its rows is exact. -/
private theorem transThreadArgs_eq (a q num : Nat) :
    transThreadArgs (4 * a) (8 * (threadNum * q)) num
      = ⟨q * a * num, 3 * (4 * a * (8 * (q * num))), 4 * a, 8 * q⟩ := by
  have hpos : 0 < threadNum := by decide
  -- With a multiple of five rows none of the divisions has a rest.
  have hcells : threadNum * q * a / threadNum = q * a := by
    rw [Nat.mul_assoc, Nat.mul_div_cancel_left _ hpos]
  have hheight : 8 * (threadNum * q) / threadNum = 8 * q := by
    rw [Nat.mul_left_comm, Nat.mul_div_cancel_left _ hpos]
  have hpixels : 4 * a * (8 * (threadNum * q)) / threadNum = 4 * a * (8 * q) := by
    rw [Nat.mul_left_comm 8, Nat.mul_left_comm, Nat.mul_div_cancel_left _ hpos]
  rw [transThreadArgs, numCells_eq, hcells, hheight, hpixels]
  congr 1
  ring

/-- A slice writes its stripe. -/
private theorem transToChardataThread_eq_ok (h : CellsOf image a chars)
    (hchars : chars.length = threadNum * (q * a)) (hcells : cells.length = threadNum * (q * a))
    (hnum : num < threadNum) :
    transToChardataThread image cells (transThreadArgs (4 * a) (8 * (threadNum * q)) num)
      = .ok (overwrite cells (q * a * num) (stripe (q * a) (chars.map some) num)) := by
  have hstripe : (stripe (q * a) chars num).length = q * a := length_stripe hnum hchars
  have hrows : (8 * q + 7) / 8 = q := by omega
  have hroom : q * a * num + (stripe (q * a) chars num).length ≤ cells.length := by
    rw [hstripe, hcells]
    exact stripe_le hnum
  rw [transToChardataThread, transThreadArgs_eq,
    transToChardata_eq_ok (h.stripe q num) (by rw [hstripe, hrows]) hroom]
  simp [stripe]

/-- The slices write their stripes one after the other. -/
private theorem foldlM_transToChardataThread (h : CellsOf image a chars)
    (hchars : chars.length = threadNum * (q * a)) (hcells : cells.length = threadNum * (q * a))
    (horder : ∀ num ∈ order, num < threadNum) :
    order.foldlM (fun cells num => transToChardataThread image cells
        (transThreadArgs (4 * a) (8 * (threadNum * q)) num)) cells
      = .ok (order.foldl (fun cells num =>
          overwrite cells (q * a * num) (stripe (q * a) (chars.map some) num)) cells) := by
  induction order generalizing cells with
  | nil => rfl
  | cons num order ih =>
    have hnum : num < threadNum := horder num (List.mem_cons_self ..)
    have hsome : (chars.map some).length = threadNum * (q * a) := by rw [List.length_map, hchars]
    rw [List.foldlM_cons, transToChardataThread_eq_ok h hchars hcells hnum, List.foldl_cons]
    apply ih
    · -- A stripe stays inside the cells, so their number is the same behind it.
      exact length_overwrite_stripe hnum hsome hcells
    · intro num' hmem
      exact horder num' (List.mem_cons_of_mem num hmem)

/-- If five divides the number of rows, the slices write all cells, in whatever order. -/
theorem slicesAgree_of_dvd (hlen : image.length = 3 * (4 * a * (8 * b)))
    (horder : order.Perm (List.range threadNum)) (hdvd : threadNum ∣ b) :
    SlicesAgree image (4 * a) (8 * b) order := by
  obtain ⟨q, rfl⟩ := hdvd
  obtain ⟨chars, hchars, h⟩ := exists_cellsOf hlen
  refine ⟨chars, ?_, plain_eq_ok h hchars⟩
  rw [Nat.mul_assoc] at hchars
  -- The order has each stripe once, so together they are all cells.
  have hmem : ∀ num, num ∈ order ↔ num < threadNum := by
    intro num
    rw [horder.mem_iff, List.mem_range]
  have hstart : (List.replicate (threadNum * (q * a)) (none : Option CharData)).length
      = threadNum * (q * a) := List.length_replicate
  have hsome : (chars.map some).length = threadNum * (q * a) := by rw [List.length_map, hchars]
  rw [transImage, numCells_eq, Nat.mul_assoc,
    foldlM_transToChardataThread h hchars hstart fun num hnum => (hmem num).mp hnum,
    overwrite_stripes hsome hstart hmem]

/-! ## The last slice -/

/-- A loop that succeeds has made each of its turns. -/
private theorem ok_of_transImage {width height : Nat} {cells cells' : Cells}
    (h : order.foldlM (fun cells num => transToChardataThread image cells
      (transThreadArgs width height num)) cells = .ok cells') :
    ∀ num ∈ order, ∃ cells cells', transToChardataThread image cells
      (transThreadArgs width height num) = .ok cells' := by
  induction order generalizing cells with
  | nil => simp
  | cons num order ih =>
    obtain ⟨cells₁, hslice, hrest⟩ := bind_eq_ok.mp h
    intro num' hmem
    cases List.mem_cons.mp hmem with
    | inl heq => exact ⟨cells, cells₁, heq ▸ hslice⟩
    | inr htail => exact ih hrest num' htail

/-- A slice whose height is rounded up reads its last block there. -/
private theorem lt_of_slice {r : Nat} {cells cells' : Cells} (ha : 1 ≤ a) (hr : 0 < r) (hr5 : r < 5)
    (h : transToChardataThread image cells (transThreadArgs (4 * a) (8 * (5 * q + r)) num)
      = .ok cells') :
    4 * a * (8 * (5 * q + r)) / 5 * num * 3 + 3 * (4 * a * (8 * (q + 1))) ≤ image.length := by
  have hrows : (8 * (5 * q + r) / 5 + 7) / 8 = q + 1 := by omega
  have hk : q * a + (a - 1) < (8 * (5 * q + r) / 5 + 7) / 8 * a := by
    rw [hrows, Nat.succ_mul]
    omega
  obtain ⟨c, hc⟩ := ok_of_transToChardata h hk
  have hcol : (q * a + (a - 1)) % a = a - 1 := by
    rw [Nat.mul_comm, Nat.mul_add_mod, Nat.mod_eq_of_lt (by omega)]
  have hrow : (q * a + (a - 1)) / a = q := by
    rw [Nat.mul_comm, Nat.mul_add_div (by omega), Nat.div_eq_of_lt (by omega), Nat.add_zero]
  rw [hcol, hrow] at hc
  -- The last pixel of the last block.
  have hlast := lt_of_findCharData hc (((4 * (a - 1) + 3) + 4 * a * (8 * q + 7)) * 3) (by
    rw [blockPixels_eq]
    exact List.mem_map.mpr ⟨31, by decide, rfl⟩)
  have hpixel : 4 * a * (8 * q + 7) + 4 * a = 4 * a * (8 * (q + 1)) := by ring
  rw [List.length_drop] at hlast
  simp only [transThreadArgs, threadNum] at hlast
  omega

/-- If five does not divide the number of rows, the last slice reads outside the image. -/
theorem dvd_of_transImage (ha : 1 ≤ a) (hlen : image.length = 3 * (4 * a * (8 * b)))
    (hmem : 4 ∈ order) (h : transImage image (4 * a) (8 * b) order = .ok cells) :
    threadNum ∣ b := by
  -- The last thread has read inside the image.
  obtain ⟨cells₀, cells₁, hslice⟩ := ok_of_transImage h 4 hmem
  obtain ⟨q, r, rfl, hr⟩ : ∃ q r, b = 5 * q + r ∧ r < 5 :=
    ⟨b / 5, b % 5, (Nat.div_add_mod b 5).symm, Nat.mod_lt b (by decide)⟩
  cases r with
  | zero => exact ⟨q, rfl⟩
  | succ r =>
    exfalso
    -- A row that is left over would have it read behind the end.
    have hinside := lt_of_slice ha (Nat.succ_pos r) hr hslice
    have hpixels : 4 * a * (8 * (5 * q + (r + 1))) = 160 * (a * q) + 32 * (a * r) + 32 * a := by
      ring
    have hrows : 4 * a * (8 * (q + 1)) = 32 * (a * q) + 32 * a := by ring
    have hle : a * r ≤ a * 3 := Nat.mul_le_mul_left a (by omega)
    rw [hlen, hpixels, hrows] at hinside
    omega

/-! ## The slices and the plain conversion -/

/-- The slices agree with the plain conversion exactly if five divides the number of rows. -/
theorem slicesAgree_iff (ha : 1 ≤ a) (hlen : image.length = 3 * (4 * a * (8 * b)))
    (horder : order.Perm (List.range threadNum)) :
    SlicesAgree image (4 * a) (8 * b) order ↔ threadNum ∣ b := by
  constructor
  · intro h
    obtain ⟨chars, hslices, -⟩ := h
    have hmem : 4 ∈ order := horder.mem_iff.mpr (by decide)
    exact dvd_of_transImage ha hlen hmem hslices
  · intro hdvd
    exact slicesAgree_of_dvd hlen horder hdvd

/-- Five rows of one cell, with the slices in some order. -/
theorem slicesAgree_five :
    SlicesAgree (List.replicate 480 0) (4 * 1) (8 * 5) [4, 2, 0, 3, 1] :=
  (slicesAgree_iff (by decide) (by rw [List.length_replicate]) (by decide)).mpr (by decide)

/-- An image of 640x480 pixels is fitted to a terminal of 80x24 as 19 rows of 50 cells, and the
    slices do not agree there. -/
theorem not_slicesAgree :
    getIdealImageSize 100 none 640 480 true = some ⟨50, 19⟩
      ∧ ¬SlicesAgree (List.replicate 91200 0) (4 * 50) (8 * 19) [0, 1, 2, 3, 4] := by
  constructor
  · decide +kernel
  · intro h
    obtain ⟨chars, hslices, -⟩ := h
    have hdvd := dvd_of_transImage (by decide) (by rw [List.length_replicate]) (by decide) hslices
    exact absurd hdvd (by decide)

end Udb.Spec

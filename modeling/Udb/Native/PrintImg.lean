import Udb.ForStd.CMem
import Udb.ForStd.Histogram
import Udb.ForStd.Trunc

/-!
# Images in the terminal (`print_img.cpp`)

`print_img` fits an image to the terminal, cuts it into blocks of 4x8 pixels and
shows each block as a character with a foreground and a background colour.
`findCharData` splits a block into two sets of pixels, looks up the set in the
table `BITMAPS`, and takes the average colour of the pixels where the pattern that
it found has a 1 and of the others.

The branches of `findCharData` under `direct` are left out: the variable is
constant, `false`. A pointer into the image is the image from there on, and a
pointer into the cells is an index. Decoding and resizing an image is what stb does,
a parameter, and so is the rounding of the shade of a depth. What goes to `stderr` is
left out.
-/

namespace Udb.Native

open CMem Trunc

/-! ## The size -/

/-- `TERM_PADDING_X` -/
def termPaddingX : Int := 8

/-- `TERM_PADDING_Y` -/
def termPaddingY : Int := 4

/-- A width and a height. -/
structure ImageSize where
  width : Int
  height : Int
  deriving DecidableEq, Repr

/-- `STBI_MAX_DIMENSIONS`: stb loads no image that is wider or higher. -/
def stbiMaxDimensions : Int := 16777216

/-- `get_term_size`, given what `ioctl(TIOCGWINSZ)` stores in `ws_col` and `ws_row`, or `none` if
    it fails. -/
def getTermSize (ioctl : Option (UInt16 × UInt16)) : ImageSize :=
  match ioctl with
  | none => ⟨80, 24⟩
  | some (wsCol, wsRow) =>
    if wsCol ||| wsRow = 0 then ⟨80, 24⟩
    else
      { height := if (wsRow.toNat : Int) > 120 then 120 else wsRow.toNat
        width := if (wsCol.toNat : Int) > 400 then 400 else wsCol.toNat }

/-- The first `if` of the loop in `get_ideal_image_size`. -/
def narrow (termW : Int) (aspectRatio : ℚ) (s : ImageSize) : ImageSize :=
  if s.width > termW then
    let width := s.width - termPaddingX
    ⟨width, trunc ((width : ℚ) / aspectRatio)⟩
  else s

/-- The second one. -/
def lower (termH : Int) (aspectRatio : ℚ) (s : ImageSize) : ImageSize :=
  if s.height > termH then
    let height := s.height - termPaddingY
    ⟨trunc ((height : ℚ) * aspectRatio), height⟩
  else s

/-- One turn of the loop, with `solving` at its end. -/
def solveTurn (term : ImageSize) (aspectRatio : ℚ) (s : ImageSize) : ImageSize × Bool :=
  let narrowed := narrow term.width aspectRatio s
  (lower term.height aspectRatio narrowed,
    decide (s.width > term.width) || decide (narrowed.height > term.height))

/-- The loop, for `fuel` turns at most. -/
def solve (term : ImageSize) (aspectRatio : ℚ) : (fuel : Nat) → ImageSize → Option ImageSize
  | 0, _ => none
  | fuel + 1, s =>
    let (s', solving) := solveTurn term aspectRatio s
    if solving then solve term aspectRatio fuel s' else some s'

/-- The terminal without the padding. -/
def paddedTerm (ioctl : Option (UInt16 × UInt16)) : ImageSize :=
  let term := getTermSize ioctl
  ⟨term.width - termPaddingX, term.height - termPaddingY⟩

/-- The size that `get_ideal_image_size` starts from. -/
def startSize (imageWidth imageHeight : Int) (squashingEnabled : Bool) : ImageSize :=
  ⟨if squashingEnabled then imageWidth * 2 else imageWidth, imageHeight⟩

/-- `aspect_ratio`, as an exact quotient. -/
def aspectRatio (s : ImageSize) : ℚ := (s.width : ℚ) / (s.height : ℚ)

/-- `get_ideal_image_size`, for `fuel` turns of its loop at most. -/
def getIdealImageSize (fuel : Nat) (ioctl : Option (UInt16 × UInt16))
    (imageWidth imageHeight : Int) (squashingEnabled : Bool) : Option ImageSize :=
  let s := startSize imageWidth imageHeight squashingEnabled
  solve (paddedTerm ioctl) (aspectRatio s) fuel s

/-! ## The table -/

/-- `BITMAPS`: patterns with the code points of their characters. -/
def bitmaps : List (UInt32 × Nat) :=
  [ (0x00000000, 0x00a0), (0x0000000f, 0x2581), (0x000000ff, 0x2582), (0x00000fff, 0x2583),
    (0x0000ffff, 0x2584), (0x000fffff, 0x2585), (0x00ffffff, 0x2586), (0x0fffffff, 0x2587),
    (0xeeeeeeee, 0x258a), (0xcccccccc, 0x258c), (0x88888888, 0x258e), (0x0000cccc, 0x2596),
    (0x00003333, 0x2597), (0xcccc0000, 0x2598), (0xcccc3333, 0x259a), (0x33330000, 0x259d),
    (0x000ff000, 0x2501), (0x66666666, 0x2503), (0x00077666, 0x250f), (0x000ee666, 0x2513),
    (0x66677000, 0x2517), (0x666ee000, 0x251b), (0x66677666, 0x2523), (0x666ee666, 0x252b),
    (0x000ff666, 0x2533), (0x666ff000, 0x253b), (0x666ff666, 0x254b), (0x000cc000, 0x2578),
    (0x00066000, 0x2579), (0x00033000, 0x257a), (0x00066000, 0x257b), (0x06600660, 0x254f),
    (0x000f0000, 0x2500), (0x0000f000, 0x2500), (0x44444444, 0x2502), (0x22222222, 0x2502),
    (0x000e0000, 0x2574), (0x0000e000, 0x2574), (0x44440000, 0x2575), (0x22220000, 0x2575),
    (0x00030000, 0x2576), (0x00003000, 0x2576), (0x00004444, 0x2577), (0x00002222, 0x2577),
    (0x44444444, 0x23a2), (0x22222222, 0x23a5), (0x0f000000, 0x23ba), (0x00f00000, 0x23bb),
    (0x00000f00, 0x23bc), (0x000000f0, 0x23bd), (0x00066000, 0x25aa),
    -- End marker for "regular" characters.
    (0x00000000, 0x0000),
    -- Teletext / legacy graphics 3x2 block character codes.
    (0xccc00000, 0xfb00), (0x33300000, 0xfb01), (0xfff00000, 0xfb02),
    (0x000cc000, 0xfb03), (0xccccc000, 0xfb04), (0x333cc000, 0xfb05), (0xfffcc000, 0xfb06),
    (0x00033000, 0xfb07), (0xccc33000, 0xfb08), (0x33333000, 0xfb09), (0xfff33000, 0xfb0a),
    (0x000ff000, 0xfb0b), (0xcccff000, 0xfb0c), (0x333ff000, 0xfb0d), (0xfffff000, 0xfb0e),
    (0x00000ccc, 0xfb0f), (0xccc00ccc, 0xfb10), (0x33300ccc, 0xfb11), (0xfff00ccc, 0xfb12),
    (0x000ccccc, 0xfb13), (0x333ccccc, 0xfb14), (0xfffccccc, 0xfb15), (0x00033ccc, 0xfb16),
    (0xccc33ccc, 0xfb17), (0x33333ccc, 0xfb18), (0xfff33ccc, 0xfb19), (0x000ffccc, 0xfb1a),
    (0xcccffccc, 0xfb1b), (0x333ffccc, 0xfb1c), (0xfffffccc, 0xfb1d), (0x00000333, 0xfb1e),
    (0xccc00333, 0xfb1f), (0x33300333, 0x1b20), (0xfff00333, 0x1b21), (0x000cc333, 0x1b22),
    (0xccccc333, 0x1b23), (0x333cc333, 0x1b24), (0xfffcc333, 0x1b25), (0x00033333, 0x1b26),
    (0xccc33333, 0x1b27), (0xfff33333, 0x1b28), (0x000ff333, 0x1b29), (0xcccff333, 0x1b2a),
    (0x333ff333, 0x1b2b), (0xfffff333, 0x1b2c), (0x00000fff, 0x1b2d), (0xccc00fff, 0x1b2e),
    (0x33300fff, 0x1b2f), (0xfff00fff, 0x1b30), (0x000ccfff, 0x1b31), (0xcccccfff, 0x1b32),
    (0x333ccfff, 0x1b33), (0xfffccfff, 0x1b34), (0x00033fff, 0x1b35), (0xccc33fff, 0x1b36),
    (0x33333fff, 0x1b37), (0xfff33fff, 0x1b38), (0x000fffff, 0x1b39), (0xcccfffff, 0x1b3a),
    (0x333fffff, 0x1b3b),
    -- End marker for extended TELETEXT mode.
    (0x00000000, 0x0001)]

/-! ## Blocks -/

/-- The three channels of a colour. -/
abbrev Color := Fin 3 → Nat

/-- `struct CharData` -/
structure CharData where
  fgColor : Color
  bgColor : Color
  codePoint : Nat

/-- `*(image + i)` -/
def readChannel (image : Bytes) (i : Nat) : Except Fault Nat :=
  match image[i]? with
  | none => .error .outOfBounds
  | some b => .ok b.toNat

/-- The channels at `pixel_index`. -/
def readPixel (image : Bytes) (pixelIndex : Nat) : Except Fault Color := do
  let r ← readChannel image pixelIndex
  let g ← readChannel image (pixelIndex + 1)
  let b ← readChannel image (pixelIndex + 2)
  pure ![r, g, b]

/-- The values of `pixel_index` in the two loops over a block. -/
def blockPixels (x0 y0 width : Nat) : List Nat :=
  (List.range 8).flatMap fun y => (List.range 4).map fun x => ((x0 + x) + width * (y0 + y)) * 3

/-- `cstd_bitcount` -/
def cstdBitcount (n : UInt32) : Nat :=
  if n = 0 then 0 else (if n &&& 1 ≠ 0 then 1 else 0) + cstdBitcount (n >>> 1)
termination_by n.toNat
decreasing_by
  rename_i h
  have hpos : n.toNat ≠ 0 := fun h0 => h (UInt32.toNat_inj.mp h0)
  rw [UInt32.toNat_shiftRight, Nat.shiftRight_eq_div_pow]
  exact Nat.div_lt_self (by omega) (by decide)

/-- The local variables of `createCharData`. -/
structure Buckets where
  fgColor : Color
  bgColor : Color
  fgCount : Nat
  bgCount : Nat
  mask : UInt32

/-- One turn of its loops. -/
def Buckets.add (image : Bytes) (pattern : UInt32) (b : Buckets) (pixelIndex : Nat) :
    Except Fault Buckets := do
  let c ← readPixel image pixelIndex
  if pattern &&& b.mask ≠ 0 then
    pure { b with
      fgColor := fun i => b.fgColor i + c i
      fgCount := b.fgCount + 1
      mask := b.mask >>> 1 }
  else
    pure { b with
      bgColor := fun i => b.bgColor i + c i
      bgCount := b.bgCount + 1
      mask := b.mask >>> 1 }

/-- The average of a bucket, or what it started with. -/
def average (sum : Color) (count : Nat) : Color :=
  if count ≠ 0 then fun i => sum i / count else sum

/-- `createCharData` -/
def createCharData (image : Bytes) (x0 y0 width : Nat) (codepoint : Nat) (pattern : UInt32) :
    Except Fault CharData := do
  let b ← (blockPixels x0 y0 width).foldlM (Buckets.add image pattern)
    ⟨fun _ => 0, fun _ => 0, 0, 0, 0x80000000⟩
  pure ⟨average b.fgColor b.fgCount, average b.bgColor b.bgCount, codepoint⟩

/-- The minimum and the maximum of each channel. -/
def colorRange (image : Bytes) (pixels : List Nat) : Except Fault (Color × Color) :=
  pixels.foldlM (fun r pixelIndex => do
    let c ← readPixel image pixelIndex
    pure (fun i => min (r.1 i) (c i), fun i => max (r.2 i) (c i)))
    (fun _ => 255, fun _ => 0)

/-- The channel with the greatest range, and its range: `splitIndex` and `bestSplit`. -/
def splitChannel (min max : Color) : Fin 3 × Nat :=
  (List.finRange 3).foldl
    (fun r i => if max i - min i > r.2 then (i, max i - min i) else r) (0, 0)

/-- `bits`: the pixels whose channel is above the split value. -/
def splitBits (image : Bytes) (pixels : List Nat) (splitIndex : Fin 3) (splitValue : Nat) :
    Except Fault UInt32 :=
  pixels.foldlM (fun bits pixelIndex => do
    let c ← readChannel image (pixelIndex + splitIndex)
    pure (if c > splitValue then bits <<< 1 ||| 1 else bits <<< 1)) 0

/-- What the search has found. -/
structure Match where
  bestDiff : Nat
  bestPattern : UInt32
  codepoint : Nat
  inverted : Bool

/-- One of the two comparisons with an entry: `pattern` is its pattern, or the inverse of it. -/
def Match.compare (bits : UInt32) (entry : UInt32 × Nat) (pattern : UInt32) (m : Match) : Match :=
  let diff := cstdBitcount (pattern ^^^ bits)
  if diff < m.bestDiff then ⟨diff, entry.1, entry.2, entry.1 != pattern⟩ else m

/-- The search, which stops at the entry with code point 0. -/
def searchBitmaps (bits : UInt32) : List (UInt32 × Nat) → Match → Match
  | [], m => m
  | entry :: rest, m =>
    if entry.2 = 0 then m
    -- Skip all end markers.
    else if entry.2 < 32 then searchBitmaps bits rest m
    else
      let m := m.compare bits entry entry.1
      searchBitmaps bits rest (m.compare bits entry (~~~entry.1))

/-- The match of a block: its pixels are split at the middle of the channel with the greatest
    range, and the bits of the split are looked up. -/
def matchBlock (image : Bytes) (x0 y0 width : Nat) : Except Fault Match := do
  let pixels := blockPixels x0 y0 width
  let (min, max) ← colorRange image pixels
  let (splitIndex, bestSplit) := splitChannel min max
  let bits ← splitBits image pixels splitIndex (min splitIndex + bestSplit / 2)
  pure (searchBitmaps bits bitmaps ⟨8, 0x0000ffff, 0x2584, false⟩)

/-- `findCharData`. Its last parameter, the height, is not used. -/
def findCharData (image : Bytes) (x0 y0 width : Nat) : Except Fault CharData := do
  let m ← matchBlock image x0 y0 width
  createCharData image x0 y0 width m.codepoint m.bestPattern

/-! ## The whole image -/

/-- The values of `x` or `y` in a loop up to `n` in steps of `k`. -/
def steps (k n : Nat) : List Nat := (List.range ((n + k - 1) / k)).map (k * ·)

/-- The cells of the output. What `malloc` returns holds nothing yet. -/
abbrev Cells := List (Option CharData)

/-- `*charData = c` -/
def storeCell (cells : Cells) (charData : Nat) (c : CharData) : Except Fault Cells :=
  if charData < cells.length then .ok (cells.set charData (some c)) else .error .outOfBounds

/-- `trans_to_chardata`, with `cha` the place of its first cell. -/
def transToChardata (cells : Cells) (cha : Nat) (image : Bytes) (width height : Nat) :
    Except Fault Cells := do
  let places := (steps 8 height).flatMap fun y => (steps 4 width).map fun x => (x, y)
  let (cells, _) ← places.foldlM (fun (st : Cells × Nat) place => do
    let c ← findCharData image place.1 place.2 width
    let cells ← storeCell st.1 st.2 c
    pure (cells, st.2 + 1)) (cells, cha)
  pure cells

/-- `THREAD_NUM` -/
def threadNum : Nat := 5

/-- `struct trans_thread_args` -/
structure TransThreadArgs where
  ansiChar : Nat
  image : Nat
  width : Nat
  height : Nat

/-- The arguments of the thread `num`. -/
def transThreadArgs (width height num : Nat) : TransThreadArgs where
  ansiChar := width / 4 * (height / 8) / threadNum * num
  image := width * height / threadNum * num * 3
  width := width
  height := height / threadNum

/-- `trans_to_chardata_thread` -/
def transToChardataThread (image : Bytes) (cells : Cells) (args : TransThreadArgs) :
    Except Fault Cells :=
  transToChardata cells args.ansiChar (image.drop args.image) args.width args.height

/-- The conversion in `print_raw_img`, with its threads run in the given order. -/
def transImage (image : Bytes) (width height : Nat) (order : List Nat) : Except Fault Cells :=
  order.foldlM
    (fun cells num => transToChardataThread image cells (transThreadArgs width height num))
    (List.replicate (width / 4 * (height / 8)) none)

/-! ## Output -/

/-- `emitCodepoint` -/
def emitCodepoint (codepoint : Nat) : Bytes :=
  if codepoint < 128 then [UInt8.ofNat codepoint]
  else if codepoint < 0x7ff then
    [UInt8.ofNat (0xc0 ||| codepoint >>> 6), UInt8.ofNat (0x80 ||| (codepoint &&& 0x3f))]
  else if codepoint < 0xffff then
    [UInt8.ofNat (0xe0 ||| codepoint >>> 12), UInt8.ofNat (0x80 ||| (codepoint >>> 6 &&& 0x3f)),
      UInt8.ofNat (0x80 ||| (codepoint &&& 0x3f))]
  else if codepoint < 0x10ffff then
    [UInt8.ofNat (0xf0 ||| codepoint >>> 18), UInt8.ofNat (0x80 ||| (codepoint >>> 12 &&& 0x3f)),
      UInt8.ofNat (0x80 ||| (codepoint >>> 6 &&& 0x3f)),
      UInt8.ofNat (0x80 ||| (codepoint &&& 0x3f))]
  else ascii "codepoint ERROR\n"

/-- `clamp_byte` -/
def clampByte (value : Int) : Int := if value < 0 then 0 else if value > 255 then 255 else value

/-- `%u`, and `%d` of a number that is not negative. -/
def fmtU (n : Nat) : Bytes := (Nat.toDigits 10 n).map fun c => UInt8.ofNat c.toNat

/-- `%03u` -/
def fmt03u (n : Nat) : Bytes := (fmtU n).leftpad 3 48

/-- `emit_color` -/
def emitColor (isBg : Bool) (r g b : Int) : Bytes :=
  (if isBg then ascii "\x1b[48;2;" else ascii "\x1b[38;2;") ++
    (fmtU (clampByte r).toNat ++ (ascii ";" ++ (fmtU (clampByte g).toNat ++ (ascii ";" ++
      (fmtU (clampByte b).toNat ++ ascii "m")))))

/-- `*charData`. A cell that has not been stored holds what `malloc` has left there. -/
def loadCell (junk : Nat → CharData) (cells : Cells) (charData : Nat) : Except Fault CharData :=
  match cells[charData]? with
  | none => .error .outOfBounds
  | some c => .ok (c.getD (junk charData))

/-- One turn of the loop under `draw` in `print_raw_img`. The colours are arrays, so `!=` compares
    where they are. -/
def drawTurn (charWidth : Nat) (junk : Nat → CharData) (cells : Cells)
    (i charData lastCharData : Nat) : Except Fault Bytes := do
  let c ← loadCell junk cells charData
  let bg :=
    if i % charWidth = 0 ∨ charData ≠ lastCharData then
      emitColor true (c.bgColor 0) (c.bgColor 1) (c.bgColor 2)
    else []
  let fg :=
    if i % charWidth = 0 ∨ charData ≠ lastCharData then
      emitColor false (c.fgColor 0) (c.fgColor 1) (c.fgColor 2)
    else []
  let eol := if (i + 1) % charWidth = 0 then ascii "\x1b[0m\n" else []
  pure (bg ++ (fg ++ (emitCodepoint c.codePoint ++ eol)))

/-- The loop, from `i` on. -/
def draw (charWidth : Nat) (junk : Nat → CharData) (cells : Cells) :
    (turns i charData lastCharData : Nat) → Except Fault Bytes
  | 0, _, _, _ => .ok []
  | turns + 1, i, charData, lastCharData => do
    let out ← drawTurn charWidth junk cells i charData lastCharData
    let rest ← draw charWidth junk cells turns (i + 1) (charData + 1) charData
    pure (out ++ rest)

/-- `print_raw_img` -/
def printRawImg (junk : Nat → CharData) (order : List Nat) (image : Bytes) (width height : Nat) :
    Except Fault Bytes := do
  let cells ← transImage image width height order
  draw (width / 4) junk cells (width / 4 * (height / 8)) 0 0 0

/-- One turn of the loop in `print_raw_img_compat`. -/
def compatTurn (img : Bytes) (width d : Nat) : Except Fault Bytes := do
  let eol := if d % width = 0 ∧ d ≠ 0 then ascii "\x1b[0m" ++ ascii "\n" else []
  let c ← readPixel img (3 * d)
  pure (eol ++ (ascii "\x1b[48;2;" ++ (fmt03u (c 0) ++ (ascii ";" ++ (fmt03u (c 1) ++
    (ascii ";" ++ (fmt03u (c 2) ++ ascii "m ")))))))

/-- The loop, from `d` on. -/
def compatLoop (img : Bytes) (width : Nat) : (turns d : Nat) → Except Fault Bytes
  | 0, _ => .ok []
  | turns + 1, d => do
    let out ← compatTurn img width d
    let rest ← compatLoop img width turns (d + 1)
    pure (out ++ rest)

/-- `print_raw_img_compat` -/
def printRawImgCompat (img : Bytes) (width height : UInt32) : Except Fault Bytes := do
  let out ← compatLoop img width.toNat (width * height).toNat 0
  pure (out ++ (ascii "\x1b[0m" ++ ascii "\n"))

/-! ## Depth images -/

/-- `histSize` -/
def histSize : Nat := 9000

/-- The sum of two whole numbers in a `float`. -/
def floatAdd (a b : Nat) : Nat := Histogram.roundBits 24 (a + b)

/-- `histgram[i]`, of an object with `histSize` counters. -/
def histLoad (histgram : Nat → Nat) (i : Nat) : Except Fault Nat :=
  if i < histSize then .ok (histgram i) else .error .outOfBounds

/-- `histgram[i] = c` -/
def histStore (histgram : Nat → Nat) (i c : Nat) : Except Fault (Nat → Nat) :=
  if i < histSize then .ok (Function.update histgram i c) else .error .outOfBounds

/-- One turn of the loop that counts, with `nPointsCount`. -/
def countDepth (s : (Nat → Nat) × UInt32) (depth : UInt16) :
    Except Fault ((Nat → Nat) × UInt32) :=
  if depth ≠ 0 then do
    let c ← histLoad s.1 depth.toNat
    let histgram ← histStore s.1 depth.toNat (floatAdd c 1)
    pure (histgram, s.2 + 1)
  else pure s

/-- One turn of the loop that adds the counts up. -/
def cumulateTurn (histgram : Nat → Nat) (nIndex : Nat) : Except Fault (Nat → Nat) := do
  let c ← histLoad histgram nIndex
  let before ← histLoad histgram (nIndex - 1)
  histStore histgram nIndex (floatAdd c before)

/-- The loop. -/
def cumulate (histgram : Nat → Nat) : Except Fault (Nat → Nat) :=
  (List.range' 1 (histSize - 1)).foldlM cumulateTurn histgram

/-- The two headers. -/
def bmpHeader (width height : UInt32) : Bytes :=
  le16 0x4D42 ++ (le32 (54 + width * height * 3) ++ (le16 0 ++ (le16 0 ++ (le32 54 ++ (le32 40 ++
    (le32 width ++ (le32 height ++ (le16 1 ++ (le16 24 ++ (le32 0 ++ (le32 (4 * width * height) ++
      (le32 0 ++ (le32 0 ++ (le32 0 ++ le32 0))))))))))))))

/-- The counter `i`, which holds `c`, as a byte at the end. `shade c n` is
    `256 * (1.0f - c / n)`. -/
def histByte (shade : Nat → Nat → UInt8) (c : Nat) (nPointsCount : UInt32) (i : Nat) : UInt8 :=
  if nPointsCount ≠ 0 ∧ 1 ≤ i then shade c nPointsCount.toNat else UInt8.ofNat c

/-- The bytes that the last loop stores for a pixel. -/
def depthPixel (shade : Nat → Nat → UInt8) (cum : Nat → Nat) (nPointsCount : UInt32)
    (d : UInt16) : Except Fault Bytes := do
  let c ← histLoad cum d.toNat
  let v := histByte shade c nPointsCount d.toNat
  pure [0, v, v]

/-- `depth2bmp_hist`: the file that it stores in `bmp_img`, an object of `room` bytes. `malloc`
    gives the counters, and no size overflows its int. -/
def depth2bmpHist (shade : Nat → Nat → UInt8) (depthImg : Bytes) (room : Nat)
    (width height : UInt32) : Except Fault Bytes := do
  let words ← (List.range (width.toNat * height.toNat)).mapM fun i => load16 depthImg (2 * i)
  let depths := words.map fun (x : UInt16) => x >>> 3
  let (histgram, nPointsCount) ← depths.foldlM countDepth (fun _ => 0, 0)
  let cum ← cumulate histgram
  let body ← depths.mapM (depthPixel shade cum nPointsCount)
  let bmp := bmpHeader width height ++ body.flatten
  if bmp.length ≤ room then pure bmp else .error .outOfBounds

/-! ## Frames -/

/-- What `print_img` calls of stb. -/
structure Stb where
  /-- `stbi_load_from_memory`, asked for three channels: the size with the pixels. -/
  load : (img : Bytes) → Option (ImageSize × Bytes)
  /-- `stbir_resize_uint8`, or `none` where that returns 0. -/
  resize : (data : Bytes) → (size : ImageSize) → (width height : UInt32) → Option Bytes

/-- `opt_width`, `opt_height` and `compat`. -/
structure ImgOpts where
  optWidth : UInt32
  optHeight : UInt32
  compat : Int

/-- `desired_width` and `desired_height` -/
def ImgOpts.desired (o : ImgOpts) (fit : ImageSize) : UInt32 × UInt32 :=
  let width := if o.optWidth = 0 then UInt32.ofInt fit.width * 4 else o.optWidth
  let height := if o.optHeight = 0 then UInt32.ofInt fit.height * 8 else o.optHeight
  if o.compat = 1 then (width / 4, height / 8) else (width, height)

/-- The image in the size that is asked for. -/
def resizeImg (stb : Stb) (readData : Bytes) (size : ImageSize) (width height : UInt32) :
    Option Bytes :=
  if width ≠ UInt32.ofInt size.width ∨ height ≠ UInt32.ofInt size.height then
    stb.resize readData size width height
  else some readData

/-- The two ways to print it. -/
def printResized (junk : Nat → CharData) (order : List Nat) (o : ImgOpts) (data : Bytes)
    (width height : UInt32) : Except Fault Bytes :=
  if o.compat = 1 then printRawImgCompat data width height
  else printRawImg junk order data width.toNat height.toNat

/-- `print_img`, for `fuel` turns of the loop that fits the image: what it returns and prints, and
    the new value of `last_calc_w` and `last_calc_h`. -/
def printImg (stb : Stb) (junk : Nat → CharData) (order : List Nat) (o : ImgOpts) (fuel : Nat)
    (ioctl : Option (UInt16 × UInt16)) (last : ImageSize) (img : Bytes) :
    Option (Except Fault (Int × Bytes × ImageSize)) :=
  match stb.load img with
  | none => some (.ok (-1, [], last))
  | some (size, readData) =>
    (getIdealImageSize fuel ioctl size.width size.height true).map fun fit => do
      let clear :=
        if last.width ≠ fit.width ∨ fit.height ≠ last.height then ascii "\x1b[H\x1b[J" else []
      let (width, height) := o.desired fit
      match resizeImg stb readData size width height with
      | none => pure (-1, clear, fit)
      | some data => do
        let out ← printResized junk order o data width height
        pure (0, clear ++ out, fit)

end Udb.Native

import Udb.Spec.Capture
import Udb.Spec.FitImage
import Udb.Spec.Screen

/-!
# The live view

`v4l2_process_buffer` sends the cursor home, prints the image over the one before it,
and a line of text below; the loop around it adds the number of the frame and the
time. `print_img` clears the screen when the size of the image changes, and only then.

So the screen is right because of an invariant of the loop: what is on it behind a
frame has exactly the lines that the next frame of that size prints over. The only
thing that is left of older frames is the end of a longer line of numbers.

## Key results

- `turn_shows`: one frame
- `view_shows`: behind every run, the screen shows its last frame
-/

namespace Udb.Spec

open CMem Native Terminal

variable {env : CaptureEnv} {h : CaptureHandle} {f : CaptureFrame} {s s' : CaptureState}

/-! ## What is printed -/

/-- Bytes that the terminal shows one by one. -/
def Printable (bs : Bytes) : Prop := ∀ b ∈ bs, 0x20 ≤ b ∧ b < 0x7f

instance : DecidablePred Printable := fun bs =>
  inferInstanceAs (Decidable (∀ b ∈ bs, 0x20 ≤ b ∧ b < 0x7f))

/-- One text behind another. -/
theorem Printable.append {as bs : Bytes} (ha : Printable as) (hb : Printable bs) :
    Printable (as ++ bs) := by
  intro b hmem
  rcases List.mem_append.mp hmem with hmem | hmem
  · exact ha b hmem
  · exact hb b hmem

/-- Digits are printable. -/
private theorem printable_fmtU (n : Nat) : Printable (fmtU n) := by
  intro b hb
  obtain ⟨c, hc, rfl⟩ := List.mem_map.mp hb
  -- Decimal digits have the codes from 48 to 57.
  have hdigit := Nat.isDigit_of_mem_toDigits (by decide) (by decide) hc
  obtain ⟨hlo, hhi⟩ := Char.isDigit_iff_toNat.mp hdigit
  have hlo' : 48 ≤ c.toNat := hlo
  have hhi' : c.toNat ≤ 57 := hhi
  rw [UInt8.le_iff_toNat_le, UInt8.lt_iff_toNat_lt, UInt8.toNat_ofNat']
  constructor
  · show 32 ≤ _
    omega
  · show _ < 127
    omega

/-- So is a number with its sign. -/
private theorem printable_fmtD (x : UInt32) : Printable (fmtD x) := by
  unfold fmtD
  dsimp only
  split
  · exact printable_fmtU _
  · exact Printable.append (by decide +kernel) (printable_fmtU _)

/-- So is the line over the image. -/
private theorem printable_frameLabel (h : CaptureHandle) : Printable (frameLabel h) := by
  have hname : Printable (if h.mjpeg then ascii "ColorView " else ascii "DepthView Orignal: ") := by
    split <;> decide +kernel
  have hstar : Printable (ascii "*") := by decide +kernel
  exact hname.append ((printable_fmtD _).append (hstar.append (printable_fmtD _)))

/-- The line of text below the image. -/
def labelLine (h : CaptureHandle) : List Cell := Term.text .plain (frameLabel h)

/-- The line of numbers: between the two, a tab leaves what was there. -/
def IsStatus (count : UInt32) (ms : Nat) (line : List Cell) : Prop :=
  ∃ gap left, line = Term.text .plain (ascii "FrameNr: " ++ fmtD count) ++ gap ++
    Term.text .plain (ascii "time " ++ (fmtU ms ++ ascii " ms")) ++ left

/-- The text of a frame, over what was there. -/
private theorem run_label (h : CaptureHandle) (above old : List (List Cell)) :
    Term.run ⟨.ground, .plain, .within above [] old⟩ (frameLabel h ++ ascii "\n") =
      ⟨.ground, .plain,
        .within (above ++ [overLine (labelLine h) (old.headD [])]) [] old.tail⟩ := by
  rw [Term.run_append, Term.run_text (printable_frameLabel h), Term.run_newLine,
    Screen.newLine_within]
  rfl

/-- The line below the image. -/
private theorem run_status (count : UInt32) (ms : Nat) (above old : List (List Cell)) :
    ∃ line, IsStatus count ms line ∧
      Term.run ⟨.ground, .plain, .within above [] old⟩
          (ascii "FrameNr: " ++ (fmtD count ++ (ascii "\t" ++
            (ascii "time " ++ (fmtU ms ++ ascii " ms\n"))))) =
        ⟨.ground, .plain, .within (above ++ [line]) [] old.tail⟩ := by
  have hfront : Printable (ascii "FrameNr: " ++ fmtD count) :=
    Printable.append (by decide +kernel) (printable_fmtD count)
  have hback : Printable (ascii "time " ++ (fmtU ms ++ ascii " ms")) :=
    Printable.append (by decide +kernel) ((printable_fmtU ms).append (by decide +kernel))
  -- The line is a text, a tab, another text, and a newline.
  have hsplit : ascii "FrameNr: " ++ (fmtD count ++ (ascii "\t" ++
      (ascii "time " ++ (fmtU ms ++ ascii " ms\n")))) =
      (ascii "FrameNr: " ++ fmtD count) ++ (ascii "\t" ++
        ((ascii "time " ++ (fmtU ms ++ ascii " ms")) ++ ascii "\n")) := by
    simp only [List.append_assoc]
    rfl
  obtain ⟨gap, -, htab⟩ :=
    Term.run_tab .plain above (Term.text .plain (ascii "FrameNr: " ++ fmtD count)) old
  refine ⟨overLine (Term.text .plain (ascii "FrameNr: " ++ fmtD count) ++ gap ++
    Term.text .plain (ascii "time " ++ (fmtU ms ++ ascii " ms"))) (old.headD []),
    ⟨gap, _, rfl⟩, ?_⟩
  rw [hsplit, Term.run_append, Term.run_text hfront, List.nil_append, Term.run_append, htab,
    Term.run_append, Term.run_text hback, Term.run_newLine, Screen.newLine_within]

/-! ## Images of a size -/

/-- Stb, as far as its documentation goes: it loads no image that is wider or higher than
    `STBI_MAX_DIMENSIONS`, an image has three bytes for each pixel, and one that could be resized
    has the size that was asked for. -/
structure StbSpec (stb : Stb) : Prop where
  load : ∀ img size data, stb.load img = some (size, data) →
    size.width ≤ stbiMaxDimensions ∧ size.height ≤ stbiMaxDimensions ∧
      data.length = 3 * (size.width.toNat * size.height.toNat)
  resize : ∀ data size width height data', stb.resize data size width height = some data' →
    data'.length = 3 * (width.toNat * height.toNat)

/-- An image can be shown in this size. -/
structure Drawable (o : ImgOpts) (fit : ImageSize) : Prop where
  fits : fit ≠ ⟨0, 0⟩
  width : 0 < (o.desired fit).1
  height : 0 < (o.desired fit).2
  spaces : o.compat = 1 → (o.desired fit).1.toNat * (o.desired fit).2.toNat < 2 ^ 32
  blocks : o.compat ≠ 1 →
    4 ∣ (o.desired fit).1.toNat ∧ 8 * threadNum ∣ (o.desired fit).2.toNat

/-- The lines of an image. -/
def Drawn (o : ImgOpts) (pixels : Bytes) (width height : UInt32) (rows : List (List Cell)) : Prop :=
  if o.compat = 1 then ShowsPixels pixels width.toNat height.toNat rows
  else ShowsBlocks pixels (width.toNat / 4) (height.toNat / 8) rows

/-- The number of lines, and of cells in each of them. -/
def lineSize (o : ImgOpts) (fit : ImageSize) : Nat × Nat :=
  let (width, height) := o.desired fit
  if o.compat = 1 then (height.toNat, width.toNat) else (height.toNat / 8, width.toNat / 4)

/-- The drawn lines fill the size that was chosen. -/
theorem Drawn.lines {o : ImgOpts} {fit : ImageSize} {pixels : Bytes} {rows : List (List Cell)}
    (hfit : Drawable o fit) (hd : Drawn o pixels (o.desired fit).1 (o.desired fit).2 rows) :
    rows.length = (lineSize o fit).1 ∧ ∀ row ∈ rows, row.length = (lineSize o fit).2 := by
  unfold Drawn at hd
  unfold lineSize
  by_cases hcompat : o.compat = 1
  · -- Spaces, one for each pixel.
    have hne : (o.desired fit).1.toNat * (o.desired fit).2.toNat ≠ 0 :=
      (Nat.mul_pos (UInt32.lt_iff_toNat_lt.mp hfit.width)
        (UInt32.lt_iff_toNat_lt.mp hfit.height)).ne'
    simp only [hcompat, if_true] at hd ⊢
    have hheight := hd.height
    have hwidth := hd.width
    rw [if_neg hne] at hheight hwidth
    exact ⟨hheight, hwidth⟩
  · -- Blocks.
    simp only [hcompat, if_false] at hd ⊢
    exact ⟨hd.height, hd.width⟩

/-- Printing an image in a size in which it can be shown. -/
private theorem run_image {o : ImgOpts} {fit : ImageSize} {pixels : Bytes} (hfit : Drawable o fit)
    (hlen : pixels.length = 3 * ((o.desired fit).1.toNat * (o.desired fit).2.toNat))
    (horder : env.order.Perm (List.range threadNum)) (old : List (List Cell)) :
    ∃ out rows,
      printResized env.junk env.order o pixels (o.desired fit).1 (o.desired fit).2 = .ok out ∧
      Term.run ⟨.ground, .plain, .within [] [] old⟩ out =
        ⟨.ground, .plain, printed [] rows old⟩ ∧
      Drawn o pixels (o.desired fit).1 (o.desired fit).2 rows := by
  unfold Drawn printResized
  by_cases hcompat : o.compat = 1
  · -- Spaces, one for each pixel.
    simp only [hcompat, if_true]
    exact run_printRawImgCompat hlen (hfit.spaces hcompat) [] old
  · simp only [hcompat, if_false]
    -- Blocks: their rows are a multiple of five.
    obtain ⟨⟨a, ha⟩, ⟨q, hq⟩⟩ := hfit.blocks hcompat
    have hpos := UInt32.lt_iff_toNat_lt.mp hfit.width
    rw [ha] at hpos hlen ⊢
    rw [hq, Nat.mul_assoc 8 threadNum q] at hlen ⊢
    rw [Nat.mul_div_cancel_left _ (by decide), Nat.mul_div_cancel_left _ (by decide)]
    exact run_printRawImg (by
      have hzero : (0 : UInt32).toNat = 0 := rfl
      omega) hlen horder (Dvd.intro q rfl) env.junk [] old

/-! ## One frame -/

/-- The frame can be decoded, it has a pixel, and it can be resized and shown in the terminal that
    it finds. -/
def FrameOk (env : CaptureEnv) (h : CaptureHandle) (f : CaptureFrame) : Prop :=
  ∃ img size data, framePicture env.shade h f.data = .ok img ∧
    env.stb.load img = some (size, data) ∧ 1 ≤ size.width ∧ 1 ≤ size.height ∧ ∀ fuel fit,
      getIdealImageSize fuel f.term size.width size.height true = some fit →
        Drawable h.opts fit ∧ ∃ pixels, resizeImg env.stb data size (h.opts.desired fit).1
          (h.opts.desired fit).2 = some pixels

/-- The screen shows the frame and the text below it, and nothing else, with the cursor behind. -/
def OnScreen (env : CaptureEnv) (h : CaptureHandle) (f : CaptureFrame) (s : CaptureState)
    (t : Term) : Prop :=
  ∃ img size data pixels rows status, framePicture env.shade h f.data = .ok img ∧
    env.stb.load img = some (size, data) ∧
    (∃ fuel, getIdealImageSize fuel f.term size.width size.height true = some s.last) ∧
    resizeImg env.stb data size (h.opts.desired s.last).1 (h.opts.desired s.last).2 =
      some pixels ∧
    Drawn h.opts pixels (h.opts.desired s.last).1 (h.opts.desired s.last).2 rows ∧
    IsStatus s.count f.ms status ∧
    t = ⟨.ground, .plain, .within (rows ++ [labelLine h, status]) [] []⟩

/-- The invariant of the loop: no image has been shown, or the next one of the same size has the
    lines of the last one to print over. -/
def Ready (h : CaptureHandle) (s : CaptureState) (t : Term) : Prop :=
  t.mode = .ground ∧ t.pen = .plain ∧ (s.last = ⟨0, 0⟩ ∨ ∃ rows status,
    t.screen = .within (rows ++ [labelLine h, status]) [] [] ∧
    rows.length = (lineSize h.opts s.last).1 ∧
    ∀ row ∈ rows, row.length = (lineSize h.opts s.last).2)

/-- The loop that fits an image ends, and the fuel does not matter. -/
private theorem getIdealImageSize_returns {size : ImageSize} (ioctl : Option (UInt16 × UInt16))
    (hw : 1 ≤ size.width) (hh : 1 ≤ size.height) :
    ∃ fit n, ∀ fuel, n ≤ fuel →
      getIdealImageSize fuel ioctl size.width size.height true = some fit := by
  have hstart : 0 < (startSize size.width size.height true).width := by
    simp only [startSize, if_true]
    omega
  obtain ⟨hq, hline⟩ := onLine_startSize hstart (by simp only [startSize]; omega)
  obtain ⟨r, -, hr⟩ := @solve_returns _ _ (paddedTerm ioctl) hq hline
  exact ⟨r, _, fun fuel hfuel => hr fuel (Nat.lt_of_succ_le hfuel)⟩

/-- The image in the size that is asked for. -/
private theorem length_resizeImg (hstb : StbSpec env.stb) {img data pixels : Bytes}
    {size : ImageSize}
    (hload : env.stb.load img = some (size, data)) (hw : 1 ≤ size.width) (hh : 1 ≤ size.height)
    {width height : UInt32} (hpixels : resizeImg env.stb data size width height = some pixels) :
    pixels.length = 3 * (width.toNat * height.toNat) := by
  obtain ⟨hw', hh', hlen⟩ := hstb.load _ _ _ hload
  unfold resizeImg at hpixels
  split at hpixels
  · -- The image was resized.
    exact hstb.resize _ _ _ _ _ hpixels
  · next hsame =>
    obtain rfl := Option.some.inj hpixels
    obtain ⟨hwidth, hheight⟩ := not_or.mp hsame
    have hmax : stbiMaxDimensions = 16777216 := rfl
    -- It has the size already, and conversion to `unsigned` changes nothing.
    have hnat : ∀ x : Int, 1 ≤ x → x ≤ stbiMaxDimensions → (UInt32.ofInt x).toNat = x.toNat := by
      intro x hlo hhi
      rw [UInt32.ofInt, UInt32.toNat_ofNat']
      omega
    rw [not_not.mp hwidth, not_not.mp hheight, hnat _ hw hw', hnat _ hh hh', hlen]

/-- What `print_img` finds where it starts to print: an empty screen, or the lines of an image of
    the same size. -/
private theorem run_clearImg {fit : ImageSize} {t : Term} (hready : Ready h s t)
    (hne : fit ≠ ⟨0, 0⟩) :
    ∃ old, Term.run t (ascii "\x1b[1;0H" ++
        (if s.last.width ≠ fit.width ∨ fit.height ≠ s.last.height then ascii "\x1b[H\x1b[J"
          else [])) = ⟨.ground, .plain, .within [] [] old⟩ ∧
      (old = [] ∨ ∃ rows status, old = rows ++ [labelLine h, status, []] ∧
        rows.length = (lineSize h.opts fit).1 ∧
        ∀ row ∈ rows, row.length = (lineSize h.opts fit).2) := by
  obtain ⟨hmode, hpen, hlast⟩ := hready
  have hstart : t = ⟨.ground, .plain, t.screen⟩ := by
    rw [← hmode, ← hpen]
  rw [hstart, Term.run_append, Term.run_home]
  -- The screen is cleared where the size is another one.
  by_cases hsame : s.last.width ≠ fit.width ∨ fit.height ≠ s.last.height
  · rw [if_pos hsame, Term.run_clear]
    exact ⟨[], rfl, .inl rfl⟩
  · obtain ⟨hw, hh⟩ := not_or.mp hsame
    have heq : s.last = fit := by
      calc s.last = ⟨s.last.width, s.last.height⟩ := rfl
        _ = ⟨fit.width, fit.height⟩ := by rw [not_not.mp hw, not_not.mp hh]
        _ = fit := rfl
    rw [if_neg hsame]
    refine ⟨t.screen.rows, rfl, ?_⟩
    rcases hlast with hzero | ⟨rows, status, hscreen, hlines⟩
    · exact absurd (heq.symm.trans hzero) hne
    · right
      refine ⟨rows, status, ?_, heq ▸ hlines⟩
      rw [hscreen, Screen.rows_within]
      simp [overLine]

/-- An image replaces the one before it, and leaves the text below that. -/
private theorem printed_eq {rows old : List (List Cell)} {height width : Nat}
    (hheight : rows.length = height) (hwidth : ∀ row ∈ rows, row.length = width)
    (hold : old = [] ∨ ∃ rows' status, old = rows' ++ [labelLine h, status, []] ∧
      rows'.length = height ∧ ∀ row ∈ rows', row.length = width) :
    ∃ rest, printed [] rows old = .within rows [] rest ∧
      (rest = [] ∨ ∃ status, rest = [labelLine h, status, []]) := by
  rcases hold with rfl | ⟨rows', status, rfl, hheight', hwidth'⟩
  · refine ⟨[], ?_, .inl rfl⟩
    rw [printed, overLines_eq_self hwidth (by simp), List.drop_nil, List.nil_append]
  · have hlen : rows.length = rows'.length := hheight.trans hheight'.symm
    refine ⟨_, ?_, .inr ⟨status, rfl⟩⟩
    rw [printed, overLines_eq_self hwidth, hlen, List.drop_left, List.nil_append]
    rw [hlen, List.take_left]
    exact fun row hrow => (hwidth' row hrow).le

/-- What a frame prints, in front of the image and behind it. -/
private theorem v4l2CapTurn_eq {img data pixels out : Bytes} {size fit : ImageSize} {fuel : Nat}
    (hprint : h.imgPrint ≠ 0) (hbatch : h.batchMode ≠ 1)
    (himg : framePicture env.shade h f.data = .ok img)
    (hload : env.stb.load img = some (size, data))
    (hfit : getIdealImageSize fuel f.term size.width size.height true = some fit)
    (hpixels : resizeImg env.stb data size (h.opts.desired fit).1 (h.opts.desired fit).2 =
      some pixels)
    (hout : printResized env.junk env.order h.opts pixels (h.opts.desired fit).1
      (h.opts.desired fit).2 = .ok out) :
    v4l2CapTurn env h fuel f s = some (.ok (
      (ascii "\x1b[1;0H" ++ (((if s.last.width ≠ fit.width ∨ fit.height ≠ s.last.height then
        ascii "\x1b[H\x1b[J" else []) ++ out) ++ (frameLabel h ++ ascii "\n"))) ++
      (ascii "FrameNr: " ++ (fmtD (s.count + 1) ++ (ascii "\t" ++ (ascii "time " ++
        (fmtU f.ms ++ ascii " ms\n"))))),
      ⟨fit, dumpFrame s.dump f.data, s.count + 1⟩)) := by
  simp only [v4l2CapTurn, v4l2ProcessBuffer, printImg, himg, hload, hfit, Option.map_some,
    hpixels, hout, ok_bind, pure_eq_ok, if_pos hprint, if_pos hbatch]

/-- A frame shows up, and leaves the invariant to the next one. -/
theorem turn_shows {t : Term} (hstb : StbSpec env.stb)
    (horder : env.order.Perm (List.range threadNum)) (hprint : h.imgPrint ≠ 0)
    (hbatch : h.batchMode ≠ 1) (hok : FrameOk env h f) (hready : Ready h s t) :
    ∃ n out s', (∀ fuel, n ≤ fuel → v4l2CapTurn env h fuel f s = some (.ok (out, s'))) ∧
      s'.count = s.count + 1 ∧ OnScreen env h f s' (t.run out) := by
  obtain ⟨img, size, data, himg, hload, hw, hh, hdraw⟩ := hok
  obtain ⟨fit, n, hfit⟩ := getIdealImageSize_returns f.term hw hh
  obtain ⟨hdrawable, pixels, hpixels⟩ := hdraw n fit (hfit n (Nat.le_refl n))
  have hlen := length_resizeImg hstb hload hw hh hpixels
  obtain ⟨old, hclear, hold⟩ := run_clearImg hready hdrawable.fits
  obtain ⟨out, rows, hout, hrun, hdrawn⟩ := run_image hdrawable hlen horder old
  obtain ⟨hlength, hwidth⟩ := hdrawn.lines hdrawable
  obtain ⟨rest, hprinted, hrest⟩ := printed_eq hlength hwidth hold
  obtain ⟨status, hstatus, hrunStatus⟩ := run_status (s.count + 1) f.ms (rows ++ [labelLine h])
    rest.tail
  refine ⟨n, _, _, fun fuel hfuel =>
    v4l2CapTurn_eq hprint hbatch himg hload (hfit fuel hfuel) hpixels hout, rfl, ?_⟩
  refine ⟨img, size, data, pixels, rows, status, himg, hload, ⟨n, hfit n (Nat.le_refl n)⟩,
    hpixels, hdrawn, hstatus, ?_⟩
  -- The line of text replaces itself.
  have hlabel : overLine (labelLine h) (rest.headD []) = labelLine h := by
    rcases hrest with rfl | ⟨status, rfl⟩ <;> exact overLine_eq_self (by simp)
  have hlast : Screen.within (rows ++ [labelLine h] ++ [status]) [] rest.tail.tail =
      .within (rows ++ [labelLine h, status]) [] [] := by
    rw [List.append_assoc]
    rcases hrest with rfl | ⟨status, rfl⟩ <;> rfl
  have hassoc : ∀ a b c d : Bytes, a ++ ((b ++ c) ++ d) = (a ++ b) ++ (c ++ d) := by simp
  have himage : t.run (ascii "\x1b[1;0H" ++ (((if s.last.width ≠ fit.width ∨
      fit.height ≠ s.last.height then ascii "\x1b[H\x1b[J" else []) ++ out) ++
        (frameLabel h ++ ascii "\n"))) =
      ⟨.ground, .plain, .within (rows ++ [labelLine h]) [] rest.tail⟩ := by
    rw [hassoc, Term.run_append, hclear, Term.run_append, hrun, hprinted, run_label, hlabel]
  rw [Term.run_append, himage, hrunStatus, hlast]

/-- The invariant behind a frame. -/
theorem OnScreen.ready {t : Term} (hok : FrameOk env h f) (hs : OnScreen env h f s t) :
    Ready h s t := by
  obtain ⟨img, size, data, pixels, rows, status, himg, hload, hfit, -, hdrawn, -, rfl⟩ := hs
  obtain ⟨img', size', data', himg', hload', -, -, hdraw⟩ := hok
  obtain rfl := Except.ok.inj (himg.symm.trans himg')
  obtain ⟨rfl, rfl⟩ := Prod.mk.inj (Option.some.inj (hload.symm.trans hload'))
  obtain ⟨fuel, hfit⟩ := hfit
  exact ⟨rfl, rfl, .inr ⟨rows, status, rfl, hdrawn.lines (hdraw fuel _ hfit).1⟩⟩

/-! ## Runs -/

/-- A run from a state between two frames. -/
private theorem run_shows (hstb : StbSpec env.stb) (horder : env.order.Perm (List.range threadNum))
    (hprint : h.imgPrint ≠ 0) (hbatch : h.batchMode ≠ 1) (fs : List CaptureFrame)
    (hok : ∀ g ∈ fs ++ [f], FrameOk env h g) {t : Term} (hready : Ready h s t) :
    ∃ n out s', (∀ fuel, n ≤ fuel →
        v4l2CapLoop env h fuel (fs ++ [f]) s = some (.ok (out, s'))) ∧
      s'.count = s.count + UInt32.ofNat (fs.length + 1) ∧ OnScreen env h f s' (t.run out) := by
  -- Induction on the frames in front of the last one: each leaves a state between two frames.
  induction fs generalizing s t with
  | nil =>
    obtain ⟨n, out, s', hturn, hcount, hshows⟩ :=
      turn_shows hstb horder hprint hbatch (hok f (by simp)) hready
    refine ⟨n, out, s', fun fuel hfuel => ?_, hcount, hshows⟩
    simp [v4l2CapLoop, hturn fuel hfuel]
  | cons g fs ih =>
    obtain ⟨hg, hok⟩ := List.forall_mem_cons.mp hok
    obtain ⟨n, out, s₁, hturn, hcount, hshows⟩ := turn_shows hstb horder hprint hbatch hg hready
    obtain ⟨n', outs, s', hrest, hcount', hlast⟩ := ih hok (hshows.ready hg)
    refine ⟨max n n', out ++ outs, s', fun fuel hfuel => ?_, ?_, ?_⟩
    · simp only [List.cons_append, v4l2CapLoop, hturn fuel (by omega), hrest fuel (by omega)]
      rfl
    · rw [hcount', hcount, List.length_cons, UInt32.add_assoc]
      congr 1
      rw [UInt32.ofNat_add (fs.length + 1) 1, UInt32.add_comm]
      rfl
    · rw [Term.run_append]
      exact hlast

/-- The four bytes of a field. -/
def fieldAt (img : Bytes) (off : Nat) : Nat := ofLe ((img.drop off).take 4)

/-- The pixels of a bitmap with 24 bits a pixel, which stores the last line first and blue first. -/
def bmpPixels (img : Bytes) (width height : Nat) : Bytes :=
  (List.range height).reverse.flatMap fun j => (List.range width).flatMap fun i =>
    let pixel := 54 + 3 * (j * width + i)
    [img.getD (pixel + 2) 0, img.getD (pixel + 1) 0, img.getD pixel 0]

/-- A decoder for bitmaps like those of `depth2bmp_hist`, whose lines need no padding. It resizes
    nothing. -/
def bmpStb : Stb where
  load img :=
    let width := fieldAt img 18
    let height := fieldAt img 22
    if img.take 2 = ascii "BM" ∧ fieldAt img 10 = 54 ∧ fieldAt img 14 = 40 ∧
        fieldAt img 26 = 1 + 24 * 2 ^ 16 ∧ fieldAt img 30 = 0 ∧ 4 ∣ width ∧
        width ≤ 2 ^ 24 ∧ height ≤ 2 ^ 24 ∧ 54 + 3 * (height * width) ≤ img.length then
      some (⟨width, height⟩, bmpPixels img width height)
    else none
  resize _ _ _ _ := none

/-- It decodes and resizes as stb does. -/
private theorem stbSpec_bmpStb : StbSpec bmpStb := by
  constructor
  · intro img size data hload
    -- It loads a picture that the capture loop makes, and nothing else.
    dsimp only [bmpStb] at hload
    split at hload
    · next hbmp =>
      obtain ⟨-, -, -, -, -, -, hw, hh, -⟩ := hbmp
      obtain ⟨rfl, rfl⟩ := Prod.mk.inj (Option.some.inj hload)
      have hmax : stbiMaxDimensions = 16777216 := rfl
      refine ⟨by dsimp only; omega, by dsimp only; omega, ?_⟩
      simp [bmpPixels, List.length_flatMap, Nat.mul_comm, Nat.mul_assoc]
    · cases hload
  · intro data size width height data' hresize
    cases hresize

end Udb.Spec

import Udb.ForStd.Histogram
import Udb.Native.Capture

/-!
# What the capture makes of a frame

The dump file is written from its start for every frame and never made shorter, so an older and
longer frame shows behind a shorter one.

A depth frame becomes a picture in which the shade of a pixel tells how many of the measured
points are not farther away than it is: the counters of `depth2bmp_hist` are floats, and up to
`2 ^ 24` pixels they are ranks. Its object has room for four bytes a pixel, which is not enough
for the headers of a very small picture.

## Key results

- `dump_is_last_iff`: when the dump file is the last frame
- `depthFrame_shows_iff`: when the picture can be made, and what it is
-/

namespace Udb.Spec

open CMem Native Histogram

/-! ## The dump file -/

section Dump

variable {env : CaptureEnv} {h : CaptureHandle} {fuel : Nat} {f : CaptureFrame}
variable {s s' : CaptureState} {out : Bytes}

/-- A frame is dumped as one. -/
private theorem dump_process (hrun : v4l2ProcessBuffer env h fuel f s = some (.ok (out, s'))) :
    s'.dump = dumpFrame s.dump f.data := by
  unfold v4l2ProcessBuffer at hrun
  dsimp only at hrun
  -- The file is written first, and nothing that is shown changes it.
  split at hrun
  · split at hrun
    · simp at hrun
    · obtain ⟨r, -, hr⟩ := Option.map_eq_some_iff.mp hrun
      obtain ⟨⟨_, _, last⟩, -, hs⟩ := bind_eq_ok.mp hr
      obtain ⟨-, rfl⟩ := pure_pair_eq_ok.mp hs
      rfl
  · simp only [Option.some.injEq, Except.ok.injEq, Prod.mk.injEq] at hrun
    obtain ⟨-, rfl⟩ := hrun
    rfl

/-- A turn of the loop dumps its frame and nothing else. -/
private theorem dump_turn (hrun : v4l2CapTurn env h fuel f s = some (.ok (out, s'))) :
    s'.dump = dumpFrame s.dump f.data := by
  obtain ⟨r, hprocess, hr⟩ := Option.map_eq_some_iff.mp hrun
  obtain ⟨⟨out', s''⟩, rfl, hs⟩ := bind_eq_ok.mp hr
  obtain ⟨-, rfl⟩ := pure_pair_eq_ok.mp hs
  exact (dump_process hprocess : s''.dump = _)

/-- The file when frames are written over it one by one. -/
def dumped (file : Bytes) (fs : List CaptureFrame) : Bytes :=
  fs.foldl (fun file f => overlay f.data file) file

/-- A whole run dumps its frames one after the other. -/
private theorem dump_run {fs : List CaptureFrame}
    (hrun : v4l2CapLoop env h fuel fs s = some (.ok (out, s'))) :
    s'.dump = s.dump.map fun file => dumped file fs := by
  induction fs generalizing s out with
  | nil =>
    simp only [v4l2CapLoop, Option.some.injEq, Except.ok.injEq, Prod.mk.injEq] at hrun
    rw [← hrun.2]
    simp [dumped]
  | cons f fs ih =>
    rw [v4l2CapLoop] at hrun
    split at hrun
    · cases hrun
    · simp at hrun
    · -- Each turn stores its frame over the file, so what counts is the last.
      rename_i out₁ s₁ hturn
      obtain ⟨r, hloop, hr⟩ := Option.map_eq_some_iff.mp hrun
      obtain ⟨⟨outs, s₂⟩, rfl, hs⟩ := bind_eq_ok.mp hr
      obtain ⟨-, rfl⟩ := pure_pair_eq_ok.mp hs
      rw [ih hloop, dump_turn hturn, dumpFrame, Option.map_map]
      rfl

/-- The file is as long as the longest frame, or as it was. -/
private theorem length_dumped_le_iff (file : Bytes) (fs : List CaptureFrame) (n : Nat) :
    (dumped file fs).length ≤ n ↔ file.length ≤ n ∧ ∀ f ∈ fs, f.data.length ≤ n := by
  induction fs generalizing file with
  | nil => simp [dumped]
  | cons f fs ih =>
    have hcons : dumped file (f :: fs) = dumped (overlay f.data file) fs := rfl
    rw [hcons, ih, length_overlay, Nat.max_le, List.forall_mem_cons]
    tauto

/-- The dump file is the last frame exactly when no older frame was longer, and the file was not
    either: for every run of the capture that comes through, with any frames. -/
theorem dump_is_last_iff (env : CaptureEnv) (h : CaptureHandle) (fuel : Nat)
    (fs : List CaptureFrame) (f : CaptureFrame) (s s' : CaptureState) (file out : Bytes)
    (hfile : s.dump = some file)
    (hrun : v4l2CapLoop env h fuel (fs ++ [f]) s = some (.ok (out, s'))) :
    s'.dump = some f.data ↔
      file.length ≤ f.data.length ∧ ∀ g ∈ fs, g.data.length ≤ f.data.length := by
  have hdump : s'.dump = some (overlay f.data (dumped file fs)) := by
    rw [dump_run hrun, hfile]
    simp [dumped]
  rw [hdump, Option.some.injEq, ← length_dumped_le_iff]
  constructor
  · -- A file that is longer than the frame is not the frame.
    intro hlast
    have hlen := congrArg List.length hlast
    rw [length_overlay] at hlen
    omega
  · exact overlay_of_le

/-- A capture that shows nothing, into an empty file. -/
theorem dump_is_last_iff_two :
    let env : CaptureEnv := ⟨⟨fun _ => none, fun _ _ _ _ => none⟩, fun _ _ => 0,
      fun _ => ⟨fun _ => 0, fun _ => 0, 0⟩, []⟩
    ∃ out s', v4l2CapLoop env ⟨4, 8, true, 0, 0, ⟨0, 0, 0⟩⟩ 0
        ([⟨[3], none, 0⟩] ++ [⟨[1, 2], none, 0⟩]) ⟨⟨0, 0⟩, some [], 0⟩ = some (.ok (out, s')) ∧
      s'.dump = some [1, 2] := by
  intro env
  have hrun := rfl (a := v4l2CapLoop env ⟨4, 8, true, 0, 0, ⟨0, 0, 0⟩⟩ 0
    ([⟨[3], none, 0⟩] ++ [⟨[1, 2], none, 0⟩]) ⟨⟨0, 0⟩, some [], 0⟩)
  exact ⟨_, _, hrun, (dump_is_last_iff env _ 0 [⟨[3], none, 0⟩] ⟨[1, 2], none, 0⟩ _ _ [] _ rfl
    hrun).mpr (by simp)⟩

end Dump

/-! ## Depth frames -/

section Depth

variable {depthImg bmp : Bytes} {width height : UInt32}

/-- The depth of a pixel, without the three low bits. -/
def depthAt (depthImg : Bytes) (i : Nat) : UInt16 :=
  UInt16.ofNat (ofLe ((depthImg.drop (2 * i)).take 2)) >>> 3

/-- The depths of a frame. -/
def depthsOf (depthImg : Bytes) (size : Nat) : List UInt16 :=
  (List.range size).map (depthAt depthImg)

/-- The points that are measured: a depth of 0 says that there is none. -/
def points (depths : List UInt16) : List Nat := (depths.filter (· ≠ 0)).map UInt16.toNat

@[simp] theorem points_zero (depths : List UInt16) : points (0 :: depths) = points depths := by
  rw [points, List.filter_cons_of_neg (by decide), points]

/-- A depth that is not 0 is a point. -/
private theorem points_cons {d : UInt16} (hd : d ≠ 0) (depths : List UInt16) :
    points (d :: depths) = d.toNat :: points depths := by
  rw [points, List.filter_cons_of_pos (by simp [hd]), List.map_cons, points]

/-- The shade of a depth is that of the number of points which are not farther away. -/
def shadeOf (shade : Nat → Nat → UInt8) (depths : List UInt16) (d : UInt16) : UInt8 :=
  if d = 0 then 0 else shade (rank (points depths) d.toNat) (points depths).length

/-- The picture of a depth frame. -/
def depthPicture (shade : Nat → Nat → UInt8) (depthImg : Bytes) (width height : UInt32) : Bytes :=
  let depths := depthsOf depthImg (width.toNat * height.toNat)
  bmpHeader width height ++ depths.flatMap fun d =>
    [0, shadeOf shade depths d, shadeOf shade depths d]

/-- The two headers of the picture. -/
private theorem length_bmpHeader (width height : UInt32) :
    (bmpHeader width height).length = 54 := by
  simp only [bmpHeader, List.length_append, length_le16, length_le32]

/-- Three bytes for each pixel behind the headers. -/
private theorem length_depthPicture (shade : Nat → Nat → UInt8) (depthImg : Bytes)
    (width height : UInt32) :
    (depthPicture shade depthImg width height).length =
      54 + 3 * (width.toNat * height.toNat) := by
  simp only [depthPicture, List.length_append, length_bmpHeader, List.length_flatMap,
    List.length_cons, List.length_nil, List.map_const', List.sum_replicate, depthsOf,
    List.length_map, List.length_range, smul_eq_mul]
  omega

/-- Two bytes are read in bounds. -/
private theorem load16_eq_ok_iff {mem : Bytes} {off : Nat} {x : UInt16} :
    load16 mem off = .ok x ↔
      off + 2 ≤ mem.length ∧ x = UInt16.ofNat (ofLe ((mem.drop off).take 2)) := by
  unfold load16 load
  split
  · rename_i hle
    simp only [Except.map, Except.ok.injEq, hle, true_and]
    exact eq_comm
  · rename_i hle
    simp only [Except.map, hle, false_and, iff_false]
    intro hx
    cases hx

/-- All words can be read when the last one can. -/
private theorem mapM_load16 (depthImg : Bytes) (size : Nat) (words : List UInt16) :
    (List.range size).mapM (fun i => load16 depthImg (2 * i)) = .ok words ↔
      2 * size ≤ depthImg.length ∧
        words = (List.range size).map fun i => UInt16.ofNat (ofLe ((depthImg.drop (2 * i)).take 2))
    := by
  -- Induction on the size: the last word is read behind the others.
  induction size generalizing words with
  | zero =>
    simp only [List.range_zero, List.mapM_nil, List.map_nil, pure_eq_ok, Except.ok.injEq,
      Nat.mul_zero, Nat.zero_le, true_and]
    exact eq_comm
  | succ size ih =>
    rw [List.range_succ, List.mapM_append, bind_eq_ok, List.map_append]
    constructor
    · intro hread
      obtain ⟨front, hfront, hread⟩ := hread
      obtain ⟨last, hlast, hwords⟩ := bind_eq_ok.mp hread
      rw [List.mapM_cons, bind_eq_ok] at hlast
      obtain ⟨x, hx, hlast⟩ := hlast
      obtain ⟨-, rfl⟩ := (ih front).mp hfront
      obtain ⟨hle, rfl⟩ := load16_eq_ok_iff.mp hx
      simp only [List.mapM_nil, pure_eq_ok, ok_bind, Except.ok.injEq] at hlast hwords
      rw [← hwords, ← hlast]
      exact ⟨by omega, rfl⟩
    · intro h
      obtain ⟨hle, rfl⟩ := h
      have hx : load16 depthImg (2 * size) = .ok _ := load16_eq_ok_iff.mpr ⟨by omega, rfl⟩
      refine ⟨_, (ih _).mpr ⟨by omega, rfl⟩, ?_⟩
      rw [List.mapM_cons, hx]
      rfl

/-- The sizes for which no int of `depth2bmp_hist` overflows, and no count is rounded. -/
def DepthSize (width height : UInt32) : Prop :=
  width.toNat ≤ 2 ^ 24 ∧ width.toNat * height.toNat ≤ 2 ^ 24

/-- Up to 2^24 a sum of floats is exact. -/
private theorem floatAdd_eq (a b : Nat) (h : a + b ≤ 2 ^ 24) : floatAdd a b = a + b :=
  roundBits_of_le (by omega) h

/-- The counting loop stays inside of the counters, and counts the points. -/
private theorem foldlM_countDepth {depths : List UInt16} (hlt : ∀ d ∈ depths, d.toNat < histSize)
    (histgram : Nat → Nat) (nPointsCount : UInt32) :
    depths.foldlM countDepth (histgram, nPointsCount) =
      .ok ((points depths).foldl (tallyWith floatAdd) histgram,
        nPointsCount + UInt32.ofNat (points depths).length) := by
  -- Induction over the pixels: a depth of 0 counts nothing.
  induction depths generalizing histgram nPointsCount with
  | nil => simp [points]
  | cons d depths ih =>
    obtain ⟨hd, hrest⟩ := List.forall_mem_cons.mp hlt
    rw [List.foldlM_cons, countDepth]
    by_cases hzero : d = 0
    · subst hzero
      rw [if_neg (by simp), pure_eq_ok, ok_bind, ih hrest, points_zero]
    · rw [if_pos hzero, histLoad, if_pos hd, ok_bind, histStore, if_pos hd, ok_bind, pure_eq_ok,
        ok_bind, ih hrest, points_cons hzero, List.foldl_cons, List.length_cons,
        UInt32.ofNat_add, UInt32.add_assoc, UInt32.add_comm 1]
      rfl

/-- So does the loop that adds them up. -/
private theorem cumulate_eq (histgram : Nat → Nat) :
    cumulate histgram =
      .ok ((List.range' 1 (histSize - 1)).foldl (accumulateWith floatAdd) histgram) := by
  -- Each turn touches the counter at its index and the one in front, which are there.
  have hloop : ∀ (l : List Nat) (h : Nat → Nat), (∀ i ∈ l, i < histSize) →
      l.foldlM cumulateTurn h = .ok (l.foldl (accumulateWith floatAdd) h) := by
    intro l
    induction l with
    | nil => exact fun h _ => rfl
    | cons i l ih =>
      intro h hl
      obtain ⟨hi, hrest⟩ := List.forall_mem_cons.mp hl
      rw [List.foldlM_cons, cumulateTurn, histLoad, if_pos hi, ok_bind, histLoad,
        if_pos (by omega), ok_bind, histStore, if_pos hi, ok_bind, ih _ hrest]
      rfl
  apply hloop
  intro i hi
  rw [List.mem_range'_1] at hi
  have hsize : histSize = 9000 := rfl
  omega

/-- Behind both loops, a counter holds the number of points that are not farther away. -/
private theorem accumulateWith_foldl (values : List Nat) (hlen : values.length ≤ 2 ^ 24) {k : Nat}
    (hk : k < histSize) :
    (List.range' 1 (histSize - 1)).foldl (accumulateWith floatAdd)
      (values.foldl (tallyWith floatAdd) fun _ => 0) k = rank values k := by
  have hzero : (fun k => 0 + values.count k) = fun k => values.count k := by simp
  rw [foldl_tallyWith floatAdd_eq values (by simpa using hlen), foldl_tally, hzero,
    foldl_accumulateWith floatAdd_eq, foldl_accumulate]
  · dsimp only
    rw [if_pos (by omega), sum_count_eq_rank]
  · -- All sums are ranks, so they are not larger than the number of points.
    rw [sum_count_eq_rank]
    exact (List.countP_le_length).trans hlen

/-- A depth without its three low bits is the number of a counter. -/
private theorem depthAt_lt_histSize (depthImg : Bytes) (i : Nat) :
    (depthAt depthImg i).toNat < histSize := by
  have hlt := UInt16.toNat_lt (UInt16.ofNat (ofLe ((depthImg.drop (2 * i)).take 2)))
  rw [depthAt, UInt16.toNat_shiftRight, histSize]
  simp only [UInt16.reduceToNat, Nat.reduceMod, Nat.shiftRight_eq_div_pow]
  omega

/-- The byte for a pixel. -/
private theorem histByte_eq_shadeOf (shade : Nat → Nat → UInt8) {depths : List UInt16} {d : UInt16}
    (hmem : d ∈ depths) (hlen : (points depths).length ≤ 2 ^ 24) :
    histByte shade (rank (points depths) d.toNat) (UInt32.ofNat (points depths).length) d.toNat =
      shadeOf shade depths d := by
  have hcount : (UInt32.ofNat (points depths).length).toNat = (points depths).length :=
    UInt32.toNat_ofNat_of_lt' (by show _ < 4294967296; omega)
  rw [histByte, shadeOf, hcount]
  by_cases hd : d = 0
  · -- No point has the depth 0, and the counter 0 is not made a shade.
    have hrank : rank (points depths) 0 = 0 := by
      rw [rank, List.countP_eq_zero]
      intro v hv
      obtain ⟨x, hx, rfl⟩ := List.mem_map.mp hv
      have hne : x ≠ 0 := by simpa using (List.mem_filter.mp hx).2
      have hpos : x.toNat ≠ 0 := fun h => hne (UInt16.toNat_inj.mp h)
      simp [hpos]
    subst hd
    simp [hrank]
  · have hpos : 1 ≤ d.toNat := by
      have hne : d.toNat ≠ 0 := fun h => hd (UInt16.toNat_inj.mp h)
      omega
    have hpoint : d.toNat ∈ points depths :=
      List.mem_map.mpr ⟨d, List.mem_filter.mpr ⟨hmem, by simpa using hd⟩, rfl⟩
    have hsome : UInt32.ofNat (points depths).length ≠ 0 := by
      intro h
      rw [h, UInt32.toNat_zero] at hcount
      exact (List.length_pos_of_mem hpoint).ne hcount
    rw [if_pos ⟨hsome, hpos⟩, if_neg hd]

/-- There are no more points than pixels. -/
private theorem length_points_le (depths : List UInt16) :
    (points depths).length ≤ depths.length := by
  rw [points, List.length_map]
  exact List.length_filter_le _ _

/-- What the three loops behind the reading make of the depths. -/
private theorem depthBody_eq (shade : Nat → Nat → UInt8) (depthImg : Bytes) {size : Nat}
    (hsize : size ≤ 2 ^ 24) :
    let depths := depthsOf depthImg size
    ∃ histgram nPointsCount cum,
      depths.foldlM countDepth (fun _ => 0, 0) = .ok (histgram, nPointsCount) ∧
      cumulate histgram = .ok cum ∧
      depths.mapM (depthPixel shade cum nPointsCount) =
        .ok (depths.map fun d => [0, shadeOf shade depths d, shadeOf shade depths d]) := by
  intro depths
  have hlt : ∀ d ∈ depths, d.toNat < histSize := by
    intro d hd
    obtain ⟨i, -, rfl⟩ := List.mem_map.mp hd
    exact depthAt_lt_histSize depthImg i
  have hlen : (points depths).length ≤ 2 ^ 24 := by
    have hle := length_points_le depths
    have hall : depths.length = size := by simp [depths, depthsOf]
    omega
  refine ⟨_, _, _, foldlM_countDepth hlt _ _, cumulate_eq _, ?_⟩
  rw [UInt32.zero_add]
  -- Every pixel finds its counter, which holds its rank.
  have hpixels : ∀ l : List UInt16, (∀ d ∈ l, d ∈ depths) →
      l.mapM (depthPixel shade ((List.range' 1 (histSize - 1)).foldl (accumulateWith floatAdd)
          ((points depths).foldl (tallyWith floatAdd) fun _ => 0))
        (UInt32.ofNat (points depths).length)) =
        .ok (l.map fun d => [0, shadeOf shade depths d, shadeOf shade depths d]) := by
    intro l
    induction l with
    | nil => exact fun _ => rfl
    | cons d l ih =>
      intro hl
      obtain ⟨hd, hrest⟩ := List.forall_mem_cons.mp hl
      rw [List.mapM_cons, ih hrest, depthPixel, histLoad, if_pos (hlt d hd),
        accumulateWith_foldl _ hlen (hlt d hd), ok_bind, histByte_eq_shadeOf shade hd hlen]
      rfl
  exact hpixels depths fun d hd => hd

/-- `depth2bmp_hist` stays inside of its objects exactly when the frame has two bytes for each
    pixel and there is room for the headers and three bytes a pixel. It then makes the
    picture in which the shade of a pixel is that of its rank. -/
theorem depth2bmpHist_eq_ok_iff (shade : Nat → Nat → UInt8) (depthImg : Bytes) (room : Nat)
    (hsize : DepthSize width height) (bmp : Bytes) :
    depth2bmpHist shade depthImg room width height = .ok bmp ↔
      2 * (width.toNat * height.toNat) ≤ depthImg.length ∧
        54 + 3 * (width.toNat * height.toNat) ≤ room ∧
          bmp = depthPicture shade depthImg width height := by
  have hread := mapM_load16 depthImg (width.toNat * height.toNat)
  rw [← length_depthPicture shade depthImg]
  by_cases hle : 2 * (width.toNat * height.toNat) ≤ depthImg.length
  · -- Every word is read, and what the loops make of them is the picture.
    have hdepths : ((List.range (width.toNat * height.toNat)).map fun i =>
        UInt16.ofNat (ofLe ((depthImg.drop (2 * i)).take 2))).map (fun x : UInt16 => x >>> 3) =
        depthsOf depthImg (width.toNat * height.toNat) := List.map_map
    obtain ⟨histgram, nPointsCount, cum, hcount, hcum, hmap⟩ :=
      depthBody_eq shade depthImg hsize.2
    rw [depth2bmpHist, (hread _).mpr ⟨hle, rfl⟩, ok_bind, hdepths]
    dsimp only
    rw [hcount, ok_bind]
    dsimp only
    rw [hcum, ok_bind, hmap, ok_bind, ← List.flatMap_def]
    show (if (depthPicture shade depthImg width height).length ≤ room then
      Except.ok (depthPicture shade depthImg width height) else .error Fault.outOfBounds) =
        .ok bmp ↔ _
    by_cases hroom : (depthPicture shade depthImg width height).length ≤ room
    · rw [if_pos hroom, Except.ok.injEq]
      simp only [hle, hroom, true_and]
      exact eq_comm
    · rw [if_neg hroom]
      simp [hroom]
  · refine iff_of_false (fun h => ?_) fun h => hle h.1
    rw [depth2bmpHist] at h
    obtain ⟨words, hwords, -⟩ := bind_eq_ok.mp h
    exact hle ((hread words).mp hwords).1

end Depth

end Udb.Spec

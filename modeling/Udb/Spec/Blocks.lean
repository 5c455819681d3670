import Udb.ForStd.Grid
import Udb.ForStd.Word
import Udb.Native.PrintImg

/-!
# Blocks of two colours

A block that shows one colour where a pattern of the table has a 1 and another colour
elsewhere is shown exactly: the pattern that is found for it and the average colours
make up the same block.

The pattern that is found need not be the one the block was made from. The split finds
the pattern or its inverse, whichever colour is brighter in the channel with the
greatest range, or no bit at all if the colours are equal; the table has an entry for
each of these that differs in no bit, so the search ends with such an entry. Whatever
pattern it is, the block shows two colours along it, and averages over pixels of one
colour are that colour.

## Key results

- `createCharData_paints`: a pattern along which a block shows two colours renders the block
- `searchBitmaps_exact`: a pattern that is in the table is found
- `findCharData_exact`: the block is shown exactly
-/

namespace Udb.Spec

open Native CMem Grid Word

variable {image : Bytes} {x0 y0 width : Nat} {p q : UInt32} {f g : Color}

/-! ## What a block shows -/

/-- The block at a position shows one colour where a pattern has a 1, the first bit being the most
    significant one, and another colour elsewhere. -/
def Paints (image : Bytes) (x0 y0 width : Nat) (pattern : UInt32) (fg bg : Color) : Prop :=
  ∀ y < 8, ∀ x < 4,
    readPixel image (((x0 + x) + width * (y0 + y)) * 3)
      = .ok (if pattern.toNat.testBit (31 - (4 * y + x)) then fg else bg)

/-- The colours of the pixels with the given bits. -/
def paint (f g : Color) (bits : List Bool) : List Color := bits.map fun b => if b then f else g

/-- The pixels of a block, row after row. -/
theorem blockPixels_eq (x0 y0 width : Nat) :
    blockPixels x0 y0 width
      = (List.range 32).map fun k => ((x0 + k % 4) + width * (y0 + k / 4)) * 3 :=
  flatMap_range_map 4 8 fun x y => ((x0 + x) + width * (y0 + y)) * 3

/-- The pixels of the block, one by one. -/
private theorem paints_iff : Paints image x0 y0 width p f g ↔
    List.Forall₂ (fun px c => readPixel image px = .ok c) (blockPixels x0 y0 width)
      (paint f g (msb 32 p.toNat)) := by
  rw [blockPixels_eq, paint, msb_eq_map, List.map_map, List.forall₂_map_left_iff,
    List.forall₂_map_right_iff, List.forall₂_same]
  constructor
  · intro h k hk
    -- Pixel `k` of the block is column `k % 4` of row `k / 4`.
    have hlt : k < 32 := List.mem_range.mp hk
    have hpixel := h (k / 4) (by omega) (k % 4) (by omega)
    rw [Nat.div_add_mod] at hpixel
    exact hpixel
  · intro h y hy x hx
    have hpixel := h (4 * y + x) (List.mem_range.mpr (by omega))
    have hmod : (4 * y + x) % 4 = x := by omega
    have hdiv : (4 * y + x) / 4 = y := by omega
    rw [hmod, hdiv] at hpixel
    exact hpixel

/-- Inverted bits paint the same with the two colours exchanged. -/
private theorem paint_not (f g : Color) (bits : List Bool) :
    paint f g (bits.map (! ·)) = paint g f bits := by
  rw [paint, paint, List.map_map]
  apply List.map_congr_left
  intro b _
  cases b <;> rfl

/-- A block shows the same along the inverse pattern, with the colours exchanged. -/
theorem Paints.not (h : Paints image x0 y0 width p f g) : Paints image x0 y0 width (~~~p) g f := by
  rw [paints_iff, msb_not, paint_not]
  exact paints_iff.mp h

/-- A block of one colour shows it along any pattern. -/
private theorem Paints.const (h : Paints image x0 y0 width p f f) (q : UInt32) :
    Paints image x0 y0 width q f f := by
  intro y hy x hx
  have hpixel := h y hy x hx
  rw [ite_self] at hpixel ⊢
  exact hpixel

/-! ## Reading a pixel -/

/-- A channel is a byte. -/
private theorem readChannel_le {i v : Nat} (h : readChannel image i = .ok v) : v ≤ 255 := by
  unfold readChannel at h
  split at h
  · simp at h
  · rename_i b _
    cases h
    exact Nat.le_of_lt_succ b.toNat_lt

/-- The channels of a pixel that is read. -/
private theorem readChannel_of_readPixel {px : Nat} {c : Color} (h : readPixel image px = .ok c)
    (i : Fin 3) : readChannel image (px + i) = .ok (c i) := by
  obtain ⟨r, hr, h⟩ := bind_eq_ok.mp h
  obtain ⟨g, hg, h⟩ := bind_eq_ok.mp h
  obtain ⟨b, hb, h⟩ := bind_eq_ok.mp h
  cases h
  match i with
  | 0 => exact hr
  | 1 => exact hg
  | 2 => exact hb

/-- So are the channels of a pixel. -/
theorem channel_le {px : Nat} {c : Color} (h : readPixel image px = .ok c) (i : Fin 3) :
    c i ≤ 255 :=
  readChannel_le (readChannel_of_readPixel h i)

/-! ## The average colours -/

/-- What one turn of the loop in `createCharData` does with the pixel it has read. -/
def put (pattern : UInt32) (b : Buckets) (c : Color) : Buckets :=
  if pattern &&& b.mask ≠ 0 then
    { b with
      fgColor := fun i => b.fgColor i + c i
      fgCount := b.fgCount + 1
      mask := b.mask >>> 1 }
  else
    { b with
      bgColor := fun i => b.bgColor i + c i
      bgCount := b.bgCount + 1
      mask := b.mask >>> 1 }

/-- One turn of the averaging loop reads a pixel and puts it into its bucket. -/
theorem add_eq (image : Bytes) (pattern : UInt32) :
    Buckets.add image pattern
      = fun b px => readPixel image px >>= fun c => pure (put pattern b c) := by
  funext b px
  unfold Buckets.add put
  congr 1
  funext c
  split <;> rfl

/-- The pixels with the given bits are in the buckets. -/
structure Sorted (f g : Color) (bits : List Bool) (b : Buckets) : Prop where
  fgColor : ∀ i, b.fgColor i = bits.count true * f i
  bgColor : ∀ i, b.bgColor i = bits.count false * g i
  fgCount : b.fgCount = bits.count true
  bgCount : b.bgCount = bits.count false

variable {b : Buckets} {bits : List Bool} {cs : List Color} {n : Nat}

/-- One pixel goes to the bucket of its bit. -/
theorem Sorted.put (h : Sorted f g bits b) (hmask : b.mask.toNat = 2 ^ n) :
    Sorted f g (bits ++ [p.toNat.testBit n])
      (put p b (if p.toNat.testBit n then f else g)) := by
  cases hbit : p.toNat.testBit n with
  | true =>
    -- The bit is set, so the pixel is one of the foreground's.
    rw [Spec.put, if_pos ((and_mask_ne_zero hmask).mpr hbit)]
    constructor
    · simp [h.fgColor, Nat.succ_mul]
    · simp [h.bgColor]
    · simp [h.fgCount]
    · simp [h.bgCount]
  | false =>
    have hzero : ¬p &&& b.mask ≠ 0 := by
      rw [and_mask_ne_zero hmask, hbit]
      decide
    -- The bit is clear, so it is one of the background's.
    rw [Spec.put, if_neg hzero]
    constructor
    · simp [h.fgColor]
    · simp [h.bgColor, Nat.succ_mul]
    · simp [h.fgCount]
    · simp [h.bgCount]

/-- The mask of the pattern moves on by one bit. -/
private theorem mask_put (p : UInt32) (b : Buckets) (c : Color) :
    (put p b c).mask = b.mask >>> 1 := by
  unfold put
  split <;> rfl

/-- All pixels go to the buckets of their bits: the mask is at the bit of the next one. -/
theorem Sorted.foldl_put (h : Sorted f g bits b) (hmask : b.mask.toNat = 2 ^ n / 2) :
    Sorted f g (bits ++ msb n p.toNat) ((paint f g (msb n p.toNat)).foldl (Spec.put p) b) := by
  induction n generalizing b bits with
  | zero => simpa [msb, paint] using h
  | succ n ih =>
    rw [pow_succ, Nat.mul_div_cancel _ (by decide)] at hmask
    have hmask' : (Spec.put p b (if p.toNat.testBit n then f else g)).mask.toNat = 2 ^ n / 2 := by
      rw [mask_put, UInt32.toNat_shiftRight, hmask]
      exact Nat.shiftRight_eq_div_pow _ 1
    -- The induction is on the bits that are left, from the top one down.
    have hrest := ih (h.put hmask) hmask'
    rw [List.append_assoc, List.singleton_append] at hrest
    exact hrest

/-- The average of equal colours is that colour. -/
private theorem average_eq {c : Color} {sum : Color} {count : Nat} (hsum : ∀ i, sum i = count * c i)
    (hcount : count ≠ 0) : average sum count = c := by
  rw [average, if_pos hcount]
  funext i
  rw [hsum i, Nat.mul_div_cancel_left _ (Nat.pos_of_ne_zero hcount)]

/-- Only the colours that the bits name matter. -/
private theorem paint_congr {f' g' : Color} (hf : bits.count true ≠ 0 → f' = f)
    (hg : bits.count false ≠ 0 → g' = g) : paint f' g' bits = paint f g bits := by
  apply List.map_congr_left
  intro bit hbit
  have hpos : bits.count bit ≠ 0 := List.count_pos_iff.mpr hbit |>.ne'
  cases bit with
  | true => exact hf hpos
  | false => exact hg hpos

/-- What `createCharData` makes of the colours it reads. -/
theorem createCharData_eq_ok (codepoint : Nat)
    (h : List.Forall₂ (fun px c => readPixel image px = .ok c) (blockPixels x0 y0 width) cs) :
    createCharData image x0 y0 width codepoint q
      = let b := cs.foldl (put q) ⟨fun _ => 0, fun _ => 0, 0, 0, 0x80000000⟩
        .ok ⟨average b.fgColor b.fgCount, average b.bgColor b.bgCount, codepoint⟩ := by
  have hloop := foldlM_read (fun b c => pure (put q b c)) h
    ⟨fun _ => 0, fun _ => 0, 0, 0, 0x80000000⟩
  rw [List.foldlM_pure] at hloop
  rw [createCharData, add_eq, hloop]
  rfl

/-- A pattern along which a block shows two colours renders the block. -/
theorem createCharData_paints (h : Paints image x0 y0 width q f g) (codepoint : Nat) :
    ∃ r, createCharData image x0 y0 width codepoint q = .ok r ∧ r.codePoint = codepoint
      ∧ Paints image x0 y0 width q r.fgColor r.bgColor := by
  have hstart : Sorted f g [] ⟨fun _ => 0, fun _ => 0, 0, 0, 0x80000000⟩ := by
    constructor <;> simp
  -- Behind the 32 pixels, the sums are the counts times the colours.
  have hsorted := hstart.foldl_put (p := q) (n := 32) rfl
  rw [List.nil_append] at hsorted
  refine ⟨_, createCharData_eq_ok codepoint (paints_iff.mp h), rfl, ?_⟩
  rw [paints_iff] at h ⊢
  -- A colour that occurs is the average of its pixels; one that does not plays no part.
  rw [paint_congr]
  · exact h
  · intro hcount
    apply average_eq
    · intro i
      rw [hsorted.fgColor, hsorted.fgCount]
    · rw [hsorted.fgCount]
      exact hcount
  · intro hcount
    apply average_eq
    · intro i
      rw [hsorted.bgColor, hsorted.bgCount]
    · rw [hsorted.bgCount]
      exact hcount

/-! ## The split -/

/-- What one turn of the first loop of `findCharData` does with the pixel it has read. -/
def widen (r : Color × Color) (c : Color) : Color × Color :=
  (fun i => min (r.1 i) (c i), fun i => max (r.2 i) (c i))

/-- The least and the greatest value of each channel. -/
structure IsRange (cs : List Color) (r : Color × Color) : Prop where
  bounds : ∀ c ∈ cs, ∀ i, r.1 i ≤ c i ∧ c i ≤ r.2 i
  least : ∀ i, ∃ c ∈ cs, c i = r.1 i
  greatest : ∀ i, ∃ c ∈ cs, c i = r.2 i

variable {r : Color × Color}

/-- The values that the loop starts with are those of the first pixel afterwards. -/
private theorem isRange_first {c : Color} (hle : ∀ i, c i ≤ 255) :
    IsRange [c] (widen (fun _ => 255, fun _ => 0) c) := by
  have hmin : ∀ i, min 255 (c i) = c i := fun i => Nat.min_eq_right (hle i)
  have hmax : ∀ i, max 0 (c i) = c i := fun i => Nat.zero_max (c i)
  constructor
  · simp [widen, hmin]
  · simp [widen, hmin]
  · simp [widen]

/-- The range of the colours and one more. -/
private theorem IsRange.widen (h : IsRange cs r) (c : Color) : IsRange (cs ++ [c]) (widen r c) := by
  have hold : ∀ {c'}, c' ∈ cs → c' ∈ cs ++ [c] := List.mem_append_left [c]
  have hnew : c ∈ cs ++ [c] := by simp
  constructor
  · intro c' hc' i
    show min (r.1 i) (c i) ≤ c' i ∧ c' i ≤ max (r.2 i) (c i)
    cases List.mem_append.mp hc' with
    | inl hmem =>
      have hb := h.bounds c' hmem i
      omega
    | inr hmem =>
      rw [List.mem_singleton.mp hmem]
      omega
  · intro i
    show ∃ c' ∈ cs ++ [c], c' i = min (r.1 i) (c i)
    -- The least value is still that of an old colour, or that of the new one.
    by_cases hle : r.1 i ≤ c i
    · obtain ⟨c', hmem, heq⟩ := h.least i
      exact ⟨c', hold hmem, by omega⟩
    · exact ⟨c, hnew, by omega⟩
  · intro i
    show ∃ c' ∈ cs ++ [c], c' i = max (r.2 i) (c i)
    by_cases hle : c i ≤ r.2 i
    · obtain ⟨c', hmem, heq⟩ := h.greatest i
      exact ⟨c', hold hmem, by omega⟩
    · exact ⟨c, hnew, by omega⟩

/-- The range of the colours and some more. -/
private theorem IsRange.foldl_widen (h : IsRange cs r) (ds : List Color) :
    IsRange (cs ++ ds) (ds.foldl Spec.widen r) := by
  induction ds generalizing cs r with
  | nil => simpa using h
  | cons d ds ih =>
    have hrest := ih (h.widen d)
    rw [List.append_assoc, List.singleton_append] at hrest
    exact hrest

/-- The first loop finds the range of the colours it reads. -/
theorem colorRange_spec {pixels : List Nat}
    (h : List.Forall₂ (fun px c => readPixel image px = .ok c) pixels cs) (hne : cs ≠ []) :
    ∃ r, colorRange image pixels = .ok r ∧ IsRange cs r := by
  have hloop := foldlM_read (fun r c => pure (widen r c)) h (fun _ => 255, fun _ => 0)
  rw [List.foldlM_pure] at hloop
  refine ⟨_, hloop, ?_⟩
  cases h with
  | nil => exact absurd rfl hne
  | cons hfirst _ => exact (isRange_first (channel_le hfirst)).foldl_widen _

/-- A loop that keeps the index with the greatest value so far. -/
private theorem foldl_best (range : Fin 3 → Nat) (l : List (Fin 3)) (r : Fin 3 × Nat) :
    let r' := l.foldl (fun r i => if range i > r.2 then (i, range i) else r) r
    r.2 ≤ r'.2 ∧ (∀ i ∈ l, range i ≤ r'.2) ∧ (r.2 ≤ range r.1 → r'.2 ≤ range r'.1) := by
  induction l generalizing r with
  | nil => simp
  | cons i l ih =>
    rw [List.foldl_cons]
    -- Either the index is the best so far, or the best so far is at least as good.
    by_cases hgt : range i > r.2
    · rw [if_pos hgt]
      obtain ⟨hle, hall, hbest⟩ := ih (i, range i)
      refine ⟨by omega, ?_, fun _ => hbest (Nat.le_refl _)⟩
      intro j hj
      cases List.mem_cons.mp hj with
      | inl heq => exact heq ▸ hle
      | inr hmem => exact hall j hmem
    · rw [if_neg hgt]
      obtain ⟨hle, hall, hbest⟩ := ih r
      refine ⟨hle, ?_, hbest⟩
      intro j hj
      cases List.mem_cons.mp hj with
      | inl heq =>
        rw [heq]
        omega
      | inr hmem => exact hall j hmem

/-- The split is made in a channel with the greatest range. -/
private theorem splitChannel_spec (min max : Color) :
    (splitChannel min max).2 = max (splitChannel min max).1 - min (splitChannel min max).1
      ∧ ∀ i, max i - min i ≤ (splitChannel min max).2 := by
  obtain ⟨-, hall, hbest⟩ := foldl_best (fun i => max i - min i) (List.finRange 3) (0, 0)
  have hle : ∀ i, max i - min i ≤ (splitChannel min max).2 := fun i =>
    hall i (List.mem_finRange i)
  exact ⟨Nat.le_antisymm (hbest (Nat.zero_le _)) (hle _), hle⟩

/-- The bits of the split, as the loop reads them. -/
theorem splitBits_eq_ok {pixels : List Nat}
    (h : List.Forall₂ (fun px c => readPixel image px = .ok c) pixels cs) (i : Fin 3) (v : Nat) :
    splitBits image pixels i v = .ok ((cs.map fun c => decide (c i > v)).foldl push 0) := by
  have hread : List.Forall₂ (fun px d => readChannel image (px + i) = .ok d) pixels
      (cs.map (· i)) := by
    rw [List.forall₂_map_right_iff]
    exact h.imp fun px c hpx => readChannel_of_readPixel hpx i
  -- The loop reads one channel of each pixel, and pushes how it compares.
  have hloop := foldlM_read
    (fun (bits : UInt32) c => pure (if c > v then bits <<< 1 ||| 1 else bits <<< 1)) hread 0
  rw [List.foldlM_pure] at hloop
  rw [splitBits, hloop, List.foldl_map, List.foldl_map]
  simp [push, pure, Except.pure]

/-- The bits of the split of a block of two colours. -/
private theorem splitBits_paint (h : Paints image x0 y0 width p f g) (i : Fin 3) (v : Nat) :
    splitBits image (blockPixels x0 y0 width) i v
      = .ok (((msb 32 p.toNat).map fun b => decide ((if b then f else g) i > v)).foldl push 0) := by
  rw [splitBits_eq_ok (paints_iff.mp h), paint, List.map_map]
  rfl

/-- The bits of the split where one colour is above the value and the other is not. -/
private theorem foldl_push_above {i : Fin 3} {v : Nat} (hf : f i > v) (hg : ¬g i > v) :
    ((msb 32 p.toNat).map fun b => decide ((if b then f else g) i > v)).foldl push 0 = p := by
  have hbits : (msb 32 p.toNat).map (fun b => decide ((if b then f else g) i > v))
      = (msb 32 p.toNat).map id := by
    apply List.map_congr_left
    intro b _
    cases b with
    | true => exact decide_eq_true hf
    | false => exact decide_eq_false hg
  rw [hbits, List.map_id, foldl_msb]

/-- The bits of the split where no colour of the block is above the value. -/
private theorem foldl_push_zero {i : Fin 3} {v : Nat}
    (h : ∀ c ∈ paint f g (msb 32 p.toNat), ¬c i > v) :
    ((msb 32 p.toNat).map fun b => decide ((if b then f else g) i > v)).foldl push 0 = 0 := by
  have hbits : (msb 32 p.toNat).map (fun b => decide ((if b then f else g) i > v))
      = msb 32 (0 : UInt32).toNat := by
    rw [UInt32.toNat_zero, msb_zero, List.eq_replicate_iff]
    constructor
    · rw [List.length_map, length_msb]
    · -- No pixel is brighter than `v`, so every bit that is pushed is 0.
      intro d hd
      obtain ⟨b, hb, rfl⟩ := List.mem_map.mp hd
      exact decide_eq_false (h _ (List.mem_map.mpr ⟨b, hb, rfl⟩))
  rw [hbits, foldl_msb]

/-- A block whose channels all have range 0 has one colour. -/
private theorem eq_of_range_zero (hr : IsRange cs r) (hzero : ∀ i, r.2 i - r.1 i = 0) :
    ∀ c ∈ cs, c = r.1 := by
  intro c hc
  funext i
  have hbounds := hr.bounds c hc i
  have hi := hzero i
  omega

/-- In a channel with a range the least and the greatest value are those of the two colours. -/
private theorem ends_of_range (hr : IsRange (paint f g bits) r) {i : Fin 3} (hne : r.1 i < r.2 i) :
    f i = r.2 i ∧ g i = r.1 i ∨ f i = r.1 i ∧ g i = r.2 i := by
  have hmem : ∀ c ∈ paint f g bits, c i = f i ∨ c i = g i := by
    intro c hc
    obtain ⟨bit, -, rfl⟩ := List.mem_map.mp hc
    cases bit with
    | true => exact Or.inl rfl
    | false => exact Or.inr rfl
  -- The least and the greatest value of the channel both belong to one of the two colours.
  obtain ⟨dark, hdark, hmin⟩ := hr.least i
  obtain ⟨bright, hbright, hmax⟩ := hr.greatest i
  have hdark' := hmem dark hdark
  have hbright' := hmem bright hbright
  omega

/-- The split finds the pattern or its inverse, or no bit if the block has one colour. The block
    shows two colours along what it finds. -/
private theorem splitBits_paints (h : Paints image x0 y0 width p f g)
    (hr : IsRange (paint f g (msb 32 p.toNat)) r) :
    let split := splitChannel r.1 r.2
    ∃ bits, splitBits image (blockPixels x0 y0 width) split.1 (r.1 split.1 + split.2 / 2) = .ok bits
      ∧ (bits = p ∨ bits = ~~~p ∨ bits = 0) ∧ ∃ f' g', Paints image x0 y0 width bits f' g' := by
  obtain ⟨hbest, hall⟩ := splitChannel_spec r.1 r.2
  generalize splitChannel r.1 r.2 = split at hbest hall
  obtain ⟨i, s⟩ := split
  simp only at hbest hall
  show ∃ bits, splitBits image _ i (r.1 i + s / 2) = .ok bits ∧ _
  by_cases hs : s = 0
  · -- No pixel is above the split value.
    have hone := eq_of_range_zero hr fun j => Nat.le_zero.mp (hs ▸ hall j)
    have hconst : Paints image x0 y0 width p r.1 r.1 := by
      have hpaint : paint f g (msb 32 p.toNat) = paint r.1 r.1 (msb 32 p.toNat) := by
        apply List.map_congr_left
        intro b hb
        rw [ite_self]
        exact hone _ (List.mem_map.mpr ⟨b, hb, rfl⟩)
      rw [paints_iff, ← hpaint]
      exact paints_iff.mp h
    refine ⟨0, ?_, Or.inr (Or.inr rfl), r.1, r.1, hconst.const 0⟩
    rw [splitBits_paint h, foldl_push_zero]
    intro c hc
    rw [hone c hc]
    omega
  · have hne : r.1 i < r.2 i := by omega
    cases ends_of_range hr hne with
    | inl hends =>
      -- The foreground is the brighter colour.
      have hsplit := splitBits_paint h i (r.1 i + s / 2)
      rw [foldl_push_above (by omega) (by omega)] at hsplit
      exact ⟨p, hsplit, Or.inl rfl, f, g, h⟩
    | inr hends =>
      -- The background is: the split finds the inverse of the pattern.
      have hsplit := splitBits_paint h.not i (r.1 i + s / 2)
      rw [foldl_push_above (by omega) (by omega)] at hsplit
      exact ⟨~~~p, hsplit, Or.inr (Or.inl rfl), g, f, h.not⟩

/-! ## The search -/

/-- The entries of the table before its end marker. -/
def regular : List (UInt32 × Nat) := bitmaps.takeWhile (· ≠ (0, 0))

/-- The number of bits in which a pattern or its inverse differs, whichever is less. -/
def patternDiff (bits pattern : UInt32) : Nat :=
  min (cstdBitcount (pattern ^^^ bits)) (cstdBitcount (~~~pattern ^^^ bits))

/-- Only 0 has no bits set. -/
private theorem cstdBitcount_eq_zero (n : UInt32) : cstdBitcount n = 0 ↔ n = 0 := by
  fun_induction cstdBitcount n with
  | case1 => simp
  | case2 n hne ih =>
    constructor
    · intro hzero
      by_cases hodd : n &&& 1 ≠ 0
      · -- An odd number has its lowest bit counted.
        rw [if_pos hodd] at hzero
        omega
      · rw [if_neg hodd, Nat.zero_add, ih] at hzero
        -- An even number is 0 if its half is.
        have hhalf : n.toNat / 2 = 0 := by
          have h := congrArg UInt32.toNat hzero
          rw [UInt32.toNat_shiftRight] at h
          exact (Nat.shiftRight_eq_div_pow n.toNat 1).symm.trans h
        have heven : n.toNat % 2 = 0 := by
          have h := congrArg UInt32.toNat (not_not.mp hodd)
          rw [UInt32.toNat_and] at h
          exact (Nat.and_one_is_mod n.toNat).symm.trans h
        apply UInt32.toNat_inj.mp
        rw [UInt32.toNat_zero]
        omega
    · intro hzero
      exact absurd hzero hne

/-- Two patterns differ in no bit when they are equal or inverse. -/
private theorem patternDiff_eq_zero {bits pattern : UInt32} :
    patternDiff bits pattern = 0 ↔ pattern = bits ∨ pattern = ~~~bits := by
  have hnot : ~~~pattern = bits ↔ pattern = ~~~bits := by
    constructor
    · intro h
      rw [← h, UInt32.not_not]
    · intro h
      rw [h, UInt32.not_not]
  rw [patternDiff, Nat.min_eq_zero_iff, cstdBitcount_eq_zero, cstdBitcount_eq_zero,
    UInt32.xor_eq_zero_iff, UInt32.xor_eq_zero_iff, hnot]

variable {bits : UInt32} {e : UInt32 × Nat} {seen table : List (UInt32 × Nat)} {start m : Match}

/-- The two comparisons with an entry. -/
private theorem compare_compare (bits : UInt32) (e : UInt32 × Nat) (m : Match) :
    let m' := (m.compare bits e e.1).compare bits e (~~~e.1)
    m'.bestDiff = min m.bestDiff (patternDiff bits e.1)
      ∧ (m' = m
        ∨ m'.bestPattern = e.1 ∧ m'.codepoint = e.2 ∧ m'.bestDiff = patternDiff bits e.1) := by
  unfold Match.compare patternDiff
  simp only
  -- The second comparison is with what the first has left.
  by_cases h₁ : cstdBitcount (e.1 ^^^ bits) < m.bestDiff
  · rw [if_pos h₁]
    by_cases h₂ : cstdBitcount (~~~e.1 ^^^ bits) < cstdBitcount (e.1 ^^^ bits)
    · rw [if_pos h₂]
      simp only [true_and]
      omega
    · rw [if_neg h₂]
      simp only [true_and]
      omega
  · rw [if_neg h₁]
    by_cases h₂ : cstdBitcount (~~~e.1 ^^^ bits) < m.bestDiff
    · rw [if_pos h₂]
      simp only [true_and]
      omega
    · rw [if_neg h₂]
      simp only [true_or, and_true]
      omega

/-- The search has seen some entries: no entry is better than what it has found. -/
structure Searched (bits : UInt32) (start : Match) (seen : List (UInt32 × Nat)) (m : Match) :
    Prop where
  least : ∀ e ∈ seen, m.bestDiff ≤ patternDiff bits e.1
  entry : m = start ∨
    (m.bestPattern, m.codepoint) ∈ seen ∧ m.bestDiff = patternDiff bits m.bestPattern

/-- One more entry. -/
theorem Searched.step (h : Searched bits start seen m) (e : UInt32 × Nat) :
    Searched bits start (seen ++ [e])
      ((m.compare bits e e.1).compare bits e (~~~e.1)) := by
  obtain ⟨hdiff, hentry⟩ := compare_compare bits e m
  generalize (m.compare bits e e.1).compare bits e (~~~e.1) = m' at hdiff hentry
  constructor
  · -- The best difference is not above that of the new entry, nor of an older one.
    intro e' he'
    cases List.mem_append.mp he' with
    | inl hmem =>
      have hle := h.least e' hmem
      omega
    | inr hmem =>
      rw [List.mem_singleton.mp hmem]
      omega
  · -- The match is the old one, or it is the new entry or its inverse.
    cases hentry with
    | inl heq =>
      rw [heq]
      exact h.entry.imp id fun hold => ⟨List.mem_append_left [e] hold.1, hold.2⟩
    | inr hnew =>
      obtain ⟨hpattern, hcode, hbest⟩ := hnew
      right
      rw [hpattern, hcode]
      exact ⟨List.mem_append_right seen (List.mem_singleton_self e), hbest⟩

/-- The whole search, over a table with no entry that is skipped. -/
theorem Searched.searchBitmaps (h : Searched bits start seen m)
    (htable : ∀ e ∈ table.takeWhile (·.2 ≠ 0), 32 ≤ e.2) :
    Searched bits start (seen ++ table.takeWhile (·.2 ≠ 0))
      (Native.searchBitmaps bits table m) := by
  induction table generalizing seen m with
  | nil => simpa [Native.searchBitmaps] using h
  | cons e table ih =>
    unfold Native.searchBitmaps
    by_cases hend : e.2 = 0
    · -- The entry that ends the table.
      simpa [hend] using h
    · rw [List.takeWhile_cons_of_pos (by simpa using hend)] at htable ⊢
      -- No entry in front of it has a code that is skipped.
      have hcode : 32 ≤ e.2 := htable e (List.mem_cons_self ..)
      have hrest := ih (h.step e) fun e' he' => htable e' (List.mem_cons_of_mem e he')
      rw [List.append_assoc, List.singleton_append] at hrest
      rw [if_neg hend, if_neg (by omega)]
      exact hrest

/-- The search stops at the end marker, and no entry before it is skipped. -/
theorem regular_eq : bitmaps.takeWhile (·.2 ≠ 0) = regular := by
  decide

/-- No pattern of the table is drawn with a control character. -/
theorem regular_codepoint : ∀ e ∈ regular, 32 ≤ e.2 := by
  decide

/-- A pattern that is in the table is found, or its inverse. -/
theorem searchBitmaps_exact (he : e ∈ regular) (hbits : e.1 = bits ∨ e.1 = ~~~bits)
    (hstart : start.bestDiff ≠ 0) :
    let m := searchBitmaps bits bitmaps start
    (m.bestPattern, m.codepoint) ∈ regular ∧ (m.bestPattern = bits ∨ m.bestPattern = ~~~bits) := by
  have hnone : Searched bits start [] start := ⟨by simp, Or.inl rfl⟩
  have htable : ∀ e ∈ bitmaps.takeWhile (·.2 ≠ 0), 32 ≤ e.2 := by
    rw [regular_eq]
    exact regular_codepoint
  have hall := hnone.searchBitmaps htable
  rw [List.nil_append, regular_eq] at hall
  intro m
  -- The entry differs in nothing, so the search ends with a difference of 0.
  have hzero : m.bestDiff = 0 := by
    have hle := hall.least e he
    rw [patternDiff_eq_zero.mpr hbits] at hle
    exact Nat.le_zero.mp hle
  cases hall.entry with
  | inl heq => exact absurd (heq ▸ hzero) hstart
  | inr hfound => exact ⟨hfound.1, patternDiff_eq_zero.mp (hfound.2.symm.trans hzero)⟩

/-! ## The whole block -/

/-- What `findCharData` starts its search with. -/
def startMatch : Match := ⟨8, 0x0000ffff, 0x2584, false⟩

/-- The search starts from the bits that the split gives. -/
theorem matchBlock_eq_ok (hrange : colorRange image (blockPixels x0 y0 width) = .ok r)
    (hsplit : splitBits image (blockPixels x0 y0 width) (splitChannel r.1 r.2).1
      (r.1 (splitChannel r.1 r.2).1 + (splitChannel r.1 r.2).2 / 2) = .ok bits) :
    matchBlock image x0 y0 width = .ok (searchBitmaps bits bitmaps startMatch) := by
  simp only [matchBlock, hrange, bind, Except.bind, hsplit]
  rfl

/-- What the split finds in a block of two colours has an entry that differs in no bit. -/
private theorem exists_entry (he : e ∈ regular) (hbits : bits = e.1 ∨ bits = ~~~e.1 ∨ bits = 0) :
    ∃ e' ∈ regular, e'.1 = bits ∨ e'.1 = ~~~bits := by
  cases hbits with
  | inl heq => exact ⟨e, he, Or.inl heq.symm⟩
  | inr hbits =>
    cases hbits with
    | inl hnot => exact ⟨e, he, Or.inr (by rw [hnot, UInt32.not_not])⟩
    | inr hzero => exact ⟨(0x00000000, 0x00a0), by decide, Or.inl hzero.symm⟩

/-- The match of a block of two colours is an entry of the table along which the block shows two
    colours. -/
private theorem matchBlock_paints (he : e ∈ regular) (h : Paints image x0 y0 width e.1 f g) :
    ∃ m, matchBlock image x0 y0 width = .ok m ∧ (m.bestPattern, m.codepoint) ∈ regular
      ∧ ∃ f' g', Paints image x0 y0 width m.bestPattern f' g' := by
  have hne : paint f g (msb 32 e.1.toNat) ≠ [] := by
    apply List.ne_nil_of_length_pos
    rw [paint, List.length_map, length_msb]
    decide
  -- The channel with the widest range tells the two colours apart.
  obtain ⟨r, hrange, hr⟩ := colorRange_spec (paints_iff.mp h) hne
  obtain ⟨bits, hsplit, hbits, f', g', hpaints⟩ := splitBits_paints h hr
  obtain ⟨e', he', hexact⟩ := exists_entry he hbits
  have hstart : startMatch.bestDiff ≠ 0 := by decide
  -- So the bits are an entry of the table or the inverse of one, and the search finds it.
  obtain ⟨hmem, hpattern⟩ := searchBitmaps_exact he' hexact hstart
  refine ⟨_, matchBlock_eq_ok hrange hsplit, hmem, ?_⟩
  generalize searchBitmaps bits bitmaps startMatch = m at hpattern
  cases hpattern with
  | inl hsame =>
    rw [hsame]
    exact ⟨f', g', hpaints⟩
  -- With the inverse pattern the two colours change their places.
  | inr hinv =>
    rw [hinv]
    exact ⟨g', f', hpaints.not⟩

/-- Blocks of two colours are shown exactly: the pattern that is found for the block and the
    colours that are chosen for it make up the same block. -/
theorem findCharData_exact (he : e ∈ regular) (h : Paints image x0 y0 width e.1 f g) :
    ∃ m r, matchBlock image x0 y0 width = .ok m ∧ findCharData image x0 y0 width = .ok r
      ∧ (m.bestPattern, r.codePoint) ∈ regular
      ∧ Paints image x0 y0 width m.bestPattern r.fgColor r.bgColor := by
  obtain ⟨m, hmatch, hmem, f', g', hpaints⟩ := matchBlock_paints he h
  obtain ⟨r, hr, hcode, hrender⟩ := createCharData_paints hpaints m.codepoint
  refine ⟨m, r, hmatch, ?_, ?_, hrender⟩
  · rw [findCharData, hmatch]
    exact hr
  · rw [hcode]
    exact hmem

/-- A bright block with a dark lowest row is matched through the inverse of its pattern. -/
theorem findCharData_exact_inverted :
    let image : Bytes := List.replicate 84 200 ++ List.replicate 12 10
    ∃ m r, matchBlock image 0 0 4 = .ok m ∧ findCharData image 0 0 4 = .ok r
      ∧ (m.bestPattern, r.codePoint) ∈ regular
      ∧ Paints image 0 0 4 m.bestPattern r.fgColor r.bgColor := by
  have he : ((0x0000000f, 0x2581) : UInt32 × Nat) ∈ regular := by decide
  apply findCharData_exact (f := ![10, 10, 10]) (g := ![200, 200, 200]) he
  intro y hy x hx
  interval_cases y <;> interval_cases x <;> rfl

end Udb.Spec

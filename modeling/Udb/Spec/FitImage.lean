import Udb.Native.PrintImg

/-!
# Fitting an image to the terminal

Each branch of the loop in `get_ideal_image_size` makes one dimension smaller and
computes the other one from it. The sizes it goes through lie on the line of the
aspect ratio, up to the fraction that is dropped from the dimension computed last
(`OnLine`). A step is longer than that fraction, so the dimension that is computed
does not grow either, also below zero, where dropping the fraction rounds up.

## Key results

- `narrow_noLarger`, `lower_noLarger`: neither branch enlarges a dimension
- `solve_returns`: the loop ends, with a size that fits
- `solve_eq_last`: what it returns is the last of the sizes that it goes through
- `getIdealImageSize_fits`: all of it, for every image and every terminal
-/

namespace Udb.Spec

open Udb.Native Trunc

/-- Neither dimension of the second size is larger. -/
def NoLarger (s s' : ImageSize) : Prop := s'.width ≤ s.width ∧ s'.height ≤ s.height

/-- The size fits the terminal. -/
def Fits (term s : ImageSize) : Prop := s.width ≤ term.width ∧ s.height ≤ term.height

/-- One dimension is what the other one and the ratio `q` give, without its fraction. -/
def OnLine (q : ℚ) (s : ImageSize) : Prop :=
  s.height = trunc ((s.width : ℚ) / q) ∨ s.width = trunc ((s.height : ℚ) * q)

section Steps

variable {q : ℚ} {s term : ImageSize} {termW termH : Int}

/-- A size is no larger than itself. -/
theorem NoLarger.refl (s : ImageSize) : NoLarger s s := ⟨le_rfl, le_rfl⟩

/-! ## One branch -/

/-- Narrowing keeps the ratio. -/
private theorem onLine_narrow (h : OnLine q s) : OnLine q (narrow termW q s) := by
  unfold narrow
  split
  · exact .inl rfl
  · exact h

/-- So does lowering. -/
private theorem onLine_lower (h : OnLine q s) : OnLine q (lower termH q s) := by
  unfold lower
  split
  · exact .inr rfl
  · exact h

/-- The new height is not above the old one: it comes from a smaller width, and if the width was
    computed from the old height, the step of 8 outweighs the fraction that was dropped then. -/
private theorem trunc_div_le (hq : 0 < q) (h : OnLine q s) :
    trunc (((s.width - termPaddingX : Int) : ℚ) / q) ≤ s.height := by
  cases h with
  | inl hheight =>
    -- The height came from the width, which has become smaller.
    rw [hheight]
    apply trunc_mono
    apply div_le_div_of_nonneg_right _ hq.le
    simp only [termPaddingX]
    push_cast
    linarith
  | inr hwidth =>
    -- The width came from the height, so going back loses less than the padding.
    apply trunc_le_of_le
    rw [div_le_iff₀ hq]
    have hlt := trunc_lt_add_one ((s.height : ℚ) * q)
    rw [← hwidth] at hlt
    simp only [termPaddingX]
    push_cast
    linarith

/-- The same for the new width. -/
private theorem trunc_mul_le (hq : 0 < q) (h : OnLine q s) :
    trunc (((s.height - termPaddingY : Int) : ℚ) * q) ≤ s.width := by
  cases h with
  | inl hheight =>
    -- The height came from the width, so going back loses less than the padding.
    apply trunc_le_of_le
    rw [← le_div_iff₀ hq]
    have hlt := trunc_lt_add_one ((s.width : ℚ) / q)
    rw [← hheight] at hlt
    simp only [termPaddingY]
    push_cast
    linarith
  | inr hwidth =>
    -- The width came from the height, which has become smaller.
    rw [hwidth]
    apply trunc_mono
    apply mul_le_mul_of_nonneg_right _ hq.le
    simp only [termPaddingY]
    push_cast
    linarith

/-- Narrowing makes neither side larger. -/
theorem narrow_noLarger (hq : 0 < q) (h : OnLine q s) : NoLarger s (narrow termW q s) := by
  unfold narrow
  split
  · refine ⟨?_, trunc_div_le hq h⟩
    simp only [termPaddingX]
    omega
  · exact .refl s

/-- Nor does lowering. -/
theorem lower_noLarger (hq : 0 < q) (h : OnLine q s) : NoLarger s (lower termH q s) := by
  unfold lower
  split
  · refine ⟨trunc_mul_le hq h, ?_⟩
    simp only [termPaddingY]
    omega
  · exact .refl s

/-! ## The loop -/

/-- By how much the size is too large. -/
def excess (term s : ImageSize) : Nat :=
  (s.width - term.width).toNat + (s.height - term.height).toNat

/-- A smaller size exceeds the terminal by no more. -/
private theorem excess_le {s' : ImageSize} (h : NoLarger s s')
    : excess term s' ≤ excess term s := by
  obtain ⟨hw, hh⟩ := h
  unfold excess
  omega

/-- A size that is too wide exceeds it by less when it has been narrowed. -/
private theorem excess_narrow (hq : 0 < q) (h : OnLine q s) (hw : s.width > term.width) :
    excess term (narrow term.width q s) < excess term s := by
  have hheight := trunc_div_le hq h
  rw [narrow, if_pos hw]
  simp only [excess, termPaddingX] at hheight ⊢
  omega

/-- One that is too high, when it has been lowered. -/
private theorem excess_lower (hq : 0 < q) (h : OnLine q s) (hh : s.height > term.height) :
    excess term (lower term.height q s) < excess term s := by
  have hwidth := trunc_mul_le hq h
  rw [lower, if_pos hh]
  simp only [excess, termPaddingY] at hwidth ⊢
  omega

/-- A turn keeps the ratio. -/
private theorem onLine_solveTurn (h : OnLine q s) : OnLine q (solveTurn term q s).1 :=
  onLine_lower (onLine_narrow h)

/-- A turn that goes on has made the size smaller. -/
private theorem excess_solveTurn (hq : 0 < q) (h : OnLine q s)
    (hsolving : (solveTurn term q s).2 = true) :
    excess term (solveTurn term q s).1 < excess term s := by
  have hnarrow : excess term (narrow term.width q s) ≤ excess term s :=
    excess_le (narrow_noLarger hq h)
  simp only [solveTurn, Bool.or_eq_true, decide_eq_true_eq] at hsolving ⊢
  cases hsolving with
  | inl hw =>
    -- The turn has narrowed: what it does to the height makes nothing larger.
    have hline : OnLine q (narrow term.width q s) := onLine_narrow h
    have hlower : excess term (lower term.height q (narrow term.width q s)) ≤
        excess term (narrow term.width q s) := excess_le (lower_noLarger hq hline)
    exact hlower.trans_lt (excess_narrow hq h hw)
  -- It has lowered, behind a step that makes nothing larger.
  | inr hh => exact (excess_lower hq (onLine_narrow h) hh).trans_le hnarrow

/-- A turn that does not go on has changed nothing, because the size fits. -/
private theorem solveTurn_of_not_solving (hdone : (solveTurn term q s).2 = false) :
    (solveTurn term q s).1 = s ∧ Fits term s := by
  simp only [solveTurn, Bool.or_eq_false_iff, decide_eq_false_iff_not] at hdone ⊢
  obtain ⟨hw, hh⟩ := hdone
  have hsame : narrow term.width q s = s := if_neg hw
  rw [hsame] at hh ⊢
  exact ⟨if_neg hh, not_lt.mp hw, not_lt.mp hh⟩

/-- One turn of the loop. -/
theorem solve_succ (term : ImageSize) (q : ℚ) (fuel : Nat) (s : ImageSize) :
    solve term q (fuel + 1) s = if (solveTurn term q s).2 then
      solve term q fuel (solveTurn term q s).1 else some (solveTurn term q s).1 := rfl

/-- The loop ends, after at most as many turns as the size is too large by, and one. -/
theorem solve_returns (hq : 0 < q) (h : OnLine q s) :
    ∃ r, Fits term r ∧ ∀ fuel, excess term s < fuel → solve term q fuel s = some r := by
  -- Induction on the excess.
  induction hn : excess term s using Nat.strong_induction_on generalizing s with
  | _ n ih =>
    cases hsolving : (solveTurn term q s).2 with
    | true =>
      have hlt := excess_solveTurn hq h hsolving
      obtain ⟨r, hfits, hr⟩ := ih _ (hn ▸ hlt) (onLine_solveTurn h) rfl
      refine ⟨r, hfits, fun fuel hfuel => ?_⟩
      obtain ⟨fuel, rfl⟩ : ∃ k, fuel = k + 1 := ⟨fuel - 1, by omega⟩
      rw [solve_succ, hsolving]
      exact hr fuel (by omega)
    | false =>
      obtain ⟨hsame, hfits⟩ := solveTurn_of_not_solving hsolving
      refine ⟨s, hfits, fun fuel hfuel => ?_⟩
      obtain ⟨fuel, rfl⟩ : ∃ k, fuel = k + 1 := ⟨fuel - 1, by omega⟩
      rw [solve_succ, hsolving, hsame]
      rfl

/-- The sizes that the loop goes through in its first turns, one for each branch. -/
def solveTrace (term : ImageSize) (q : ℚ) : (turns : Nat) → ImageSize → List ImageSize
  | 0, s => [s]
  | turns + 1, s =>
    let (s', solving) := solveTurn term q s
    s :: narrow term.width q s :: if solving then solveTrace term q turns s' else [s']

/-- The sizes of one turn, and of those behind it. -/
private theorem solveTrace_succ (term : ImageSize) (q : ℚ) (turns : Nat) (s : ImageSize) :
    solveTrace term q (turns + 1) s = s :: narrow term.width q s ::
      if (solveTurn term q s).2 then solveTrace term q turns (solveTurn term q s).1
      else [(solveTurn term q s).1] := rfl

/-- The first size is the one that the loop starts from. -/
private theorem head?_solveTrace (turns : Nat) : (solveTrace term q turns s).head? = some s := by
  cases turns <;> rfl

/-- What the loop returns is the last size that it goes through, and with more fuel it goes through
    the same sizes. -/
theorem solve_eq_last {fuel k : Nat} {r : ImageSize} (h : solve term q fuel s = some r)
    (hk : fuel ≤ k) : solveTrace term q k s = solveTrace term q fuel s ∧
      (solveTrace term q fuel s).getLast? = some r := by
  induction fuel generalizing s k with
  | zero => cases h
  | succ fuel ih =>
    obtain ⟨k, rfl⟩ : ∃ j, k = j + 1 := ⟨k - 1, by omega⟩
    rw [solve_succ] at h
    rw [solveTrace_succ, solveTrace_succ]
    cases hsolving : (solveTurn term q s).2 with
    | true =>
      -- The loop goes on, and more turns change nothing of what follows.
      rw [hsolving] at h
      obtain ⟨hsame, hlast⟩ := ih h (Nat.le_of_succ_le_succ hk)
      refine ⟨by rw [if_pos rfl, if_pos rfl, hsame], ?_⟩
      rw [if_pos rfl, List.getLast?_cons, List.getLast?_cons, hlast]
      rfl
    | false =>
      -- It ends with this size.
      rw [hsolving] at h
      obtain rfl := Option.some.inj h
      exact ⟨rfl, rfl⟩

/-- No branch enlarges a dimension, however long the loop has run. -/
private theorem isChain_solveTrace (hq : 0 < q) (h : OnLine q s) (turns : Nat) :
    (solveTrace term q turns s).IsChain NoLarger := by
  induction turns generalizing s with
  | zero => exact .singleton s
  | succ turns ih =>
    -- A turn goes through two sizes: narrowed, and then lowered.
    have hlower : NoLarger (narrow term.width q s) (solveTurn term q s).1 :=
      lower_noLarger hq (onLine_narrow h)
    rw [solveTrace_succ]
    apply List.IsChain.cons_cons (narrow_noLarger hq h)
    cases hsolving : (solveTurn term q s).2 with
    | true =>
      apply (ih (onLine_solveTurn h)).cons
      intro s' hs'
      rw [head?_solveTrace, Option.mem_some] at hs'
      rwa [← hs']
    | false =>
      exact .cons_cons hlower (.singleton _)

end Steps

/-! ## The range of `int` -/

/-- Both dimensions can be stored in an `int`. -/
def InInt (s : ImageSize) : Prop :=
  -2 ^ 31 ≤ s.width ∧ s.width < 2 ^ 31 ∧ -2 ^ 31 ≤ s.height ∧ s.height < 2 ^ 31

/-- No dimension is far below zero. -/
def AboveFloor (s : ImageSize) : Prop := -2 ^ 28 ≤ s.width ∧ -2 ^ 28 ≤ s.height

section Range

variable {q : ℚ} {s term : ImageSize}

/-- Narrowing to the terminal stays above the floor. -/
private theorem narrow_aboveFloor (hterm : -8 ≤ term.width) (hq : 0 < q) (hlow : 1 ≤ q * 2 ^ 24)
    (h : AboveFloor s) : AboveFloor (narrow term.width q s) := by
  unfold narrow
  split
  · -- The new width is at least -15, and the ratio is not below 1 : 2^24.
    rename_i hwide
    have hwidth : (-15 : ℚ) ≤ ((s.width - termPaddingX : Int) : ℚ) := by
      have hint : (-15 : Int) ≤ s.width - termPaddingX := by
        simp only [termPaddingX]
        omega
      exact_mod_cast hint
    have hheight : ((-2 ^ 28 : Int) : ℚ) ≤ ((s.width - termPaddingX : Int) : ℚ) / q := by
      rw [le_div_iff₀ hq]
      push_cast at hwidth ⊢
      linarith
    refine ⟨?_, ?_⟩
    · simp only [termPaddingX]
      omega
    · have hmono := trunc_mono hheight
      rwa [trunc_intCast] at hmono
  · exact h

/-- So does lowering. -/
private theorem lower_aboveFloor (hterm : -4 ≤ term.height) (hq : 0 < q) (hhigh : q ≤ 2 ^ 25)
    (h : AboveFloor s) : AboveFloor (lower term.height q s) := by
  unfold lower
  split
  · rename_i htall
    -- The height is above the limit, which is `-4` at least.
    have hheight : (-7 : ℚ) ≤ ((s.height - termPaddingY : Int) : ℚ) := by
      have hint : (-7 : Int) ≤ s.height - termPaddingY := by
        simp only [termPaddingY]
        omega
      exact_mod_cast hint
    -- The ratio is at most `2 ^ 25`, so the width stays an `int`.
    have hwidth : ((-2 ^ 28 : Int) : ℚ) ≤ ((s.height - termPaddingY : Int) : ℚ) * q := by
      have hscale := mul_le_mul_of_nonneg_right hheight hq.le
      push_cast at hscale ⊢
      linarith
    refine ⟨?_, ?_⟩
    · have hmono := trunc_mono hwidth
      rwa [trunc_intCast] at hmono
    · simp only [termPaddingY]
      omega
  · exact h

/-- So do all sizes that the loop goes through. -/
private theorem aboveFloor_of_mem_solveTrace (hwidth : -8 ≤ term.width) (hheight : -4 ≤ term.height)
    (hq : 0 < q) (hlow : 1 ≤ q * 2 ^ 24) (hhigh : q ≤ 2 ^ 25) (h : AboveFloor s) (turns : Nat) :
    ∀ s' ∈ solveTrace term q turns s, AboveFloor s' := by
  induction turns generalizing s with
  | zero =>
    intro s' hs'
    rwa [List.mem_singleton.mp hs']
  | succ turns ih =>
    have hnarrow := narrow_aboveFloor hwidth hq hlow h
    have hturn : AboveFloor (solveTurn term q s).1 := lower_aboveFloor hheight hq hhigh hnarrow
    intro s' hs'
    rw [solveTrace_succ, List.mem_cons, List.mem_cons] at hs'
    rcases hs' with rfl | rfl | hs'
    · -- The size in front of the turn, the narrowed one, and those behind it.
      exact h
    · exact hnarrow
    · split at hs'
      · exact ih hturn s' hs'
      · rwa [List.mem_singleton.mp hs']

instance : Trans NoLarger NoLarger NoLarger where
  trans h h' := ⟨h'.1.trans h.1, h'.2.trans h.2⟩

/-- All sizes of a chain are no larger than the first. -/
private theorem noLarger_of_mem {sizes : List ImageSize} (h : (s :: sizes).IsChain NoLarger) :
    ∀ s' ∈ s :: sizes, NoLarger s s' := by
  intro s' hs'
  cases List.mem_cons.mp hs' with
  | inl heq => exact heq ▸ .refl s
  | inr hmem => exact h.rel_cons hmem

end Range

/-! ## All images and terminals -/

/-- `get_term_size` returns at most 400 columns and 120 rows, and none of them is negative. -/
private theorem getTermSize_bounds (ioctl : Option (UInt16 × UInt16)) :
    Fits ⟨400, 120⟩ (getTermSize ioctl) ∧ 0 ≤ (getTermSize ioctl).width ∧
      0 ≤ (getTermSize ioctl).height := by
  unfold getTermSize Fits
  split
  · decide
  · split
    · decide
    · dsimp only
      split <;> split <;> omega

/-- The image itself is on its line. -/
theorem onLine_startSize {s : ImageSize} (hw : 0 < s.width) (hh : 0 < s.height) :
    0 < aspectRatio s ∧ OnLine (aspectRatio s) s := by
  have hw' : (0 : ℚ) < s.width := by exact_mod_cast hw
  have hh' : (0 : ℚ) < s.height := by exact_mod_cast hh
  refine ⟨div_pos hw' hh', .inl ?_⟩
  have hexact : (s.width : ℚ) / aspectRatio s = (s.height : ℚ) := by
    unfold aspectRatio
    field_simp
  rw [hexact, trunc_intCast]

/-- Padding takes no more than eight columns and four lines from nothing. -/
private theorem paddedTerm_bounds (ioctl : Option (UInt16 × UInt16)) :
    -8 ≤ (paddedTerm ioctl).width ∧ -4 ≤ (paddedTerm ioctl).height := by
  obtain ⟨-, hw, hh⟩ := getTermSize_bounds ioctl
  simp only [paddedTerm, termPaddingX, termPaddingY]
  omega

/-- The ratio of an image that stb can load. -/
private theorem aspectRatio_bounds {s : ImageSize} (hw : 0 < s.width) (hh : 0 < s.height)
    (hwmax : s.width ≤ 2 * stbiMaxDimensions) (hhmax : s.height ≤ stbiMaxDimensions) :
    1 ≤ aspectRatio s * 2 ^ 24 ∧ aspectRatio s ≤ 2 ^ 25 := by
  have hw' : (1 : ℚ) ≤ s.width := by exact_mod_cast hw
  have hh' : (1 : ℚ) ≤ s.height := by exact_mod_cast hh
  have hwmax' : (s.width : ℚ) ≤ 2 ^ 25 := by
    have hint : s.width ≤ 2 ^ 25 := hwmax.trans (by decide)
    exact_mod_cast hint
  have hhmax' : (s.height : ℚ) ≤ 2 ^ 24 := by
    have hint : s.height ≤ 2 ^ 24 := hhmax.trans (by decide)
    exact_mod_cast hint
  have hpos : (0 : ℚ) < s.height := by linarith
  unfold aspectRatio
  constructor
  · -- At least `1 / 2 ^ 24`, for the highest image that is one pixel wide.
    rw [div_mul_eq_mul_div, le_div_iff₀ hpos]
    linarith
  · -- At most `2 ^ 25`, for the widest that is one pixel high.
    rw [div_le_iff₀ hpos]
    linarith

/-- `get_ideal_image_size` returns, for every image and every terminal. The sizes that its loop
    goes through start with the image, narrow characters taken into account, and end with what it
    returns, which fits the padded terminal; no dimension grows from one size to the next. For an
    image that stb can load no `int` overflows on the way. -/
theorem getIdealImageSize_fits (ioctl : Option (UInt16 × UInt16)) (imageWidth imageHeight : Int)
    (hw : 1 ≤ imageWidth) (hh : 1 ≤ imageHeight) (squashingEnabled : Bool) :
    ∃ r n sizes, Fits (paddedTerm ioctl) r ∧
      (∀ fuel, n ≤ fuel →
        getIdealImageSize fuel ioctl imageWidth imageHeight squashingEnabled = some r ∧
        solveTrace (paddedTerm ioctl)
          (aspectRatio (startSize imageWidth imageHeight squashingEnabled)) fuel
          (startSize imageWidth imageHeight squashingEnabled) = sizes) ∧
      sizes.head? = some (startSize imageWidth imageHeight squashingEnabled) ∧
      sizes.getLast? = some r ∧ sizes.IsChain NoLarger ∧
      (imageWidth ≤ stbiMaxDimensions → imageHeight ≤ stbiMaxDimensions →
        ∀ s ∈ sizes, InInt s) := by
  let start := startSize imageWidth imageHeight squashingEnabled
  have hstart : 0 < start.width := by
    simp only [start, startSize]
    split <;> omega
  have hheight : 0 < start.height := by
    simp only [start, startSize]
    omega
  obtain ⟨hq, hline⟩ := onLine_startSize hstart hheight
  obtain ⟨r, hfits, hr⟩ := @solve_returns _ _ (paddedTerm ioctl) hq hline
  let n := excess (paddedTerm ioctl) start + 1
  let sizes := solveTrace (paddedTerm ioctl) (aspectRatio start) n start
  have hsolve : solve (paddedTerm ioctl) (aspectRatio start) n start = some r :=
    hr n (Nat.lt_succ_self _)
  have hhead : sizes.head? = some start := head?_solveTrace n
  have hchain : sizes.IsChain NoLarger := isChain_solveTrace hq hline n
  refine ⟨r, n, sizes, hfits, fun fuel hfuel => ?_, hhead, (solve_eq_last hsolve le_rfl).2, hchain,
    fun hwmax hhmax s hs => ?_⟩
  · exact ⟨hr fuel (Nat.lt_of_succ_le hfuel), (solve_eq_last hsolve hfuel).1⟩
  · have hmax : stbiMaxDimensions = 16777216 := rfl
    have hwstart : start.width ≤ 2 * stbiMaxDimensions := by
      simp only [start, startSize]
      split <;> omega
    have hhstart : start.height ≤ stbiMaxDimensions := hhmax
    obtain ⟨hlow, hhigh⟩ := aspectRatio_bounds hstart hheight hwstart hhstart
    obtain ⟨htermW, htermH⟩ := paddedTerm_bounds ioctl
    -- From above by the first size, from below by what a branch can come to.
    obtain ⟨tail, hcons⟩ : ∃ tail, sizes = start :: tail := List.head?_eq_some_iff.mp hhead
    have hupper : NoLarger start s := noLarger_of_mem (hcons ▸ hchain) s (hcons ▸ hs)
    have hlower : AboveFloor s := aboveFloor_of_mem_solveTrace htermW htermH hq hlow hhigh
      (by unfold AboveFloor; omega) n s hs
    obtain ⟨hwu, hhu⟩ := hupper
    obtain ⟨hwl, hhl⟩ := hlower
    unfold InInt
    omega

/-- A picture of 640x480 on a terminal without columns. -/
theorem getIdealImageSize_fits_none :
    ∃ (r : ImageSize) (n : Nat) (sizes : List ImageSize), Fits (paddedTerm (some (0, 3))) r ∧
      (∀ fuel, n ≤ fuel → getIdealImageSize fuel (some (0, 3)) 640 480 true = some r) ∧
      sizes.head? = some ⟨1280, 480⟩ ∧ sizes.getLast? = some r ∧ sizes.IsChain NoLarger ∧
      ∀ s ∈ sizes, InInt s := by
  obtain ⟨r, n, sizes, hfits, hreturns, hhead, hlast, hchain, hint⟩ :=
    getIdealImageSize_fits (some (0, 3)) 640 480 (by decide) (by decide) true
  exact ⟨r, n, sizes, hfits, fun fuel hfuel => (hreturns fuel hfuel).1, hhead, hlast, hchain,
    hint (by decide) (by decide)⟩

end Udb.Spec

import Mathlib

/-!
# Rounding toward zero

The conversion of a number to an integer as C does it: the fraction is dropped,
which rounds positive numbers down and negative ones up.
-/

namespace Trunc

variable {K : Type*} [Field K] [LinearOrder K] [IsStrictOrderedRing K] [FloorRing K] {x y : K}
  {n : ℤ}

/-- The integer without its fraction. -/
def trunc (x : K) : ℤ := if 0 ≤ x then ⌊x⌋ else ⌈x⌉

@[simp] theorem trunc_intCast (n : ℤ) : trunc (n : K) = n := by
  unfold trunc
  split
  · exact Int.floor_intCast n
  · exact Int.ceil_intCast n

omit [IsStrictOrderedRing K] in
/-- The order is kept, also across zero. -/
theorem trunc_mono (h : x ≤ y) : trunc x ≤ trunc y := by
  unfold trunc
  split
  · rename_i hx
    rw [if_pos (hx.trans h)]
    exact Int.floor_le_floor h
  · rename_i hx
    split
    · rename_i hy
      -- The two are on either side of zero.
      have hneg : ⌈x⌉ ≤ 0 := Int.ceil_le.mpr (by rw [Int.cast_zero]; exact (not_le.mp hx).le)
      exact hneg.trans (Int.floor_nonneg.mpr hy)
    · exact Int.ceil_le_ceil h

/-- Less than one is lost below zero. -/
theorem trunc_lt_add_one (x : K) : (trunc x : K) < x + 1 := by
  unfold trunc
  split
  · exact (Int.floor_le x).trans_lt (lt_add_one x)
  · exact Int.ceil_lt_add_one x

/-- What is below an integer stays below it. -/
theorem trunc_le_of_le (h : x ≤ n) : trunc x ≤ n := by
  have hmono := trunc_mono h
  rwa [trunc_intCast] at hmono

end Trunc

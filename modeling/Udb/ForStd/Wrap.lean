import Mathlib

/-!
# A clock that wraps

A clock with `N` values shows the time `t` as `t % N`. Two readings are often
compared by the distance of what is shown, larger less smaller. That is the time
between them as long as no wrap lies between the two; across a wrap it is what
the time between them leaves of a period.
-/

namespace Wrap

variable {N t u : Nat}

/-- Within one period the distance shown is the true one. -/
theorem dist_mod_of_div_eq (h : t / N = u / N) : Nat.dist (t % N) (u % N) = Nat.dist t u := by
  have ht := Nat.div_add_mod t N
  have hu := Nat.div_add_mod u N
  rw [← h] at hu
  unfold Nat.dist
  omega

/-- Times less than a period apart, the later one in the next period. -/
theorem div_succ_of_lt (hN : 0 < N) (hlt : t / N < u / N) (hnear : u < t + N) :
    u / N = t / N + 1 := by
  have hle : u / N ≤ (t + N) / N := Nat.div_le_div_right hnear.le
  rw [Nat.add_div_right t hN] at hle
  omega

/-- Across a wrap the distance shown is what the true one leaves of a period. -/
theorem dist_mod_of_div_lt (hN : 0 < N) (hlt : t / N < u / N) (hnear : u < t + N) :
    Nat.dist (t % N) (u % N) = N - Nat.dist t u := by
  have ht := Nat.div_add_mod t N
  have hu := Nat.div_add_mod u N
  have hmod := Nat.mod_lt t hN
  rw [div_succ_of_lt hN hlt hnear, Nat.mul_succ] at hu
  unfold Nat.dist
  omega

/-- Two times on both sides of a wrap. -/
theorem dist_mod_of_div_ne (hnear : Nat.dist t u < N) (h : t / N ≠ u / N) :
    Nat.dist (t % N) (u % N) = N - Nat.dist t u := by
  have hN : 0 < N := by omega
  rcases Nat.lt_or_gt_of_ne h with hlt | hlt
  · have hle : t ≤ u := (Nat.lt_of_div_lt_div hlt).le
    rw [Nat.dist_eq_sub_of_le hle] at hnear
    exact dist_mod_of_div_lt hN hlt (by omega)
  · have hle : u ≤ t := (Nat.lt_of_div_lt_div hlt).le
    rw [Nat.dist_eq_sub_of_le_right hle] at hnear
    rw [Nat.dist_comm, dist_mod_of_div_lt hN hlt (by omega), Nat.dist_comm]

/-- A timeout on the distance shown is right if no wrap lies between the two readings, or if it
    is due anyway. It is wrong in all other cases, because a wrap always looks like a long time. -/
theorem timeout_iff {limit : Nat} (hnear : Nat.dist t u + limit < N) :
    (limit < Nat.dist (t % N) (u % N) ↔ limit < Nat.dist t u) ↔
      t / N = u / N ∨ limit < Nat.dist t u := by
  by_cases h : t / N = u / N
  · rw [dist_mod_of_div_eq h]
    exact iff_of_true Iff.rfl (.inl h)
  · have hwrap := dist_mod_of_div_ne (by omega) h
    have hlong : limit < Nat.dist (t % N) (u % N) := by omega
    simp only [hlong, h, true_iff, false_or]

end Wrap

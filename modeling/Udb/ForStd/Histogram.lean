import Mathlib

/-!
# Histograms and ranks

Values are counted in an array of counters, and the counters are then added up from the first to
the last. What each of them holds behind that is a `rank`: the number of values that are not
larger.

Counters may be of a format that has not all numbers. As long as it has all that are not larger
than a bound, and no more values are counted, the counters are as if they were exact.

## Key results

- `foldl_tally`: the counters behind a list of values
- `foldl_accumulate`: the loop that adds up in place
- `sum_count_eq_rank`: the sums are ranks
- `foldl_tallyWith`, `foldl_accumulateWith`: counters that round
-/

namespace Histogram

/-- The number of values that are at most `k`. -/
def rank (values : List ℕ) (k : ℕ) : ℕ := values.countP (· ≤ k)

/-- More values are at most a larger one. -/
theorem rank_mono (values : List ℕ) {k k' : ℕ} (h : k ≤ k') : rank values k ≤ rank values k' := by
  apply List.countP_mono_left
  intro v _ hv
  simp only [decide_eq_true_eq] at hv ⊢
  omega

/-- The rank grows by what is counted. -/
theorem rank_succ (values : List ℕ) (k : ℕ) :
    rank values (k + 1) = rank values k + values.count (k + 1) := by
  induction values with
  | nil => rfl
  | cons v values ih =>
    simp only [rank, List.countP_cons, List.count_cons, decide_eq_true_eq, beq_iff_eq] at ih ⊢
    -- A value is new in the larger rank exactly when it is the bound.
    by_cases hv : v = k + 1
    · have hle : ¬ v ≤ k := by omega
      simp only [hv, le_refl, if_true, if_neg (show ¬ k + 1 ≤ k by omega)]
      omega
    · by_cases hle : v ≤ k
      · simp only [if_pos hle, if_pos (show v ≤ k + 1 by omega), if_neg hv]
        omega
      · simp only [if_neg hle, if_neg (show ¬ v ≤ k + 1 by omega), if_neg hv]
        omega

/-- The counters, summed up to the bound, are the rank. -/
theorem sum_count_eq_rank (values : List ℕ) (k : ℕ) :
    ∑ j ∈ Finset.range (k + 1), values.count j = rank values k := by
  induction k with
  | zero =>
    rw [Finset.sum_range_succ, Finset.sum_range_zero, Nat.zero_add, rank, List.count]
    apply List.countP_congr
    intro v _
    simp
  | succ k ih => rw [Finset.sum_range_succ, ih, rank_succ]

/-- One more value is counted. -/
def tally (counts : ℕ → ℕ) (v : ℕ) : ℕ → ℕ := Function.update counts v (counts v + 1)

/-- Counting all values. -/
theorem foldl_tally (values : List ℕ) (counts : ℕ → ℕ) :
    values.foldl tally counts = fun k => counts k + values.count k := by
  induction values generalizing counts with
  | nil => rfl
  | cons v values ih =>
    rw [List.foldl_cons, ih]
    funext k
    rw [List.count_cons]
    by_cases hk : v = k
    · subst hk
      simp only [tally, Function.update_self, beq_self_eq_true, if_true]
      omega
    · have hne : k ≠ v := fun h => hk h.symm
      simp [tally, Function.update_of_ne hne, hk]

/-- A counter is added to the next one. -/
def accumulate (counts : ℕ → ℕ) (i : ℕ) : ℕ → ℕ :=
  Function.update counts i (counts i + counts (i - 1))

/-- The loop over the counters `1` to `m`. -/
theorem foldl_accumulate (counts : ℕ → ℕ) (m : ℕ) :
    (List.range' 1 m).foldl accumulate counts =
      fun k => if k ≤ m then ∑ j ∈ Finset.range (k + 1), counts j else counts k := by
  -- Induction on the number of turns: the counters behind the last turn are untouched.
  induction m with
  | zero =>
    funext k
    by_cases hk : k = 0
    · simp [hk]
    · simp [hk]
  | succ m ih =>
    rw [List.range'_1_concat, List.foldl_append, ih, List.foldl_cons, List.foldl_nil]
    funext k
    rw [accumulate]
    by_cases hk : k = 1 + m
    · subst hk
      rw [Function.update_self, if_neg (by omega), if_pos (by omega), if_pos (by omega),
        Finset.sum_range_succ _ (1 + m), show 1 + m - 1 + 1 = 1 + m by omega]
      omega
    · rw [Function.update_of_ne hk]
      by_cases hle : k ≤ m
      · rw [if_pos hle, if_pos (by omega)]
      · rw [if_neg hle, if_neg (by omega)]

/-! ## Counters that round -/

section Rounding

variable {add : ℕ → ℕ → ℕ} {bound : ℕ}

/-- One more value is counted, with the addition of a format. -/
def tallyWith (add : ℕ → ℕ → ℕ) (counts : ℕ → ℕ) (v : ℕ) : ℕ → ℕ :=
  Function.update counts v (add (counts v) 1)

/-- A counter is added to the next one, with the addition of a format. -/
def accumulateWith (add : ℕ → ℕ → ℕ) (counts : ℕ → ℕ) (i : ℕ) : ℕ → ℕ :=
  Function.update counts i (add (counts i) (counts (i - 1)))

/-- Up to the bound nothing is rounded away while values are counted. -/
theorem foldl_tallyWith (hadd : ∀ a b, a + b ≤ bound → add a b = a + b) (values : List ℕ)
    {counts : ℕ → ℕ} (hcounts : ∀ k, counts k + values.length ≤ bound) :
    values.foldl (tallyWith add) counts = values.foldl tally counts := by
  induction values generalizing counts with
  | nil => rfl
  | cons v values ih =>
    -- The counter that is raised stays within the bound, so `add` is exact on it.
    have hv : add (counts v) 1 = counts v + 1 := by
      apply hadd
      have := hcounts v
      rw [List.length_cons] at this
      omega
    rw [List.foldl_cons, List.foldl_cons, tallyWith, hv]
    apply ih
    intro k
    have hk := hcounts k
    rw [List.length_cons] at hk
    -- One value fewer is left, and one counter is higher by one.
    by_cases hkv : k = v
    · subst hkv
      rw [Function.update_self]
      omega
    · rw [Function.update_of_ne hkv]
      omega

/-- Nor while the counters are added up. -/
theorem foldl_accumulateWith (hadd : ∀ a b, a + b ≤ bound → add a b = a + b) (counts : ℕ → ℕ)
    {m : ℕ} (hsum : ∑ j ∈ Finset.range (m + 1), counts j ≤ bound) :
    (List.range' 1 m).foldl (accumulateWith add) counts =
      (List.range' 1 m).foldl accumulate counts := by
  induction m with
  | zero => rfl
  | succ m ih =>
    rw [Finset.sum_range_succ] at hsum
    rw [List.range'_1_concat, List.foldl_append, List.foldl_append, ih (by omega),
      foldl_accumulate, List.foldl_cons, List.foldl_nil, List.foldl_cons, List.foldl_nil,
      accumulateWith, accumulate]
    -- What is added up is the sum that is bounded.
    congr 1
    apply hadd
    rw [if_neg (by omega), if_pos (by omega), show 1 + m - 1 + 1 = m + 1 by omega, Nat.add_comm 1 m]
    omega

/-- A number in a format of `p` bits: the nearest one that the format has, and of two the even
    one. -/
def roundBits (p n : ℕ) : ℕ :=
  let ulp := 2 ^ (n.log2 + 1 - p)
  let q := n / ulp
  let r := n % ulp
  if ulp < 2 * r ∨ 2 * r = ulp ∧ q % 2 = 1 then (q + 1) * ulp else q * ulp

/-- The format has all numbers up to `2 ^ p`. -/
theorem roundBits_of_le {p n : ℕ} (hp : 0 < p) (h : n ≤ 2 ^ p) : roundBits p n = n := by
  -- Nothing is cut off: there are at most `p` digits, or the one above them is alone.
  have hexact : n % 2 ^ (n.log2 + 1 - p) = 0 := by
    rcases Nat.lt_or_eq_of_le h with hlt | rfl
    · have hlog : n.log2 + 1 - p = 0 := by
        by_cases hn : n = 0
        · subst hn
          rw [Nat.log2_zero]
          omega
        · have := (Nat.log2_lt hn).mpr hlt
          omega
      rw [hlog, Nat.pow_zero, Nat.mod_one]
    · rw [Nat.log2_two_pow]
      exact Nat.mod_eq_zero_of_dvd (Nat.pow_dvd_pow 2 (by omega))
  have hpos : 0 < 2 ^ (n.log2 + 1 - p) := Nat.two_pow_pos _
  unfold roundBits
  dsimp only
  rw [hexact, if_neg (by omega)]
  exact Nat.div_mul_cancel (Nat.dvd_of_mod_eq_zero hexact)

end Rounding

end Histogram

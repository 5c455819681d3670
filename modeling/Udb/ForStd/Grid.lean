import Mathlib

/-!
# Loops over rows and columns

Two nested loops as one loop over the cells of a grid, row by row, and a loop that
reads something at each place and then goes on with what it read.

## Key results

- `flatMap_range_map`: two nested loops are one loop
- `foldlM_read`, `read_of_foldlM_eq_ok`: a loop that reads at each place
- `overwrite_stripes`: a list that is written stripe by stripe, in any order
-/

namespace Grid

variable {α β σ ε : Type}

/-! ## Nested loops -/

/-- A loop over the rows around a loop over the columns is one loop over the cells. -/
theorem flatMap_range_map (a b : Nat) (f : Nat → Nat → α) :
    ((List.range b).flatMap fun y => (List.range a).map fun x => f x y)
      = (List.range (b * a)).map fun k => f (k % a) (k / a) := by
  induction b with
  | zero => simp
  | succ b ih =>
    -- In row `b` the quotient is `b` and the remainder the column.
    have hrow : ((List.range a).map fun x => f x b)
        = (List.range a).map fun x => f ((b * a + x) % a) ((b * a + x) / a) := by
      apply List.map_congr_left
      intro x hx
      have hlt : x < a := List.mem_range.mp hx
      rw [Nat.mul_comm, Nat.mul_add_mod, Nat.mod_eq_of_lt hlt, Nat.mul_add_div (by omega),
        Nat.div_eq_of_lt hlt, Nat.add_zero]
    rw [List.range_succ, List.flatMap_append, ih, List.flatMap_singleton, hrow, Nat.succ_mul,
      List.range_add, List.map_append, List.map_map]
    rfl

/-! ## Reading at each place -/

/-- A loop that reads at each place goes on with what it reads. -/
theorem foldlM_read {read : α → Except ε β} (step : σ → β → Except ε σ) {xs : List α} {cs : List β}
    (h : List.Forall₂ (fun x c => read x = .ok c) xs cs) (s : σ) :
    xs.foldlM (fun s x => read x >>= step s) s = cs.foldlM step s := by
  induction h generalizing s with
  | nil => rfl
  | cons hread _ ih =>
    rw [List.foldlM_cons, List.foldlM_cons, hread]
    exact bind_congr ih

/-- A loop that succeeds has read at each place. -/
theorem read_of_foldlM_eq_ok {read : α → Except ε β} {step : σ → β → Except ε σ} {xs : List α}
    {s s' : σ} (h : xs.foldlM (fun s x => read x >>= step s) s = .ok s') :
    ∀ x ∈ xs, ∃ c, read x = .ok c := by
  induction xs generalizing s with
  | nil => simp
  | cons x xs ih =>
    rw [List.foldlM_cons] at h
    cases hread : read x with
    -- A read that fails ends the fold.
    | error e => simp [hread, bind, Except.bind] at h
    | ok c =>
      cases hstep : step s c with
      | error e => simp [hread, hstep, bind, Except.bind] at h
      | ok s₁ =>
        intro y hy
        cases List.mem_cons.mp hy with
        | inl heq => exact ⟨c, heq ▸ hread⟩
        | inr hmem =>
          apply ih _ y hmem
          · exact s₁
          · simpa [hread, hstep, bind, Except.bind] using h

/-- What is read at each place, as a list. -/
theorem exists_forall₂_read {read : α → Except ε β} {xs : List α}
    (h : ∀ x ∈ xs, ∃ c, read x = .ok c) :
    ∃ cs, List.Forall₂ (fun x c => read x = .ok c) xs cs := by
  induction xs with
  | nil => exact ⟨[], List.Forall₂.nil⟩
  | cons x xs ih =>
    obtain ⟨c, hc⟩ := h x (List.mem_cons_self ..)
    obtain ⟨cs, hcs⟩ := ih fun y hy => h y (List.mem_cons_of_mem x hy)
    exact ⟨c :: cs, List.Forall₂.cons hc hcs⟩

/-- A relation between numbered places and a list, by the numbers. -/
theorem forall₂_map_range {R : α → β → Prop} {n : Nat} {f : Nat → α} {cs : List β} :
    List.Forall₂ R ((List.range n).map f) cs
      ↔ cs.length = n ∧ ∀ (k : Nat) (hk : k < cs.length), R (f k) cs[k] := by
  rw [List.forall₂_iff_get]
  constructor
  · intro h
    have hlen : n = cs.length := by simpa using h.1
    refine ⟨hlen.symm, fun k hk => ?_⟩
    simpa using h.2 k (by simpa [hlen] using hk) hk
  · intro h
    refine ⟨by simpa using h.1.symm, fun k _ hk => ?_⟩
    simpa using h.2 k hk

/-! ## Writing stripe by stripe -/

/-- `xs` with `ys` stored from the place `i` on. -/
def overwrite (xs : List α) (i : Nat) (ys : List α) : List α :=
  xs.take i ++ ys ++ xs.drop (i + ys.length)

/-- The stripe `k` of a list that is cut into stripes of length `m`. -/
def stripe (m : Nat) (xs : List α) (k : Nat) : List α := (xs.drop (m * k)).take m

variable {xs ys zs : List α} {i k m n : Nat}

/-- Storing an element and then the ones behind it stores all of them. -/
theorem overwrite_set (h : i < xs.length) (y : α) :
    overwrite (xs.set i y) (i + 1) ys = overwrite xs i (y :: ys) := by
  have hlen : i < (xs.set i y).length := by rw [List.length_set]; exact h
  have htake : (xs.set i y).take (i + 1) = xs.take i ++ [y] := by
    rw [List.take_succ_eq_append_getElem hlen, List.take_set_of_le (Nat.le_refl i),
      List.getElem_set_self]
  have hdrop : (xs.set i y).drop (i + 1 + ys.length) = xs.drop (i + (y :: ys).length) := by
    rw [List.drop_set_of_lt (by omega), List.length_cons]
    congr 1
    omega
  rw [overwrite, overwrite, htake, hdrop]
  simp

/-- Overwriting keeps the length. -/
theorem length_overwrite (h : i + ys.length ≤ xs.length) :
    (overwrite xs i ys).length = xs.length := by
  simp only [overwrite, List.length_append, List.length_take, List.length_drop]
  omega

/-- It changes its places and no others. -/
theorem getElem?_overwrite (h : i + ys.length ≤ xs.length) (j : Nat) :
    (overwrite xs i ys)[j]? = if i ≤ j ∧ j < i + ys.length then ys[j - i]? else xs[j]? := by
  have htake : (xs.take i).length = i := by
    rw [List.length_take]
    omega
  by_cases hlow : j < i
  · rw [if_neg (by omega), overwrite, List.append_assoc, List.getElem?_append_left (by omega),
      List.getElem?_take_of_lt hlow]
  by_cases hmid : j < i + ys.length
  · rw [if_pos ⟨by omega, hmid⟩, overwrite, List.append_assoc,
      List.getElem?_append_right (by omega), htake, List.getElem?_append_left (by omega)]
  · rw [if_neg (by omega), overwrite, List.getElem?_append_right (by simp; omega),
      List.getElem?_drop]
    congr 1
    rw [List.length_append, htake]
    omega

/-- Each stripe is inside the list. -/
theorem stripe_le (hk : k < n) : m * k + m ≤ n * m := by
  rw [← Nat.mul_succ, Nat.mul_comm n]
  exact Nat.mul_le_mul_left m hk

/-- A stripe is as long as a row of stripes says. -/
theorem length_stripe (hk : k < n) (hxs : xs.length = n * m) : (stripe m xs k).length = m := by
  have hle : m * k + m ≤ n * m := stripe_le hk
  rw [stripe, List.length_take, List.length_drop, hxs]
  omega

/-- What a stripe leaves behind: the places in it hold their elements, the others are as before. -/
theorem getElem?_overwrite_stripe (hk : k < n) (hxs : xs.length = n * m) (hzs : zs.length = n * m)
    {j : Nat} (hj : j < n * m) :
    (overwrite zs (m * k) (stripe m xs k))[j]? = if j / m = k then xs[j]? else zs[j]? := by
  have hm : 0 < m := Nat.pos_of_lt_mul_left hj
  have hlen : (stripe m xs k).length = m := length_stripe hk hxs
  -- The places of stripe `k` are those with quotient `k`.
  have hiff : j / m = k ↔ m * k ≤ j ∧ j < m * k + m := by
    rw [Nat.div_eq_iff hm, Nat.mul_comm k]
    omega
  rw [getElem?_overwrite (by rw [hlen, hzs]; exact stripe_le hk), hlen]
  by_cases hin : j / m = k
  · have hbounds := hiff.mp hin
    rw [if_pos hbounds, if_pos hin, stripe, List.getElem?_take_of_lt (by omega),
      List.getElem?_drop]
    congr 1
    omega
  · rw [if_neg (fun hb => hin (hiff.mpr hb)), if_neg hin]

/-- Overwriting one stripe keeps the length. -/
theorem length_overwrite_stripe (hk : k < n) (hxs : xs.length = n * m) (hzs : zs.length = n * m) :
    (overwrite zs (m * k) (stripe m xs k)).length = n * m := by
  rw [length_overwrite, hzs]
  rw [length_stripe hk hxs, hzs]
  exact stripe_le hk

variable {order : List Nat}

/-- So does overwriting many. -/
theorem length_overwrite_stripes (hxs : xs.length = n * m) (hzs : zs.length = n * m)
    (hlt : ∀ k ∈ order, k < n) :
    (order.foldl (fun zs k => overwrite zs (m * k) (stripe m xs k)) zs).length = n * m := by
  induction order generalizing zs with
  | nil => exact hzs
  | cons k order ih =>
    have hk : k < n := hlt k (List.mem_cons_self ..)
    exact ih (length_overwrite_stripe hk hxs hzs) fun k' h => hlt k' (List.mem_cons_of_mem k h)

/-- The places of the stripes that have been written hold their elements. -/
theorem getElem?_overwrite_stripes (hxs : xs.length = n * m) (hzs : zs.length = n * m)
    (hlt : ∀ k ∈ order, k < n) {j : Nat} (hj : j < n * m) :
    (order.foldl (fun zs k => overwrite zs (m * k) (stripe m xs k)) zs)[j]?
      = if j / m ∈ order then xs[j]? else zs[j]? := by
  induction order generalizing zs with
  | nil => simp
  | cons k order ih =>
    have hk : k < n := hlt k (List.mem_cons_self ..)
    -- The first stripe is written, the others go on top of it.
    rw [List.foldl_cons, ih (length_overwrite_stripe hk hxs hzs)
        (fun k' h => hlt k' (List.mem_cons_of_mem _ h)),
      getElem?_overwrite_stripe hk hxs hzs hj]
    simp only [List.mem_cons]
    split <;> split <;> simp_all

/-- A list is written stripe by stripe, in whatever order. -/
theorem overwrite_stripes (hxs : xs.length = n * m) (hzs : zs.length = n * m)
    (horder : ∀ k, k ∈ order ↔ k < n) :
    order.foldl (fun zs k => overwrite zs (m * k) (stripe m xs k)) zs = xs := by
  have hlt : ∀ k ∈ order, k < n := fun k h => (horder k).mp h
  apply List.ext_getElem?
  intro j
  by_cases hj : j < n * m
  · -- Every place lies in a stripe, and every stripe is written.
    have hmem : j / m ∈ order := (horder _).mpr (Nat.div_lt_of_lt_mul (Nat.mul_comm n m ▸ hj))
    rw [getElem?_overwrite_stripes hxs hzs hlt hj, if_pos hmem]
  · rw [List.getElem?_eq_none, List.getElem?_eq_none]
    · omega
    · rw [length_overwrite_stripes hxs hzs hlt]
      omega

end Grid

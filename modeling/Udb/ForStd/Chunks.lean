import Mathlib

/-!
# Chunks

What `List.toChunks` does, piece by piece: a list is one chunk as long as it is
not longer than the size, and behind a full chunk it starts again.
-/

namespace Chunks

variable {α : Type*} {n : Nat} {a xs : List α} {x : α} {acc : Array α} {accs : Array (List α)}

/-- The chunks that are complete are in front of all others. -/
theorem go_eq_append (xs : List α) (acc : Array α) (accs : Array (List α)) :
    List.toChunks.go n xs acc accs = accs.toList ++ List.toChunks.go n xs acc #[] := by
  induction xs generalizing acc accs with
  | nil => simp [List.toChunks.go]
  | cons x xs ih =>
    rw [List.toChunks.go, List.toChunks.go]
    split
    · rw [ih, ih _ (#[].push _)]
      simp
    · rw [ih]

/-- What fits in the chunk that is open ends up in it. -/
theorem go_of_le (h : acc.size + xs.length ≤ n) :
    List.toChunks.go n xs acc #[] = [acc.toList ++ xs] := by
  induction xs generalizing acc with
  | nil => simp [List.toChunks.go]
  | cons x xs ih =>
    rw [List.length_cons] at h
    -- The chunk is not full, so `x` joins it.
    have hopen : ¬ (acc.size == n) = true := by
      rw [beq_iff_eq]
      omega
    rw [List.toChunks.go, if_neg hopen, ih (by rw [Array.size_push]; omega), Array.toList_push,
      List.append_assoc]
    rfl

/-- The element behind a full chunk opens the next one. -/
theorem go_append_cons (h : acc.size + a.length = n) :
    List.toChunks.go n (a ++ x :: xs) acc accs =
      List.toChunks.go n xs #[x] (accs.push (acc.toList ++ a)) := by
  induction a generalizing acc with
  | nil =>
    -- The chunk is full: `x` opens the next one.
    have hfull : (acc.size == n) = true := by
      rw [beq_iff_eq, ← h]
      rfl
    rw [List.nil_append, List.toChunks.go, if_pos hfull, List.append_nil]
    rfl
  | cons y a ih =>
    rw [List.length_cons] at h
    have hopen : ¬ (acc.size == n) = true := by
      rw [beq_iff_eq]
      omega
    rw [List.cons_append, List.toChunks.go, if_neg hopen,
      ih (by rw [Array.size_push]; omega), Array.toList_push, List.append_assoc]
    rfl

/-- The loop behind the function. -/
theorem toChunks_eq_go (h : 0 < n) : (x :: xs).toChunks n = List.toChunks.go n xs #[x] #[] := by
  cases n with
  | zero => cases h
  | succ n => rfl

/-- A list that is not longer than the size is one chunk. -/
theorem toChunks_of_le (hne : xs ≠ []) (h : xs.length ≤ n) : xs.toChunks n = [xs] := by
  cases xs with
  | nil => exact absurd rfl hne
  | cons x xs =>
    rw [List.length_cons] at h
    rw [toChunks_eq_go (by omega),
      go_of_le (by rw [List.size_toArray, List.length_singleton]; omega)]
    rfl

/-- A full chunk in front. -/
theorem toChunks_append (hn : 0 < n) (ha : a.length = n) :
    (a ++ xs).toChunks n = a :: xs.toChunks n := by
  cases xs with
  | nil =>
    have hne : a ≠ [] := List.ne_nil_of_length_pos (by omega)
    rw [List.append_nil, toChunks_of_le hne ha.le]
    rfl
  | cons x xs =>
    cases a with
    | nil => exact absurd ha hn.ne
    | cons y a =>
      rw [List.length_cons] at ha
      rw [List.cons_append, toChunks_eq_go hn, toChunks_eq_go hn,
        go_append_cons (by rw [List.size_toArray, List.length_singleton]; omega), go_eq_append]
      rfl

/-- No chunk is longer than the size. -/
theorem length_le_of_mem_toChunks (hn : 0 < n) (h : a ∈ xs.toChunks n) : a.length ≤ n := by
  -- Induction on the length of the list: behind a full chunk the rest is shorter.
  induction hk : xs.length using Nat.strong_induction_on generalizing xs with
  | _ k ih =>
    by_cases hle : xs.length ≤ n
    · by_cases hne : xs = []
      · rw [hne] at h
        cases h
      · rw [toChunks_of_le hne hle, List.mem_singleton] at h
        rwa [h]
    · have htake : (xs.take n).length = n := by
        rw [List.length_take]
        omega
      rw [← List.take_append_drop n xs, toChunks_append hn htake, List.mem_cons] at h
      rcases h with rfl | h
      · exact htake.le
      · exact ih _ (by rw [List.length_drop]; omega) h rfl

/-- The chunks of a list whose length is a multiple of the size. -/
theorem toChunks_eq_map {b : Nat} (hn : 0 < n) (h : xs.length = b * n) :
    xs.toChunks n = (List.range b).map fun y => (xs.drop (y * n)).take n := by
  induction b generalizing xs with
  | zero =>
    rw [Nat.zero_mul] at h
    rw [List.eq_nil_of_length_eq_zero h]
    rfl
  | succ b ih =>
    rw [Nat.succ_mul] at h
    -- The first chunk, and what is left for the others.
    have htake : (xs.take n).length = n := by
      rw [List.length_take]
      omega
    have hdrop : (xs.drop n).length = b * n := by
      rw [List.length_drop]
      omega
    have hrest := ih hdrop
    conv_lhs => rw [← List.take_append_drop n xs]
    rw [toChunks_append hn htake, hrest, List.range_succ_eq_map, List.map_cons, List.map_map]
    congr 1
    · simp
    · apply List.map_congr_left
      intro y _
      -- Chunk `y` of the rest is chunk `y + 1` of the whole.
      rw [Function.comp_apply, List.drop_drop, Nat.succ_mul, Nat.add_comm]

/-- Full chunks are as many as fit. -/
theorem length_toChunks {b : Nat} (hn : 0 < n) (h : xs.length = b * n) :
    (xs.toChunks n).length = b := by
  rw [toChunks_eq_map hn h, List.length_map, List.length_range]

/-- Each of them is full. -/
theorem length_of_mem_toChunks {b : Nat} (hn : 0 < n) (h : xs.length = b * n)
    (ha : a ∈ xs.toChunks n) : a.length = n := by
  rw [toChunks_eq_map hn h] at ha
  obtain ⟨y, hy, rfl⟩ := List.mem_map.mp ha
  have hrow : (y + 1) * n ≤ b * n := Nat.mul_le_mul_right n (List.mem_range.mp hy)
  rw [Nat.succ_mul] at hrow
  rw [List.length_take, List.length_drop, h]
  omega

end Chunks

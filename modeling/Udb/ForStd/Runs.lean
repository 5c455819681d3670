import Mathlib

/-!
# Runs between separators

`runs d l` cuts a list at every `d` and keeps the pieces that are not empty: the
maximal non-empty runs of other elements, in order. A tokenizer that skips
separators in front of a token and stops at the next one finds them one by one.

## Key results

- `runs_append_cons`: the first run and what is behind the separator that ends it
- `length_runs_eq_iff`: when there is a run at every place there could be one
-/

namespace Runs

variable {α : Type} [DecidableEq α] {d : α} {l t rest : List α}

/-- The maximal non-empty runs of elements other than `d`. -/
def runs (d : α) (l : List α) : List (List α) := (l.splitOn d).filter (· ≠ [])

@[simp] theorem runs_nil : runs d ([] : List α) = [] := rfl

/-- A separator ends what is in front of it, wherever it stands. -/
theorem runs_append_sep (l rest : List α) :
    runs d (l ++ d :: rest) = runs d l ++ runs d rest := by
  unfold runs
  rw [List.splitOn_append_cons_self, List.filter_append]

/-- A list without separators is one run, or none. -/
theorem runs_of_not_mem (h : d ∉ l) : runs d l = if l = [] then [] else [l] := by
  unfold runs
  rw [List.splitOn_eq_singleton h]
  by_cases hnil : l = []
  · simp [hnil]
  · simp [hnil]

/-- A separator in front is skipped. -/
@[simp] theorem runs_cons_self : runs d (d :: l) = runs d l := by
  have h := runs_append_sep (d := d) [] l
  rwa [List.nil_append, runs_nil, List.nil_append] at h

/-- Delimiters in front are skipped. -/
theorem runs_append_of_forall {skip : List α} (h : ∀ x ∈ skip, x = d) (l : List α) :
    runs d (skip ++ l) = runs d l := by
  induction skip with
  | nil => rfl
  | cons x skip ih =>
    obtain rfl := h x List.mem_cons_self
    rw [List.cons_append, runs_cons_self]
    exact ih fun y hy => h y (List.mem_cons_of_mem _ hy)

/-- They can be dropped first. -/
theorem runs_dropWhile : runs d (l.dropWhile (· = d)) = runs d l := by
  have hskip : ∀ x ∈ l.takeWhile (· = d), x = d := by
    intro x hx
    simpa using List.mem_takeWhile_imp hx
  conv_rhs => rw [← List.takeWhile_append_dropWhile (p := (· = d)) (l := l)]
  rw [runs_append_of_forall hskip]

/-- The first run ends at a separator. -/
theorem runs_append_cons (ht : t ≠ []) (hd : d ∉ t) :
    runs d (t ++ d :: rest) = t :: runs d rest := by
  rw [runs_append_sep, runs_of_not_mem hd, if_neg ht, List.singleton_append]

/-- Only separators have no run. -/
theorem runs_eq_nil_iff : runs d l = [] ↔ ∀ x ∈ l, x = d := by
  induction l with
  | nil => simp
  | cons x l ih =>
    by_cases hx : x = d
    · subst hx
      rw [runs_cons_self, ih]
      simp
    · refine iff_of_false (fun h => ?_) fun h => hx (h x List.mem_cons_self)
      unfold runs at h
      rw [List.splitOn_cons_eq_if_modifyHead, if_neg (by simpa using hx)] at h
      cases hl : l.splitOn d with
      | nil => exact List.splitOn_ne_nil d l hl
      | cons p ps =>
        rw [hl, List.modifyHead_cons, List.filter_cons_of_pos (by simp)] at h
        cases h

/-! ## How many -/

/-- A delimiter stands between two pieces. -/
theorem length_splitOn : (l.splitOn d).length = l.count d + 1 := by
  induction l with
  | nil => simp
  | cons x l ih =>
    rw [List.splitOn_cons_eq_if_modifyHead]
    by_cases hx : x = d
    · subst hx
      simp [ih]
    · simp [hx, ih]

/-- There are no more runs than pieces. -/
theorem length_runs_le : (runs d l).length ≤ l.count d + 1 := by
  rw [← length_splitOn]
  exact List.length_filter_le _ _

/-- There is a run at every place there could be one exactly when no piece is empty. -/
theorem length_runs_eq_iff :
    (runs d l).length = l.count d + 1 ↔ ∀ p ∈ l.splitOn d, p ≠ [] := by
  rw [← length_splitOn, runs, List.length_filter_eq_length_iff]
  simp

end Runs

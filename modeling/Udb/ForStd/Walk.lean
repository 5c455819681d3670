import Mathlib

/-!
# Loops that pass over elements

A loop reads a list from front to back. Some elements are skipped before its body,
some are looked at and change nothing that matters, and its body may break off.

`Sim` relates such a loop to a `walk` over the elements that matter: a view of the
loop's variables takes the same steps. `counted` is what the loop numbers.

## Key results

- `Sim.loop`: the loop ends with the view that the walk ends with
- `Sim.counted`: the loop numbers the elements that the walk reaches
-/

namespace Walk

variable {σ τ α ε : Type}

/-! ## The loop and its walk -/

/-- The loop. A turn says whether it breaks off. -/
def loop (skip : α → Bool) (turn : σ → α → Except ε (σ × Bool)) : σ → List α → Except ε σ
  | st, [] => pure st
  | st, a :: l =>
    if skip a then loop skip turn st l
    else do
      let (st', stop) ← turn st a
      if stop then pure st' else loop skip turn st' l

/-- The number of an element at which the counter moves. -/
def number (count : σ → Nat) (st st' : σ) (a : α) : List (Nat × α) :=
  if count st' = count st then [] else [(count st', a)]

/-- The elements at which the loop moves its counter, with the number they get. -/
def counted (skip : α → Bool) (turn : σ → α → Except ε (σ × Bool)) (count : σ → Nat) :
    σ → List α → Except ε (List (Nat × α))
  | _, [] => pure []
  | st, a :: l =>
    if skip a then counted skip turn count st l
    else do
      let (st', stop) ← turn st a
      if stop then pure (number count st st' a)
      else do
        let rest ← counted skip turn count st' l
        pure (number count st st' a ++ rest)

/-- The same over a list in which every element matters. -/
def walk (f : τ → α → τ × Bool) : τ → List α → τ
  | t, [] => t
  | t, a :: l => if (f t a).2 then (f t a).1 else walk f (f t a).1 l

/-- The elements that the walk reaches: it breaks off behind the last of them. -/
def reached (f : τ → α → τ × Bool) : τ → List α → List α
  | _, [] => []
  | t, a :: l => if (f t a).2 then [a] else a :: reached f (f t a).1 l

/-- The elements of the list that are neither skipped nor passed over. -/
def matter (skip dev : α → Bool) (l : List α) : List α := l.filter fun a => !skip a && dev a

/-- At the elements in `on`, a turn does to the view what the walk does, or nothing where the
    element does not matter. -/
structure Sim (on : α → Prop) (turn : σ → α → Except ε (σ × Bool)) (dev : α → Bool)
    (view : σ → τ) (f : τ → α → τ × Bool) : Prop where
  pass : ∀ st a, on a → dev a = false → ∃ st', turn st a = .ok (st', false) ∧ view st' = view st
  take : ∀ st a, on a → dev a = true →
    ∃ st', turn st a = .ok (st', (f (view st) a).2) ∧ view st' = (f (view st) a).1

section Sim

variable {on : α → Prop} {skip dev : α → Bool} {turn : σ → α → Except ε (σ × Bool)}
variable {view : σ → τ} {f : τ → α → τ × Bool}

/-- The loop ends with the view that the walk ends with. -/
theorem Sim.loop (h : Sim on turn dev view f) (skip : α → Bool) (st : σ) (l : List α)
    (hon : ∀ a ∈ l, skip a = false → on a) :
    ∃ st', loop skip turn st l = .ok st' ∧
      view st' = walk f (view st) (matter skip dev l) := by
  -- Induction on the list, with the loop's variables generalised: an element that does not
  -- matter may change them, but not the view.
  induction l generalizing st with
  | nil => exact ⟨st, rfl, rfl⟩
  | cons a l ih =>
    have htail : ∀ b ∈ l, skip b = false → on b := fun b hb => hon b (List.mem_cons_of_mem a hb)
    unfold Walk.loop matter
    by_cases hskip : skip a = true
    · rw [if_pos hskip, List.filter_cons_of_neg (by simp [hskip])]
      exact ih st htail
    · have hon' : on a := hon a List.mem_cons_self (by simpa using hskip)
      rw [if_neg hskip]
      by_cases hdev : dev a = true
      · obtain ⟨st', hturn, hview⟩ := h.take st a hon' hdev
        rw [hturn, List.filter_cons_of_pos (by simp [hskip, hdev]), walk]
        show ∃ st'', (if (f (view st) a).2 then Except.ok st' else Walk.loop skip turn st' l) =
          .ok st'' ∧ _
        split
        · exact ⟨st', rfl, hview⟩
        · rw [← hview]
          exact ih st' htail
      · obtain ⟨st', hturn, hview⟩ := h.pass st a hon' (by simpa using hdev)
        rw [hturn, List.filter_cons_of_neg (by simp [hdev]), ← hview]
        exact ih st' htail

/-- A loop that counts what matters numbers the elements that the walk reaches. -/
theorem Sim.counted (h : Sim on turn dev view f) (count : τ → Nat)
    (hcount : ∀ t a, count (f t a).1 = count t + 1) (skip : α → Bool) (st : σ) (l : List α)
    (hon : ∀ a ∈ l, skip a = false → on a) :
    counted skip turn (fun st => count (view st)) st l =
      .ok ((((reached f (view st) (matter skip dev l)).zipIdx (count (view st) + 1)).map
        Prod.swap)) := by
  induction l generalizing st with
  | nil => rfl
  | cons a l ih =>
    have htail : ∀ b ∈ l, skip b = false → on b := fun b hb => hon b (List.mem_cons_of_mem a hb)
    unfold Walk.counted matter
    by_cases hskip : skip a = true
    · rw [if_pos hskip, List.filter_cons_of_neg (by simp [hskip])]
      exact ih st htail
    · have hon' : on a := hon a List.mem_cons_self (by simpa using hskip)
      rw [if_neg hskip]
      by_cases hdev : dev a = true
      · -- The counter moves, so the element is numbered.
        obtain ⟨st', hturn, hview⟩ := h.take st a hon' hdev
        have hcount' : count (view st') = count (view st) + 1 := by rw [hview, hcount]
        have hnumber : number (fun st => count (view st)) st st' a =
            [(count (view st) + 1, a)] := by
          rw [number, hcount', if_neg (by omega)]
        rw [hturn, List.filter_cons_of_pos (by simp [hskip, hdev]), reached, ← hview]
        show (if (f (view st) a).2 then pure (number _ st st' a)
          else Walk.counted skip turn _ st' l >>= fun rest => pure (number _ st st' a ++ rest)) = _
        rw [hnumber]
        split
        · rfl
        · rw [ih st' htail, hcount', List.zipIdx_cons, List.map_cons]
          rfl
      · -- The view is the same, and the counter is part of it.
        obtain ⟨st', hturn, hview⟩ := h.pass st a hon' (by simpa using hdev)
        have hnumber : number (fun st => count (view st)) st st' a = [] := by
          rw [number, hview, if_pos rfl]
        rw [hturn, List.filter_cons_of_neg (by simp [hdev]), ← hview]
        show (Walk.counted skip turn _ st' l >>= fun rest => pure (number _ st st' a ++ rest)) = _
        rw [hnumber, ih st' htail]
        rfl

end Sim

/-! ## Walks -/

section Walks

variable {f : τ → α → τ × Bool} {count : τ → Nat}

/-- A walk is a fold over what it reaches. -/
theorem walk_eq_foldl (f : τ → α → τ × Bool) (t : τ) (l : List α) :
    walk f t l = (reached f t l).foldl (fun t a => (f t a).1) t := by
  induction l generalizing t with
  | nil => rfl
  | cons a l ih =>
    rw [walk, reached]
    split
    · rfl
    · rw [List.foldl_cons, ih]

/-- Every element is counted. -/
theorem count_foldl (hcount : ∀ t a, count (f t a).1 = count t + 1) (t : τ) (l : List α) :
    count (l.foldl (fun t a => (f t a).1) t) = count t + l.length := by
  induction l generalizing t with
  | nil => rfl
  | cons a l ih =>
    rw [List.foldl_cons, ih, hcount, List.length_cons]
    omega

/-- The counter tells how many elements have been reached. -/
theorem count_walk (hcount : ∀ t a, count (f t a).1 = count t + 1) (t : τ) (l : List α) :
    count (walk f t l) = count t + (reached f t l).length := by
  rw [walk_eq_foldl, count_foldl hcount]

/-- What a walk reaches is the start of the list. -/
theorem reached_isStart (f : τ → α → τ × Bool) (t : τ) (l : List α) : reached f t l <+: l := by
  induction l generalizing t with
  | nil => exact List.nil_prefix
  | cons a l ih =>
    rw [reached]
    split
    · exact List.singleton_prefix_cons_iff.mpr rfl
    · exact (List.prefix_cons_inj a).mpr (ih _)

/-- A walk that never breaks off reaches every element. -/
theorem reached_of_forall (hstop : ∀ t a, (f t a).2 = false) (t : τ) (l : List α) :
    reached f t l = l := by
  induction l generalizing t with
  | nil => rfl
  | cons a l ih => rw [reached, if_neg (by simp [hstop]), ih]

/-- A walk that breaks off at an element of some kind reaches the first of them. -/
theorem reached_of_elem {p : α → Bool} {l : List α} (hstop : ∀ t, ∀ a ∈ l, (f t a).2 = p a)
    (t : τ) : reached f t l = l.take (l.findIdx p + 1) := by
  induction l generalizing t with
  | nil => rfl
  | cons a l ih =>
    rw [reached, hstop t a List.mem_cons_self, List.findIdx_cons]
    cases p a with
    | true => rfl
    | false =>
      rw [if_neg Bool.false_ne_true, ih fun t b hb => hstop t b (List.mem_cons_of_mem _ hb)]
      rfl

/-- A walk that breaks off at the element with number `k` reaches that many. -/
theorem reached_of_count {k : Nat} (hcount : ∀ t a, count (f t a).1 = count t + 1)
    (hstop : ∀ t a, (f t a).2 = decide (count t + 1 = k)) {t : τ} (hk : count t < k)
    (l : List α) : reached f t l = l.take (k - count t) := by
  induction l generalizing t with
  | nil => rw [List.take_nil]; rfl
  | cons a l ih =>
    obtain ⟨j, hj⟩ : ∃ j, k - count t = j + 1 := ⟨k - count t - 1, by omega⟩
    rw [reached, hstop, hj, List.take_succ_cons]
    by_cases hlast : count t + 1 = k
    · -- This is the `k`-th one, and the walk stops.
      have hzero : j = 0 := by omega
      rw [if_pos (by simpa using hlast), hzero, List.take_zero]
    · -- One fewer is left to go.
      have hj' : k - count (f t a).1 = j := by
        rw [hcount]
        omega
      rw [if_neg (by simpa using hlast), ih (by rw [hcount]; omega), hj']

/-- The last step of such a walk is the one at that element. -/
theorem walk_of_count {k : Nat} (hcount : ∀ t a, count (f t a).1 = count t + 1)
    (hstop : ∀ t a, (f t a).2 = decide (count t + 1 = k)) {t : τ} {l : List α} {i : Nat}
    (hi : i < l.length) (hk : count t + (i + 1) = k) :
    ∃ t', count t' + 1 = k ∧ walk f t l = (f t' l[i]).1 := by
  refine ⟨(l.take i).foldl (fun t a => (f t a).1) t, ?_, ?_⟩
  · rw [count_foldl hcount, List.length_take]
    omega
  · have hlen : k - count t = i + 1 := by omega
    rw [walk_eq_foldl, reached_of_count hcount hstop (by omega), hlen,
      List.take_succ_eq_append_getElem hi, List.foldl_concat]

end Walks

end Walk

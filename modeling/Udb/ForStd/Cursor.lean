import Mathlib

/-!
# A stream read by request

The abstract counterpart of a content that is handed out in pieces: the state is
what is still to come, and a request names how many elements it wants. A request
that asks for more than is left gets nothing and changes nothing.
-/

namespace Cursor

variable {α : Type*}

/-- A request for `c` elements: what it gets, and what is left. -/
def pull (rest : List α) (c : Nat) : List α × List α :=
  if rest.length < c then ([], rest) else (rest.take c, rest.drop c)

/-- The pieces that a sequence of requests gets, and what is left after them. -/
def pulls (rest : List α) : List Nat → List (List α) × List α
  | [] => ([], rest)
  | c :: cs =>
    let (got, rest') := pull rest c
    let (gots, rest'') := pulls rest' cs
    (got :: gots, rest'')

/-- What is there is handed out. -/
theorem pull_of_le {rest : List α} {c : Nat} (h : c ≤ rest.length) :
    pull rest c = (rest.take c, rest.drop c) := if_neg (by omega)

/-- More is refused. -/
theorem pull_of_lt {rest : List α} {c : Nat} (h : rest.length < c) :
    pull rest c = ([], rest) := if_pos h

/-- Nothing is skipped, repeated or reordered by one request. -/
theorem pull_append (rest : List α) (c : Nat) : (pull rest c).1 ++ (pull rest c).2 = rest := by
  unfold pull
  split <;> simp

/-- Nothing is skipped, repeated or reordered by any sequence of requests. -/
theorem pulls_flatten_append (rest : List α) (cs : List Nat) :
    (pulls rest cs).1.flatten ++ (pulls rest cs).2 = rest := by
  induction cs generalizing rest with
  | nil => rfl
  | cons c cs ih =>
    simp only [pulls, List.flatten_cons, List.append_assoc]
    rw [ih, pull_append]

end Cursor

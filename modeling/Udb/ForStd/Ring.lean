import Mathlib

/-!
# Ring storage

Storage of a fixed size that is overwritten from its oldest element on. Read from
the write position to the end and then from the start, it shows its content in
the order it was written; `unroll` is that view. Writing advances the view by as
many elements as were written, whether or not the write passes the end.

The write position may stand at the end of the storage instead of at its start.
-/

namespace Ring

variable {α : Type*}

/-- The content of the storage `mem`, oldest first, when `head` is the write position. -/
def unroll (mem : List α) (head : Nat) : List α := mem.drop head ++ mem.take head

/-- A write that does not pass the end. -/
theorem unroll_write {mem xs : List α} {head : Nat} (h : head + xs.length ≤ mem.length) :
    unroll (mem.take head ++ xs ++ mem.drop (head + xs.length)) (head + xs.length) =
      (unroll mem head ++ xs).drop xs.length := by
  have hlen : (mem.take head ++ xs).length = head + xs.length := by
    rw [List.length_append, List.length_take, Nat.min_eq_left (by omega)]
  rw [unroll, unroll, List.drop_left' hlen, List.take_left' hlen, List.append_assoc,
    List.drop_append_of_le_length (by simp; omega), List.drop_drop]

/-- A write that passes the end: its first part fills the storage up, the rest goes to
    the start. -/
theorem unroll_write_wrap (mem xs : List α) {head : Nat} (hh : head ≤ mem.length)
    (hw : mem.length - head < xs.length) (hxs : xs.length ≤ mem.length) :
    unroll (xs.drop (mem.length - head) ++
        (mem.take head ++ xs.take (mem.length - head)).drop (xs.length - (mem.length - head)))
      (xs.length - (mem.length - head)) =
      (unroll mem head ++ xs).drop xs.length := by
  have hlen : (xs.drop (mem.length - head)).length = xs.length - (mem.length - head) := by simp
  have htail : (mem.drop head).length = mem.length - head := by simp
  -- What is lost is the tail of the storage and the first elements after its start.
  rw [unroll, unroll, List.drop_left' hlen, List.take_left' hlen,
    List.drop_append_of_le_length (by simp; omega), List.append_assoc, List.append_assoc,
    List.take_append_drop,
    show xs.length = (mem.drop head).length + (xs.length - (mem.length - head)) by
      rw [htail]; omega]
  rw [← List.drop_drop, List.drop_left, htail,
    show mem.length - head + (xs.length - (mem.length - head)) - (mem.length - head) =
      xs.length - (mem.length - head) by omega,
    List.drop_append_of_le_length (by simp; omega)]

/-! ## Windows -/

section Window

variable {mem : List α} {head o c : Nat}

/-- A window of the content that starts in front of the end. -/
theorem drop_unroll (h : head + o ≤ mem.length) :
    (unroll mem head).drop o = mem.drop (head + o) ++ mem.take head := by
  rw [unroll, List.drop_append_of_le_length (by rw [List.length_drop]; omega), List.drop_drop]

/-- A window up to the end at most is one stretch of the storage. -/
theorem take_drop_unroll_of_le (h : head + o + c ≤ mem.length) :
    ((unroll mem head).drop o).take c = (mem.drop (head + o)).take c := by
  rw [drop_unroll (by omega), List.take_append_of_le_length (by rw [List.length_drop]; omega)]

/-- A window past the end is the rest of the storage and a stretch from its start on. -/
theorem take_drop_unroll_wrap (ho : head + o ≤ mem.length) (hc : mem.length ≤ head + o + c)
    (hfit : o + c ≤ mem.length) :
    ((unroll mem head).drop o).take c =
      mem.drop (head + o) ++ mem.take (c - (mem.length - (head + o))) := by
  have hlen : (mem.drop (head + o)).length = mem.length - (head + o) := List.length_drop
  rw [drop_unroll ho, List.take_append, hlen, List.take_of_length_le (by omega), List.take_take,
    Nat.min_eq_left (by omega)]

end Window

/-- Appending to a stream of which the newest `n` elements are kept. -/
theorem rtake_append_of_le {l xs : List α} {n : Nat} (hn : n ≤ l.length) :
    (l ++ xs).rtake n = (l.rtake n ++ xs).drop xs.length := by
  unfold List.rtake
  rw [List.length_append, ← List.drop_append_of_le_length (by omega : l.length - n ≤ l.length),
    List.drop_drop]
  congr 1
  omega

end Ring

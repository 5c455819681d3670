import Mathlib

/-!
# Words, bit by bit

The bits of a number from the most significant one on, as a loop sees them that
tests them with a mask shifted to the right, and as a loop puts them together that
shifts to the left.

## Key results

- `foldl_msb`: putting the bits of a word together again gives the word
- `msb_not`: the bits of the complement
- `and_mask_ne_zero`: testing a bit with a mask
-/

namespace Word

/-- The last `n` bits of `w`, the most significant one first. -/
def msb : (n : Nat) → (w : Nat) → List Bool
  | 0, _ => []
  | n + 1, w => w.testBit n :: msb n w

/-- One more bit at the end of a word. -/
def push (bits : UInt32) (b : Bool) : UInt32 := if b then bits <<< 1 ||| 1 else bits <<< 1

variable {n w : Nat} {p : UInt32}

@[simp] theorem length_msb (n w : Nat) : (msb n w).length = n := by
  induction n with
  | zero => rfl
  | succ n ih => rw [msb, List.length_cons, ih]

/-- The bits from the highest on. -/
theorem msb_eq_map (n w : Nat) :
    msb n w = (List.range n).map fun k => w.testBit (n - 1 - k) := by
  induction n with
  | zero => rfl
  | succ n ih =>
    rw [msb, ih, List.range_succ_eq_map, List.map_cons, List.map_map]
    congr 1
    apply List.map_congr_left
    -- Bit `k` of the shorter word is bit `k + 1` of the longer one.
    intro k _
    simp only [Function.comp_apply]
    congr 1
    omega

/-- The bits of zero. -/
theorem msb_zero (n : Nat) : msb n 0 = List.replicate n false := by
  induction n with
  | zero => rfl
  | succ n ih => rw [msb, ih, Nat.zero_testBit, List.replicate_succ]

/-- Pushing a bit doubles the word. -/
theorem toNat_push (bits : UInt32) (b : Bool) :
    (push bits b).toNat = (2 * bits.toNat + b.toNat) % 2 ^ 32 := by
  have hshift : (bits <<< 1).toNat = 2 * bits.toNat % 2 ^ 32 := by
    rw [UInt32.toNat_shiftLeft, Nat.shiftLeft_eq, Nat.mul_comm]
    rfl
  unfold push
  cases b with
  | false => simpa using hshift
  | true =>
    rw [if_pos rfl, UInt32.toNat_or, hshift]
    -- The shifted word is even, so the new bit is added.
    obtain ⟨k, hk⟩ : ∃ k, 2 * bits.toNat % 2 ^ 32 = 2 ^ 1 * k :=
      ⟨bits.toNat % 2 ^ 31, by omega⟩
    have hor : 2 ^ 1 * k ||| 1 = 2 ^ 1 * k + 1 := (Nat.two_pow_add_eq_or_of_lt (by decide) k).symm
    show 2 * bits.toNat % 2 ^ 32 ||| 1 = _
    rw [hk, hor, Bool.toNat_true]
    omega

/-- Pushing the bits of a number shifts it in. -/
theorem toNat_foldl_push (w n : Nat) (bits : UInt32) :
    ((msb n w).foldl push bits).toNat = (bits.toNat * 2 ^ n + w % 2 ^ n) % 2 ^ 32 := by
  induction n generalizing bits with
  | zero =>
    rw [msb, List.foldl_nil, pow_zero, Nat.mod_one, Nat.mul_one, Nat.add_zero,
      Nat.mod_eq_of_lt bits.toNat_lt]
  | succ n ih =>
    -- The top bit and the bits below it.
    have hbit : w % 2 ^ (n + 1) = w % 2 ^ n + 2 ^ n * (w.testBit n).toNat := by
      rw [Nat.mod_pow_succ, Nat.toNat_testBit]
    rw [msb, List.foldl_cons, ih, toNat_push, hbit, pow_succ]
    rw [Nat.add_mod, Nat.mul_mod, Nat.mod_mod, ← Nat.mul_mod, ← Nat.add_mod]
    congr 1
    ring

/-- A word is put together from its bits. -/
theorem foldl_msb (p : UInt32) : (msb 32 p.toNat).foldl push 0 = p := by
  apply UInt32.toNat_inj.mp
  rw [toNat_foldl_push, UInt32.toNat_zero, Nat.zero_mul, Nat.zero_add, Nat.mod_mod,
    Nat.mod_eq_of_lt p.toNat_lt]

/-- The bits of the complement. -/
theorem msb_not (p : UInt32) : msb 32 (~~~p).toNat = (msb 32 p.toNat).map (! ·) := by
  rw [msb_eq_map, msb_eq_map, List.map_map]
  apply List.map_congr_left
  intro k hk
  have hlt : 32 - 1 - k < 32 := by omega
  -- The complement of a word is what is left to `2 ^ 32 - 1`.
  have hnot : (~~~p).toNat = 2 ^ 32 - (p.toNat + 1) := by
    rw [UInt32.toNat_not]
    show 2 ^ 32 - 1 - p.toNat = _
    omega
  rw [hnot, Nat.testBit_two_pow_sub_succ p.toNat_lt]
  simp [hlt]

/-- A mask with one bit tests that bit. -/
theorem and_mask_ne_zero {mask : UInt32} (hmask : mask.toNat = 2 ^ n) :
    p &&& mask ≠ 0 ↔ p.toNat.testBit n = true := by
  rw [ne_eq, ← UInt32.toNat_inj, UInt32.toNat_and, hmask, UInt32.toNat_zero,
    Nat.and_two_pow]
  cases p.toNat.testBit n <;> simp

end Word

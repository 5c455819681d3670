import Udb.ForStd.Utf8
import Udb.Native.PrintImg

/-!
# Characters of the image

`emitCodepoint` writes a code point as UTF-8 by hand. Its limits are one too low,
so the last code point of each form goes into the next longer one, and the last
one of all is refused. `emitForm` is the form that it picks.

## Key results

- `emitCodepoint_eq_seq`: what is printed is a sequence of the form picked
- `printsUtf8_iff`: it is the right one for all code points but three
-/

namespace Udb.Spec

open CMem Udb.Native Utf8

variable {n : Nat}

/-! ## What is printed -/

/-- The form that `emitCodepoint` picks. -/
def emitForm (n : Nat) : Form :=
  if n < 128 then .one else if n < 0x7ff then .two else if n < 0xffff then .three else .four

/-- The mark of a byte and the bits behind it do not overlap. -/
private theorem or_mark {i a b : Nat} (hb : b < 2 ^ i) : 2 ^ i * a ||| b = 2 ^ i * a + b :=
  (Nat.two_pow_add_eq_or_of_lt hb a).symm

/-- A continuation byte is a sum. -/
private theorem or_tail (n : Nat) : UInt8.ofNat (0x80 ||| (n &&& 0x3f)) = tail n := by
  have hand : n &&& 0x3f = n % 64 := Nat.and_two_pow_sub_one_eq_mod n 6
  have hor : 0x80 ||| n % 64 = 0x80 + n % 64 := @or_mark 6 2 (n % 64) (Nat.mod_lt n (by decide))
  rw [hand, hor, tail]

/-- A codepoint in the range is printed in its form. -/
theorem emitCodepoint_eq_seq (hn : n < 0x10ffff) : emitCodepoint n = (emitForm n).seq n := by
  unfold emitCodepoint emitForm
  split
  · -- One byte.
    rfl
  · split
    · -- Two bytes.
      have hlead : 0xc0 ||| n >>> 6 = 0xc0 + n / 64 := by
        rw [Nat.shiftRight_eq_div_pow]
        exact @or_mark 5 6 (n / 64) (by omega)
      rw [hlead, or_tail]
      rfl
    · split
      · -- Three.
        have hlead : 0xe0 ||| n >>> 12 = 0xe0 + n / 4096 := by
          rw [Nat.shiftRight_eq_div_pow]
          exact @or_mark 4 14 (n / 4096) (by omega)
        rw [hlead, or_tail, or_tail, Nat.shiftRight_eq_div_pow]
        rfl
      · -- Four.
        have hlead : 0xf0 ||| n >>> 18 = 0xf0 + n / 262144 := by
          rw [Nat.shiftRight_eq_div_pow]
          exact @or_mark 3 30 (n / 262144) (by omega)
        rw [hlead, or_tail, or_tail, or_tail, Nat.shiftRight_eq_div_pow,
          Nat.shiftRight_eq_div_pow]
        rfl

/-- Behind the range a message is printed. -/
private theorem emitCodepoint_of_le (hn : 0x10ffff ≤ n) :
    emitCodepoint n = ascii "codepoint ERROR\n" := by
  unfold emitCodepoint
  rw [if_neg (by omega), if_neg (by omega), if_neg (by omega), if_neg (by omega)]

/-- The form picked has room. -/
private theorem lt_cap_emitForm (hn : n < 0x10ffff) : n < (emitForm n).cap := by
  unfold emitForm
  split
  · assumption
  · split
    · simp only [Form.cap]; omega
    · split
      · simp only [Form.cap]; omega
      · simp only [Form.cap]; omega

/-- What is printed in the range is UTF-8 for the codepoint. -/
private theorem carries_emitCodepoint (hn : n < 0x10ffff) : Carries (emitCodepoint n) n :=
  ⟨emitForm n, lt_cap_emitForm hn, emitCodepoint_eq_seq hn⟩

/-- The message is not a sequence of any form. -/
private theorem not_carries_message (n : Nat) : ¬ Carries (ascii "codepoint ERROR\n") n := by
  intro h
  obtain ⟨f, -, heq⟩ := h
  have hlen := congrArg List.length heq
  rw [length_seq] at hlen
  cases f <;> exact absurd hlen (by decide)

/-! ## When it is right -/

/-- Only the last code point of a form gets too long a sequence. -/
theorem emitForm_eq_of (h₁ : n ≠ 0x7ff) (h₂ : n ≠ 0xffff) : emitForm n = Form.of n := by
  unfold emitForm Form.of
  by_cases hone : n < 128
  · rw [if_pos hone, if_pos (by omega : n ≤ 0x7f)]
  rw [if_neg hone, if_neg (by omega : ¬ n ≤ 0x7f)]
  -- The source compares with `<` where the form that is long enough asks for `≤`.
  by_cases htwo : n < 0x7ff
  · rw [if_pos htwo, if_pos (by omega : n ≤ 0x7ff)]
  rw [if_neg htwo, if_neg (by omega : ¬ n ≤ 0x7ff)]
  by_cases hthree : n < 0xffff
  · rw [if_pos hthree, if_pos (by omega : n ≤ 0xffff)]
  rw [if_neg hthree, if_neg (by omega : ¬ n ≤ 0xffff)]

/-- What is printed for `c` is its shortest sequence, a conforming decoder reads `c` from it, and
    nothing else is printed so. -/
structure PrintsUtf8 (c : Char) : Prop where
  shortest : IsShortest (emitCodepoint c.toNat) c.toNat
  decode : (emitCodepoint c.toNat).toByteArray.utf8DecodeChar? 0 = some c
  inj : ∀ d : Char, emitCodepoint d.toNat = emitCodepoint c.toNat → d = c

/-- Two code points never coincide, not even where the sequence is too long. -/
private theorem emitCodepoint_inj {c d : Char} (h : emitCodepoint d.toNat = emitCodepoint c.toNat) :
    d = c := by
  have hc := Utf8.toNat_lt c
  have hd := Utf8.toNat_lt d
  suffices heq : d.toNat = c.toNat from Char.toNat_inj.mp heq
  by_cases hlast : c.toNat < 0x10ffff
  · -- Both have a sequence of their own, unless they are the last code point.
    have hcarries := carries_emitCodepoint hlast
    by_cases hdlast : d.toNat < 0x10ffff
    · exact (h ▸ carries_emitCodepoint hdlast).inj hcarries
    · rw [← h, emitCodepoint_of_le (by omega)] at hcarries
      exact absurd hcarries (not_carries_message _)
  · by_cases hdlast : d.toNat < 0x10ffff
    · have hcarries := carries_emitCodepoint hdlast
      rw [h, emitCodepoint_of_le (by omega)] at hcarries
      exact absurd hcarries (not_carries_message _)
    · omega

/-- The output is UTF-8 for every code point but the three at which a limit is one too low. -/
theorem printsUtf8_iff (c : Char) :
    PrintsUtf8 c ↔ c.toNat ≠ 0x7ff ∧ c.toNat ≠ 0xffff ∧ c.toNat ≠ 0x10ffff := by
  have hc := Utf8.toNat_lt c
  constructor
  · intro h
    have hshort := h.shortest
    by_cases hlast : c.toNat < 0x10ffff
    · rw [emitCodepoint_eq_seq hlast, isShortest_seq_iff (lt_cap_emitForm hlast)] at hshort
      -- At the two code points that the comparisons miss, a shorter form has room.
      refine ⟨fun heq => ?_, fun heq => ?_, by omega⟩
      · rw [heq] at hshort
        exact absurd (hshort .two (by decide)) (by decide)
      · rw [heq] at hshort
        exact absurd (hshort .three (by decide)) (by decide)
    · -- For the last code point a message is printed.
      rw [emitCodepoint_of_le (by omega)] at hshort
      exact absurd hshort.1 (not_carries_message _)
  · intro h
    obtain ⟨h₁, h₂, h₃⟩ := h
    -- Everywhere else the form is the shortest, so it is that of UTF-8.
    have hlast : c.toNat < 0x10ffff := by omega
    have hshort : IsShortest (emitCodepoint c.toNat) c.toNat := by
      rw [emitCodepoint_eq_seq hlast, emitForm_eq_of h₁ h₂, ← utf8EncodeChar_eq_seq]
      exact isShortest_utf8EncodeChar c
    exact ⟨hshort, hshort.decode, fun d h => emitCodepoint_inj h⟩

/-- U+07FF is printed in three bytes. -/
theorem not_printsUtf8 : ¬ ∀ c : Char, PrintsUtf8 c := by
  intro hall
  exact ((printsUtf8_iff (Char.ofNat 0x7ff)).mp (hall _)).1 (by decide)

end Udb.Spec

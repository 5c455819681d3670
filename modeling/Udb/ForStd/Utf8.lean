import Mathlib

/-!
# UTF-8 sequences

UTF-8 has four forms of sequences, of one to four bytes, each with room for a
number of bits. A number that fits in a form fits in all longer ones too; the
sequences longer than the shortest one are the overlong ones, which a conforming
decoder rejects. `IsShortest` says that a sequence is the shortest one, and is
shown to single out what `String.utf8EncodeChar` gives.

## Key results

- `Carries.inj`: sequences of different numbers are different, whatever their forms
- `isShortest_seq_iff`: a sequence is the shortest one if no smaller form has room
- `isShortest_iff_utf8EncodeChar`: there is one shortest sequence for each character
-/

namespace Utf8

/-- The forms of a sequence. -/
inductive Form where
  | one
  | two
  | three
  | four
  deriving DecidableEq, Repr

namespace Form

/-- The number of bytes. -/
def length : Form → Nat
  | one => 1
  | two => 2
  | three => 3
  | four => 4

/-- The numbers below this have room. -/
def cap : Form → Nat
  | one => 0x80
  | two => 0x800
  | three => 0x10000
  | four => 0x200000

/-- The form with the fewest bytes that has room for `n`, if `n` is a code point. -/
def of (n : Nat) : Form :=
  if n ≤ 0x7f then one else if n ≤ 0x7ff then two else if n ≤ 0xffff then three else four

end Form

/-- A byte behind the first one, with the last six bits of `n`. -/
def tail (n : Nat) : UInt8 := UInt8.ofNat (0x80 + n % 64)

/-- The sequence of a form that carries `n`. -/
def Form.seq : Form → Nat → List UInt8
  | one, n => [UInt8.ofNat n]
  | two, n => [UInt8.ofNat (0xc0 + n / 64), tail n]
  | three, n => [UInt8.ofNat (0xe0 + n / 4096), tail (n / 64), tail n]
  | four, n => [UInt8.ofNat (0xf0 + n / 262144), tail (n / 4096), tail (n / 64), tail n]

/-- The sequence carries `n`, perhaps in more bytes than needed. -/
def Carries (bs : List UInt8) (n : Nat) : Prop := ∃ f : Form, n < f.cap ∧ bs = f.seq n

/-- The sequence carries `n`, and all others that do are longer. -/
def IsShortest (bs : List UInt8) (n : Nat) : Prop :=
  Carries bs n ∧ ∀ bs', Carries bs' n → bs' = bs ∨ bs.length < bs'.length

section Forms

variable {f g : Form} {n m : Nat} {bs bs' : List UInt8}

@[simp] theorem length_seq (f : Form) (n : Nat) : (f.seq n).length = f.length := by
  cases f <;> rfl

/-- Forms have different lengths. -/
theorem Form.length_inj (h : f.length = g.length) : f = g := by
  cases f <;> cases g <;> first | rfl | cases h

/-- A continuation byte shows six bits. -/
theorem tail_inj (h : tail n = tail m) : n % 64 = m % 64 := by
  have hn := congrArg UInt8.toNat h
  simp only [tail, UInt8.toNat_ofNat'] at hn
  omega

/-- The first byte holds what is above the bits of the others. -/
theorem lead_inj {mark a b : Nat} (ha : mark + a < 256) (hb : mark + b < 256)
    (h : UInt8.ofNat (mark + a) = UInt8.ofNat (mark + b)) : a = b := by
  have hn := congrArg UInt8.toNat h
  simp only [UInt8.toNat_ofNat'] at hn
  omega

/-- Two numbers have different sequences in one form. -/
theorem Form.seq_inj (hn : n < f.cap) (hm : m < f.cap) (h : f.seq n = f.seq m) : n = m := by
  -- The bytes give the parts of the number, six bits each and the rest in the first byte.
  cases f with
  | one =>
    simp only [Form.cap] at hn hm
    simp only [Form.seq, List.cons.injEq, and_true] at h
    exact @lead_inj 0 n m (by omega) (by omega) (by simpa using h)
  | two =>
    simp only [Form.cap] at hn hm
    simp only [Form.seq, List.cons.injEq, and_true] at h
    have h₁ := lead_inj (by omega) (by omega) h.1
    have h₂ := tail_inj h.2
    omega
  | three =>
    simp only [Form.cap] at hn hm
    simp only [Form.seq, List.cons.injEq, and_true] at h
    have h₁ := lead_inj (by omega) (by omega) h.1
    have h₂ := tail_inj h.2.1
    have h₃ := tail_inj h.2.2
    omega
  | four =>
    simp only [Form.cap] at hn hm
    simp only [Form.seq, List.cons.injEq, and_true] at h
    have h₁ := lead_inj (by omega) (by omega) h.1
    have h₂ := tail_inj h.2.1
    have h₃ := tail_inj h.2.2.1
    have h₄ := tail_inj h.2.2.2
    omega

/-- No sequence carries two numbers. -/
theorem Carries.inj (hn : Carries bs n) (hm : Carries bs m) : n = m := by
  obtain ⟨f, hf, rfl⟩ := hn
  obtain ⟨g, hg, heq⟩ := hm
  have hlen := congrArg List.length heq
  rw [length_seq, length_seq] at hlen
  obtain rfl := Form.length_inj hlen
  exact Form.seq_inj hf hg heq

/-- A sequence is the shortest one exactly if its number does not fit in a shorter form. -/
theorem isShortest_seq_iff (hn : n < f.cap) :
    IsShortest (f.seq n) n ↔ ∀ g : Form, g.length < f.length → g.cap ≤ n := by
  constructor
  · rintro ⟨-, hmin⟩ g hg
    -- With room in a shorter form, `f` would not be the shortest.
    by_contra hroom
    rcases hmin (g.seq n) ⟨g, by omega, rfl⟩ with heq | hlt
    · have hlen := congrArg List.length heq
      rw [length_seq, length_seq] at hlen
      omega
    · rw [length_seq, length_seq] at hlt
      omega
  · intro hmin
    refine ⟨⟨f, hn, rfl⟩, ?_⟩
    rintro bs' ⟨g, hg, rfl⟩
    rw [length_seq, length_seq]
    by_cases heq : g = f
    · exact .inl (by rw [heq])
    · -- Another form that has room is not shorter, so it is longer.
      right
      have hne : g.length ≠ f.length := fun h => heq (Form.length_inj h)
      have hle : ¬ g.length < f.length := fun h => by
        have := hmin g h
        omega
      omega

/-- A number has one shortest sequence. -/
theorem IsShortest.unique (h : IsShortest bs n) (h' : IsShortest bs' n) : bs' = bs := by
  rcases h.2 bs' h'.1 with heq | hlt
  · exact heq
  · rcases h'.2 bs h.1 with heq | hlt'
    · exact heq.symm
    · omega

end Forms

/-! ## The encoder of the library -/

/-- The form of a number has room for it. -/
theorem Form.lt_cap_of {n : Nat} (h : n < 0x200000) : n < (Form.of n).cap := by
  unfold Form.of
  split
  · simp only [Form.cap]
    omega
  · split
    · simp only [Form.cap]
      omega
    · split
      · simp only [Form.cap]
        omega
      · exact h

/-- `Form.of` leaves no smaller form. -/
theorem Form.cap_le_of_length_lt {g : Form} {n : Nat} (h : g.length < (Form.of n).length) :
    g.cap ≤ n := by
  unfold Form.of at h
  split at h
  · cases g <;> simp [Form.length] at h
  · split at h
    · cases g with
      | one => simp only [Form.cap]; omega
      | two | three | four => simp [Form.length] at h
    · split at h
      · cases g with
        | one | two => simp only [Form.cap]; omega
        | three | four => simp [Form.length] at h
      · cases g with
        | one | two | three => simp only [Form.cap]; omega
        | four => simp [Form.length] at h

/-- A character is below the end of Unicode. -/
theorem toNat_lt (c : Char) : c.toNat < 0x110000 := by
  rcases c.valid with h | h
  · exact h.trans (by decide)
  · exact h.2

/-- Lean's encoder prints the form. -/
theorem utf8EncodeChar_eq_seq (c : Char) :
    String.utf8EncodeChar c = (Form.of c.toNat).seq c.toNat := by
  have hc := toNat_lt c
  have hval : c.val.toNat = c.toNat := rfl
  unfold String.utf8EncodeChar Form.of
  simp only [hval]
  split
  · rfl
  · split
    · -- The leading byte has room for the top bits, so the mask does nothing.
      simp only [Form.seq, tail, Nat.add_comm 0x80, Nat.add_comm 0xc0]
      rw [Nat.mod_eq_of_lt (by omega : c.toNat / 64 < 0x20)]
    · split
      · simp only [Form.seq, tail, Nat.add_comm 0x80, Nat.add_comm 0xe0]
        rw [Nat.mod_eq_of_lt (by omega : c.toNat / 4096 < 0x10)]
      · simp only [Form.seq, tail, Nat.add_comm 0x80, Nat.add_comm 0xf0]
        rw [Nat.mod_eq_of_lt (by omega : c.toNat / 262144 < 0x08)]

/-- So it prints the shortest sequence. -/
theorem isShortest_utf8EncodeChar (c : Char) :
    IsShortest (String.utf8EncodeChar c) c.toNat := by
  have hc := toNat_lt c
  rw [utf8EncodeChar_eq_seq, isShortest_seq_iff (Form.lt_cap_of (by omega))]
  exact fun g hg => Form.cap_le_of_length_lt hg

/-- Which is the only one. -/
theorem isShortest_iff_utf8EncodeChar {bs : List UInt8} {c : Char} :
    IsShortest bs c.toNat ↔ bs = String.utf8EncodeChar c := by
  constructor
  · exact fun h => (isShortest_utf8EncodeChar c).unique h
  · rintro rfl
    exact isShortest_utf8EncodeChar c

/-- The decoder of the library reads a shortest sequence back. -/
theorem IsShortest.decode {bs : List UInt8} {c : Char} (h : IsShortest bs c.toNat) :
    bs.toByteArray.utf8DecodeChar? 0 = some c := by
  have hdecode := @ByteArray.utf8DecodeChar?_utf8EncodeChar_append ByteArray.empty c
  rwa [ByteArray.append_empty, ← isShortest_iff_utf8EncodeChar.mp h] at hdecode

end Utf8

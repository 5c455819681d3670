import Mathlib

/-!
# C memory objects and strings

A small model of what C code does to byte arrays: fixed-size objects written by
`memcpy` and `memset`, reads of a range, NUL-terminated strings, and unsigned
integers stored in little-endian order.

Every access is checked. An access outside its object is a `Fault`, after which
the program has no defined behaviour; code is translated into the `Except Fault`
monad, so a run that reaches a fault has no result.
-/

namespace CMem

/-- A sequence of bytes. -/
abbrev Bytes := List UInt8

/-- What a C program may not do. -/
inductive Fault where
  /-- An access through a null pointer. -/
  | nullDeref
  /-- An access outside the object, including a string that is not terminated in it. -/
  | outOfBounds
  deriving DecidableEq, Repr

/-! ## The fault monad -/

@[simp] theorem ok_bind {ε α β : Type} (a : α) (f : α → Except ε β) :
    (Except.ok a >>= f) = f a := rfl

@[simp] theorem error_bind {ε α β : Type} (e : ε) (f : α → Except ε β) :
    ((Except.error e : Except ε α) >>= f) = .error e := rfl

@[simp] theorem pure_eq_ok {ε α : Type} (a : α) : (pure a : Except ε α) = .ok a := rfl

/-- A pair is returned as it is. -/
theorem pure_pair_eq_ok {ε α β : Type} {a c : α} {b d : β} :
    (pure (a, b) : Except ε (α × β)) = .ok (c, d) ↔ a = c ∧ b = d := by
  simp only [pure_eq_ok, Except.ok.injEq, Prod.mk.injEq]

/-- A sequence of two computations returns exactly when both do. -/
theorem bind_eq_ok {ε α β : Type} {x : Except ε α} {f : α → Except ε β} {r : β} :
    (x >>= f) = .ok r ↔ ∃ a, x = .ok a ∧ f a = .ok r := by
  cases x with
  | error e => simp
  | ok a => simp

/-! ## Fixed-size objects -/

/-- `a` with zeros behind it, up to `n` bytes. -/
def padTo (n : Nat) (a : Bytes) : Bytes := a ++ List.replicate (n - a.length) 0

/-- What fits is padded to the length. -/
theorem length_padTo {n : Nat} {a : Bytes} (h : a.length ≤ n) : (padTo n a).length = n := by
  simp only [padTo, List.length_append, List.length_replicate]
  omega

/-- A byte array object of `n` bytes. -/
@[ext] structure Buf (n : Nat) where
  bytes : Bytes
  size_eq : bytes.length = n
  deriving DecidableEq

namespace Buf

variable {n : Nat}

/-- An object of `n` zero bytes. -/
def zero (n : Nat) : Buf n := ⟨List.replicate n 0, List.length_replicate⟩

/-- Store `src` at offset `off`, inside the object. -/
def write (b : Buf n) (off : Nat) (src : Bytes) (h : off + src.length ≤ n) : Buf n :=
  ⟨b.bytes.take off ++ src ++ b.bytes.drop (off + src.length), by
    have := b.size_eq
    simp only [List.length_append, List.length_take, List.length_drop]
    omega⟩

/-- `memcpy(b + off, src, |src|)`. -/
def memcpy (b : Buf n) (off : Nat) (src : Bytes) : Except Fault (Buf n) :=
  if h : off + src.length ≤ n then .ok (b.write off src h) else .error .outOfBounds

/-- `memset(b, 0, len)`. -/
def memset0 (b : Buf n) (len : Nat) : Except Fault (Buf n) :=
  b.memcpy 0 (List.replicate len 0)

@[simp] theorem length_bytes (b : Buf n) : b.bytes.length = n := b.size_eq

@[simp] theorem bytes_zero : (zero n).bytes = List.replicate n 0 := rfl

/-- A write leaves what is around it. -/
theorem bytes_write (b : Buf n) (off : Nat) (src : Bytes) (h : off + src.length ≤ n) :
    (b.write off src h).bytes = b.bytes.take off ++ src ++ b.bytes.drop (off + src.length) := rfl

/-- A copy that fits is a write. -/
theorem memcpy_eq_ok_iff {b b' : Buf n} {off : Nat} {src : Bytes} :
    b.memcpy off src = .ok b' ↔ off + src.length ≤ n ∧
      b'.bytes = b.bytes.take off ++ src ++ b.bytes.drop (off + src.length) := by
  unfold memcpy
  split
  · rename_i h
    rw [Except.ok.injEq, Buf.ext_iff, write]
    exact ⟨fun h' => ⟨h, h'.symm⟩, fun h' => h'.2.symm⟩
  · rename_i h
    simp [h]

/-- Storing leaves what is in front of it. -/
theorem take_memcpy {b b' : Buf n} {off k : Nat} {src : Bytes} (h : b.memcpy off src = .ok b')
    (hk : k ≤ off) : b'.bytes.take k = b.bytes.take k := by
  obtain ⟨hle, hb⟩ := memcpy_eq_ok_iff.mp h
  have hlen : k ≤ (b.bytes.take off).length := by
    rw [List.length_take, b.length_bytes]
    omega
  rw [hb, List.append_assoc, List.take_append_of_le_length hlen, List.take_take,
    Nat.min_eq_left hk]

/-- Storing leaves what is in front of it and behind it. -/
theorem getElem?_memcpy {b b' : Buf n} {off k : Nat} {src : Bytes} (h : b.memcpy off src = .ok b')
    (hk : k < off ∨ off + src.length ≤ k) : b'.bytes[k]? = b.bytes[k]? := by
  obtain ⟨hle, hb⟩ := memcpy_eq_ok_iff.mp h
  have hfront : (b.bytes.take off).length = off := by
    rw [List.length_take, length_bytes]
    omega
  rw [hb, List.append_assoc]
  rcases hk with hk | hk
  · -- In front of what is stored.
    rw [List.getElem?_append_left (by omega), List.getElem?_take_of_lt hk]
  · -- Behind it.
    rw [List.getElem?_append_right (by omega), hfront, List.getElem?_append_right (by omega),
      List.getElem?_drop]
    congr 1
    omega

/-- The bytes of the copy. -/
theorem getElem?_memcpy_of_mem {b b' : Buf n} {off k : Nat} {src : Bytes}
    (h : b.memcpy off src = .ok b') (hlo : off ≤ k) (hhi : k < off + src.length) :
    b'.bytes[k]? = src[k - off]? := by
  obtain ⟨hle, hb⟩ := memcpy_eq_ok_iff.mp h
  have hfront : (b.bytes.take off).length = off := by
    rw [List.length_take, length_bytes]
    omega
  rw [hb, List.append_assoc, List.getElem?_append_right (by omega), hfront,
    List.getElem?_append_left (by omega)]

/-- Storing keeps the last byte, if it ends in front of it or with the same. -/
theorem getLast?_memcpy {b b' : Buf n} {off : Nat} {src : Bytes} {x : UInt8}
    (h : b.memcpy off src = .ok b') (hlast : b.bytes.getLast? = some x)
    (hsrc : off + src.length < n ∨ src.getLast? = some x) : b'.bytes.getLast? = some x := by
  obtain ⟨hle, hb⟩ := memcpy_eq_ok_iff.mp h
  rw [hb, List.getLast?_append, List.getLast?_drop, length_bytes]
  by_cases hend : n ≤ off + src.length
  · -- The copy reaches the end, so the last byte is the source's.
    have hx : src.getLast? = some x := by
      rcases hsrc with hlt | hx
      · omega
      · exact hx
    rw [if_pos hend, Option.none_or, List.getLast?_append, hx, Option.some_or]
  · rw [if_neg hend, hlast, Option.some_or]

/-- Writing over the whole object leaves what was written. -/
theorem memcpy_full (b : Buf n) (src : Bytes) (h : src.length = n) :
    b.memcpy 0 src = .ok ⟨src, h⟩ := by
  rw [memcpy_eq_ok_iff]
  refine ⟨by omega, ?_⟩
  simp [h]

/-- A buffer that is cleared as a whole is a cleared one. -/
theorem memset0_full (b : Buf n) : b.memset0 n = .ok (zero n) :=
  memcpy_full b _ List.length_replicate

/-- An object that holds `a` and zeros behind it. -/
def fill (n : Nat) (a : Bytes) (h : a.length ≤ n) : Buf n := ⟨padTo n a, length_padTo h⟩

@[simp] theorem bytes_fill (a : Bytes) (h : a.length ≤ n) : (fill n a h).bytes = padTo n a := rfl

/-- A cleared buffer is filled with nothing. -/
theorem zero_eq_fill : zero n = fill n [] (Nat.zero_le _) := by
  simp [Buf.ext_iff, padTo]

/-- Storing behind what an object is filled with. -/
theorem memcpy_fill {a x : Bytes} {off : Nat} (hoff : a.length = off) (h : a.length ≤ n)
    (hx : (a ++ x).length ≤ n) : (fill n a h).memcpy off x = .ok (fill n (a ++ x) hx) := by
  subst hoff
  rw [List.length_append] at hx
  rw [memcpy_eq_ok_iff]
  refine ⟨hx, ?_⟩
  have hz : (List.replicate (n - a.length) (0 : UInt8)).drop x.length =
      List.replicate (n - (a ++ x).length) 0 := by
    rw [List.drop_replicate, List.length_append, Nat.sub_sub]
  rw [bytes_fill, bytes_fill, padTo, padTo, List.take_left, ← List.drop_drop, List.drop_left, hz]

/-- Storing at the start of a cleared object. -/
theorem memcpy_zero {x : Bytes} (hx : x.length ≤ n) :
    (zero n).memcpy 0 x = .ok (fill n x hx) := by
  rw [zero_eq_fill]
  exact memcpy_fill rfl (Nat.zero_le _) hx

end Buf

/-! ## Reads -/

/-- The `n` bytes at offset `off` of an object. -/
def load (mem : Bytes) (off n : Nat) : Except Fault Bytes :=
  if off + n ≤ mem.length then .ok ((mem.drop off).take n) else .error .outOfBounds

/-- `n` bytes at offset `off` from a pointer that may be null. Nothing is accessed
    when `n` is 0. -/
def loadPtr (p : Option Bytes) (off n : Nat) : Except Fault Bytes :=
  if n = 0 then .ok []
  else match p with
    | none => .error .nullDeref
    | some mem => load mem off n

/-- Memory that is there can be read. -/
theorem load_eq_ok {mem : Bytes} {off n : Nat} (h : off + n ≤ mem.length) :
    load mem off n = .ok ((mem.drop off).take n) := if_pos h

/-- Other memory cannot. -/
theorem load_eq_ok_iff {mem data : Bytes} {off n : Nat} :
    load mem off n = .ok data ↔ off + n ≤ mem.length ∧ data = (mem.drop off).take n := by
  unfold load
  split
  · rename_i h
    rw [Except.ok.injEq, eq_comm]
    exact ⟨fun hd => ⟨h, hd⟩, fun hd => hd.2⟩
  · rename_i h
    simp [h]

/-- The bytes of a load, one by one. -/
theorem load_one {mem : Bytes} {off : Nat} (h : off < mem.length) :
    load mem off 1 = .ok [mem.getD off 0] := by
  rw [load_eq_ok (by omega), List.drop_eq_getElem_cons h, List.take_succ_cons, List.take_zero,
    List.getD_eq_getElem mem 0 h]

/-- Two bytes in a row. -/
theorem load_two {mem : Bytes} {off : Nat} (h : off + 1 < mem.length) :
    load mem off 2 = .ok [mem.getD off 0, mem.getD (off + 1) 0] := by
  have hoff : off < mem.length := by omega
  rw [load_eq_ok (by omega), List.drop_eq_getElem_cons hoff, List.drop_eq_getElem_cons h,
    List.take_succ_cons, List.take_succ_cons, List.take_zero, List.getD_eq_getElem mem 0 hoff,
    List.getD_eq_getElem mem 0 h]

/-- What a pointer shows can be read. -/
theorem loadPtr_eq_ok {mem : Bytes} {off n : Nat} (h : off + n ≤ mem.length) :
    loadPtr (some mem) off n = .ok ((mem.drop off).take n) := by
  unfold loadPtr
  split
  · simp_all
  · exact load_eq_ok h

/-- As much is read as was asked for. -/
theorem length_of_loadPtr {mem data : Bytes} {off n : Nat}
    (h : loadPtr (some mem) off n = .ok data) : data.length = n := by
  unfold loadPtr load at h
  dsimp only at h
  split at h
  · -- Nothing is read, so any address will do.
    rename_i hn
    obtain rfl := Except.ok.inj h
    rw [hn, List.length_nil]
  · split at h
    · obtain rfl := Except.ok.inj h
      rw [List.length_take, List.length_drop]
      omega
    · cases h

/-! ## Strings -/

/-- The bytes of a string literal. -/
def ascii (s : String) : Bytes := s.toList.map fun c => UInt8.ofNat c.toNat

/-- A C string: bytes without a NUL. -/
structure CString where
  bytes : Bytes
  nulFree : (0 : UInt8) ∉ bytes
  deriving DecidableEq

/-- The string at the start of a byte sequence: the bytes before the first NUL. -/
def cstr (b : Bytes) : Bytes := b.takeWhile (· ≠ 0)

/-- The string at offset `off` of an object, which must hold its terminator. -/
def cstrAt (mem : Bytes) (off : Nat) : Except Fault Bytes :=
  if (0 : UInt8) ∈ mem.drop off then .ok (cstr (mem.drop off)) else .error .outOfBounds

/-- `strncmp(a, b, n) == 0` for a string object `a` and a literal `b`. -/
def strncmpEq (a b : Bytes) : Nat → Bool
  | 0 => true
  | n + 1 =>
    let x := a.headD 0
    let y := b.headD 0
    x == y && (x == 0 || strncmpEq a.tail b.tail n)

/-- A string ends at its 0. -/
theorem not_mem_cstr (b : Bytes) : (0 : UInt8) ∉ cstr b := by
  intro h
  simpa using List.mem_takeWhile_imp h

/-- A string without a 0 goes on with what is behind it. -/
theorem cstr_append_of_not_mem {a : Bytes} (h : (0 : UInt8) ∉ a) (b : Bytes) :
    cstr (a ++ b) = a ++ cstr b := by
  induction a with
  | nil => rfl
  | cons x a ih =>
    simp only [List.mem_cons, not_or] at h
    have hx : cstr (x :: (a ++ b)) = x :: cstr (a ++ b) := by simp [cstr, Ne.symm h.1]
    rw [List.cons_append, hx, ih h.2, List.cons_append]

@[simp] theorem cstr_zero_cons (b : Bytes) : cstr (0 :: b) = [] := rfl

/-- Zeros are the empty string. -/
theorem cstr_replicate_zero (n : Nat) : cstr (List.replicate n 0) = [] := by
  cases n <;> rfl

/-- A NUL-free sequence is its own string. -/
theorem cstr_of_not_mem {a : Bytes} (h : (0 : UInt8) ∉ a) : cstr a = a := by
  simpa [cstr] using cstr_append_of_not_mem h []

/-- The string is part of the memory. -/
theorem length_cstr_le (b : Bytes) : (cstr b).length ≤ b.length :=
  (List.takeWhile_sublist _).length_le

/-- A string is shorter than the memory that holds its terminator. -/
theorem length_cstr_lt {b : Bytes} (h : (0 : UInt8) ∈ b) : (cstr b).length < b.length := by
  have hinit : cstr b <+: b := List.takeWhile_prefix _
  refine lt_of_le_of_ne (length_cstr_le b) fun hlen => ?_
  have hnot := not_mem_cstr b
  rw [hinit.eq_of_length hlen] at hnot
  exact hnot h

/-- The string and its terminator. -/
theorem take_length_cstr_succ {b : Bytes} (h : (0 : UInt8) ∈ b) :
    b.take ((cstr b).length + 1) = cstr b ++ [0] := by
  induction b with
  | nil => cases h
  | cons x b ih =>
    by_cases hx : x = 0
    · -- The text ends here, and its NUL is the byte that is taken.
      subst hx
      rfl
    · have hcons : cstr (x :: b) = x :: cstr b := by simp [cstr, hx]
      have hmem : (0 : UInt8) ∈ b := List.mem_of_ne_of_mem (Ne.symm hx) h
      rw [hcons, List.length_cons, List.take_succ_cons, ih hmem, List.cons_append]

/-- No terminator stands in front of the end of the string. -/
theorem not_mem_take_cstr {b : Bytes} {k : Nat} (h : k ≤ (cstr b).length) :
    (0 : UInt8) ∉ b.take k := by
  have hinit : cstr b <+: b := List.takeWhile_prefix _
  have htake : b.take k <+: cstr b :=
    List.prefix_of_prefix_length_le (List.take_prefix k b) hinit
      ((List.length_take_le k b).trans h)
  exact fun hmem => not_mem_cstr b (htake.subset hmem)

/-- Printing a piece that reaches no further than behind the first terminator. -/
theorem cstr_take_zeros {b : Bytes} {k : Nat} (h : k ≤ (cstr b).length + 1) (n : Nat) :
    cstr (b.take k ++ List.replicate n 0) = (b.take k).filter (· ≠ 0) := by
  induction b generalizing k with
  | nil => simp [cstr_replicate_zero]
  | cons x b ih =>
    cases k with
    | zero => simp [cstr_replicate_zero]
    | succ k =>
      rw [List.take_succ_cons, List.cons_append]
      by_cases hx : x = 0
      · -- The terminator is the last byte of the piece.
        subst hx
        have hk : k = 0 := by simpa using h
        simp [hk]
      · have hlen : (cstr (x :: b)).length = (cstr b).length + 1 := by simp [cstr, hx]
        have htail := ih (k := k) (by omega)
        rw [List.filter_cons_of_pos (by simpa using hx), ← htail]
        simp [cstr, hx]

/-- Reading a string that stands in front of its terminator. -/
theorem cstrAt_append {b : Bytes} (hb : (0 : UInt8) ∉ b) (a behind : Bytes) :
    cstrAt (a ++ b ++ 0 :: behind) a.length = .ok b := by
  rw [cstrAt, List.append_assoc, List.drop_left, if_pos (by simp), cstr_append_of_not_mem hb,
    cstr_zero_cons, List.append_nil]

/-- Reading back a string that was stored behind `a`, with room for its terminator. -/
theorem cstrAt_padTo {a b : Bytes} {n : Nat} (hb : (0 : UInt8) ∉ b) (h : a.length + b.length < n) :
    cstrAt (padTo n (a ++ b)) a.length = .ok b := by
  obtain ⟨k, hk⟩ : ∃ k, n - (a ++ b).length = k + 1 :=
    ⟨n - (a ++ b).length - 1, by rw [List.length_append]; omega⟩
  rw [padTo, hk, List.replicate_succ]
  exact cstrAt_append hb a (List.replicate k 0)

/-- Comparing as many bytes as a NUL-free literal has tells whether the string starts with it. -/
theorem strncmpEq_start {a b : Bytes} (hb : (0 : UInt8) ∉ b) :
    strncmpEq a b b.length = true ↔ b <+: a := by
  induction b generalizing a with
  | nil => simp [strncmpEq]
  | cons y b ih =>
    simp only [List.mem_cons, not_or] at hb
    cases a with
    | nil =>
      -- The string has ended, the literal has not.
      have hy : ((0 : UInt8) == y) = false := by simpa using hb.1
      simp [strncmpEq, hy]
    | cons x a =>
      have ih' := ih (a := a) hb.2
      simp only [List.length_cons, strncmpEq, List.headD_cons, List.tail_cons,
        List.cons_prefix_cons, Bool.and_eq_true, beq_iff_eq, Bool.or_eq_true]
      constructor
      · rintro ⟨rfl, h | h⟩
        · exact absurd h.symm hb.1
        · exact ⟨rfl, ih'.mp h⟩
      · rintro ⟨rfl, h⟩
        exact ⟨rfl, .inr (ih'.mpr h)⟩

/-- Comparing as many bytes as a NUL-free literal has compares them all. -/
theorem strncmpEq_iff {a b : Bytes} (hb : (0 : UInt8) ∉ b) :
    strncmpEq a b b.length = true ↔ a.take b.length = b := by
  rw [strncmpEq_start hb, List.prefix_iff_eq_take, eq_comm]

/-! ## Strings stored without their terminator -/

/-- What a string object shows when `new` has been stored at its start without a terminator: the
    end of the old string is still there. -/
def overlay (new old : Bytes) : Bytes := new ++ old.drop new.length

/-- The longer text has the length. -/
theorem length_overlay (new old : Bytes) :
    (overlay new old).length = max new.length old.length := by
  simp only [overlay, List.length_append, List.length_drop]
  omega

/-- A string that is not shorter replaces the old one. -/
theorem overlay_of_le {new old : Bytes} (h : old.length ≤ new.length) : overlay new old = new := by
  rw [overlay, List.drop_of_length_le h, List.append_nil]

/-- No 0 comes in. -/
theorem not_mem_overlay {new old : Bytes} (hnew : (0 : UInt8) ∉ new) (hold : (0 : UInt8) ∉ old) :
    (0 : UInt8) ∉ overlay new old := by
  intro h
  rcases List.mem_append.mp h with h | h
  · exact hnew h
  · exact hold (List.mem_of_mem_drop h)

/-- Storing bytes over a string in zero-filled memory, behind `front`. -/
theorem Buf.memcpy_overlay {n : Nat} {b : Buf n} {front old new : Bytes}
    (hb : b.bytes = padTo n (front ++ old)) (hold : (front ++ old).length ≤ n)
    (hnew : front.length + new.length ≤ n) :
    ∃ b', b.memcpy front.length new = .ok b' ∧ b'.bytes = padTo n (front ++ overlay new old) := by
  refine ⟨b.write front.length new hnew, dif_pos hnew, ?_⟩
  have hlen : (front ++ overlay new old).length = front.length + max new.length old.length := by
    rw [List.length_append, length_overlay]
  rw [List.length_append] at hold
  rw [Buf.bytes_write, hb, padTo, padTo, hlen, List.append_assoc front old, List.take_left,
    List.drop_append, List.drop_append, overlay]
  -- Nothing of `front` is left behind the copy, and the zeros at the end are as many as before.
  have hzero : front.drop (front.length + new.length) = [] := List.drop_of_length_le (by omega)
  have hoff : front.length + new.length - front.length = new.length := by omega
  have hfree : n - (front ++ old).length - (new.length - old.length) =
      n - (front.length + max new.length old.length) := by
    rw [List.length_append]
    omega
  rw [hzero, hoff, List.nil_append, List.drop_replicate, hfree]
  simp only [List.append_assoc]

/-- Storing bytes one by one. -/
theorem Buf.memcpy_cons {n : Nat} (b : Buf n) (off : Nat) (c : UInt8) (rest : Bytes) :
    (b.memcpy off [c] >>= fun b' => b'.memcpy (off + 1) rest) = b.memcpy off (c :: rest) := by
  by_cases h : off + (c :: rest).length ≤ n
  · have hlen : (c :: rest).length = rest.length + 1 := rfl
    have hone : off + [c].length ≤ n := by
      simp only [List.length_singleton]
      omega
    have hrest : off + 1 + rest.length ≤ n := by omega
    have htake : (b.bytes.take off).length = off := by
      rw [List.length_take, b.length_bytes]
      omega
    rw [Buf.memcpy, Buf.memcpy, dif_pos hone, dif_pos h, ok_bind, Buf.memcpy, dif_pos hrest]
    congr 1
    -- The first byte ends the part in front of the others, and what is behind stays.
    apply Buf.ext
    have hfirst : (b.write off [c] hone).bytes.take (off + 1) = b.bytes.take off ++ [c] := by
      rw [Buf.bytes_write, List.take_append_of_le_length (by simp [htake]),
        List.take_of_length_le (by simp [htake])]
    have hlast : (b.write off [c] hone).bytes.drop (off + 1 + rest.length) =
        b.bytes.drop (off + (c :: rest).length) := by
      rw [Buf.bytes_write, List.drop_append, List.drop_of_length_le (by simp [htake]),
        List.nil_append, List.drop_drop]
      congr 1
      simp only [List.length_append, htake, List.length_singleton, hlen]
      omega
    rw [Buf.bytes_write, hfirst, hlast, Buf.bytes_write, List.append_assoc, List.append_assoc,
      List.append_assoc]
    rfl
  · -- Without room for all of them the second store fails, if not the first.
    rw [Buf.memcpy, Buf.memcpy, dif_neg h]
    split
    · rw [ok_bind, Buf.memcpy, dif_neg (by rw [List.length_cons] at h; omega)]
    · rfl

/-- A string that fills its object has no terminator. -/
theorem cstrAt_of_not_mem {mem : Bytes} (h : (0 : UInt8) ∉ mem) :
    cstrAt mem 0 = .error .outOfBounds := by
  rw [cstrAt, List.drop_zero, if_neg h]

/-- Reading a string from zero-filled memory: it must leave room for its terminator. -/
theorem cstrAt_zero_padTo {a : Bytes} {n : Nat} (ha : (0 : UInt8) ∉ a) (hle : a.length ≤ n) :
    cstrAt (padTo n a) 0 = if a.length < n then .ok a else .error .outOfBounds := by
  by_cases h : a.length < n
  · rw [if_pos h]
    exact cstrAt_padTo (a := []) ha (by simpa using h)
  · have hfull : padTo n a = a := by
      rw [padTo, Nat.sub_eq_zero_of_le (by omega), List.replicate_zero, List.append_nil]
    rw [if_neg h, hfull, cstrAt_of_not_mem ha]

/-! ## Little-endian integers -/

/-- The two bytes of a `uint16_t`. -/
def le16 (x : UInt16) : Bytes := [UInt8.ofNat x.toNat, UInt8.ofNat (x.toNat / 256)]

/-- The four bytes of a `uint32_t`. -/
def le32 (x : UInt32) : Bytes :=
  [UInt8.ofNat x.toNat, UInt8.ofNat (x.toNat / 256), UInt8.ofNat (x.toNat / 65536),
    UInt8.ofNat (x.toNat / 16777216)]

/-- The number that a byte sequence stands for, low byte first. -/
def ofLe (b : Bytes) : Nat := b.foldr (fun x acc => x.toNat + 256 * acc) 0

/-- `*(uint16_t *)(mem + off)`. -/
def load16 (mem : Bytes) (off : Nat) : Except Fault UInt16 :=
  (load mem off 2).map fun b => UInt16.ofNat (ofLe b)

/-- `*(uint32_t *)(mem + off)`. -/
def load32 (mem : Bytes) (off : Nat) : Except Fault UInt32 :=
  (load mem off 4).map fun b => UInt32.ofNat (ofLe b)

@[simp] theorem length_le16 (x : UInt16) : (le16 x).length = 2 := rfl

@[simp] theorem length_le32 (x : UInt32) : (le32 x).length = 4 := rfl

/-- Two bytes are read back. -/
theorem ofLe_le16 (x : UInt16) : ofLe (le16 x) = x.toNat := by
  have := x.toNat_lt
  simp [ofLe, le16]
  omega

/-- Four bytes are read back. -/
theorem ofLe_le32 (x : UInt32) : ofLe (le32 x) = x.toNat := by
  have := x.toNat_lt
  simp [ofLe, le32]
  omega

/-- Reading a `uint16_t` back from where its bytes were stored. -/
theorem load16_append (a : Bytes) (x : UInt16) (b : Bytes) :
    load16 (a ++ le16 x ++ b) a.length = .ok x := by
  have h : load (a ++ le16 x ++ b) a.length 2 = .ok (le16 x) := by
    rw [load_eq_ok (by simp), List.append_assoc, List.drop_left]
    rfl
  rw [load16, h, Except.map, ofLe_le16]
  simp

/-- Reading a `uint32_t` back from where its bytes were stored. -/
theorem load32_append (a : Bytes) (x : UInt32) (b : Bytes) :
    load32 (a ++ le32 x ++ b) a.length = .ok x := by
  have h : load (a ++ le32 x ++ b) a.length 4 = .ok (le32 x) := by
    rw [load_eq_ok (by simp), List.append_assoc, List.drop_left]
    rfl
  rw [load32, h, Except.map, ofLe_le32]
  simp

/-! ## Regions -/

/-- Two objects hold the same bytes from `lo` up to `hi`. -/
def AgreeOn (lo hi : Nat) (a b : Bytes) : Prop := ∀ k, lo ≤ k → k < hi → a[k]? = b[k]?

namespace AgreeOn

variable {lo hi off k : Nat} {a b : Bytes}

/-- Less is the same when more is. -/
theorem mono (h : AgreeOn lo hi a b) {lo' hi' : Nat} (hlo : lo ≤ lo') (hhi : hi' ≤ hi) :
    AgreeOn lo' hi' a b :=
  fun k h₁ h₂ => h k (by omega) (by omega)

/-- A piece of the region is the same in both. -/
theorem slice (h : AgreeOn lo hi a b) (hlo : lo ≤ off) (hhi : off + k ≤ hi) :
    (a.drop off).take k = (b.drop off).take k := by
  apply List.ext_getElem?
  intro i
  rw [List.getElem?_take, List.getElem?_take, List.getElem?_drop, List.getElem?_drop]
  split
  · exact h (off + i) (by omega) (by omega)
  · rfl

/-- So is what is loaded from it. -/
theorem loadPtr (h : AgreeOn lo hi a b) (hlen : a.length = b.length) (hlo : lo ≤ off)
    (hhi : off + k ≤ hi) : loadPtr (some a) off k = loadPtr (some b) off k := by
  unfold CMem.loadPtr load
  dsimp only
  rw [h.slice hlo hhi, hlen]

/-- A string that starts in the region ends in both at the same place, or in neither. -/
theorem length_cstr (h : AgreeOn lo hi a b) :
    min (cstr (a.drop lo)).length (hi - lo) = min (cstr (b.drop lo)).length (hi - lo) := by
  by_cases hle : lo ≤ hi
  · have htake : (cstr (a.drop lo)).take (hi - lo) = (cstr (b.drop lo)).take (hi - lo) := by
      rw [cstr, cstr, List.take_takeWhile, List.take_takeWhile,
        h.slice (Nat.le_refl lo) (by omega)]
    have hlen := congrArg List.length htake
    rwa [List.length_take, List.length_take, Nat.min_comm, Nat.min_comm (hi - lo)] at hlen
  · have hzero : hi - lo = 0 := by omega
    rw [hzero, Nat.min_zero, Nat.min_zero]

/-- The same bytes stored behind the region in both make it longer. -/
theorem memcpy {n : Nat} {a b a' b' : Buf n} {src : Bytes} (h : AgreeOn lo off a.bytes b.bytes)
    (ha : a.memcpy off src = .ok a') (hb : b.memcpy off src = .ok b') :
    AgreeOn lo (off + src.length) a'.bytes b'.bytes := by
  intro k hlo hhi
  by_cases hk : k < off
  · rw [Buf.getElem?_memcpy ha (.inl hk), Buf.getElem?_memcpy hb (.inl hk)]
    exact h k hlo hk
  · have hle : off ≤ k := Nat.not_lt.mp hk
    rw [Buf.getElem?_memcpy_of_mem ha hle hhi, Buf.getElem?_memcpy_of_mem hb hle hhi]

end AgreeOn

end CMem

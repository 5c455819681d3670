import Udb.Spec.Rlog

/-!
# Windows of the log

`rlog_dump` can be asked for a part of the log, `count` bytes from `offset` on.
`rbuf_get` turns the offset into a pointer behind `rbuf_head`, and that pointer is
not taken back to the start where it has left the storage: `left` has then wrapped
to a huge number, and the copy starts outside of the ring.

## Key results

- `rbufGet_window_iff`: when `rbuf_get` copies the window it was asked for
- `rlogDump_window_iff`: the same for every log, and for a log that is fetched in pieces
-/

namespace Udb.Spec

open CMem Udb.Native

/-! ## One window -/

section Get

variable {size : Nat} {r : Rbuf size} {S : Bytes} {count offset : Nat}

/-- Before the ring is overrun a window is a stretch of the storage. -/
private theorem rbufGet_of_le (hr : RingInv r S) (hsize : size < 2 ^ 64) (hle : S.length ≤ size)
    (hfit : offset + count ≤ S.length) :
    r.rbufGet count offset = .ok ((S.drop offset).take count) := by
  have hlen := r.rbufMem.length_bytes
  -- The ring has not wrapped, so the read starts at the front.
  have hf : r.rbufFull = false := by simpa [hr.full] using hle
  have hleft : (2 ^ 64 + size - offset) % 2 ^ 64 = size - offset := by omega
  -- The bytes of the messages are the front of the memory.
  have hstored : S = r.rbufMem.bytes.take S.length := (take_mem_of_le hr hle).symm
  unfold Rbuf.rbufGet
  simp only [hf, Bool.false_eq_true, if_false]
  rw [hleft, if_pos (by omega), load_eq_ok (by omega)]
  conv_rhs => rw [hstored]
  rw [List.drop_take, List.take_take, Nat.min_eq_left (by omega)]

/-- After that it starts behind the write position, and may go around the end. -/
private theorem rbufGet_of_lt (hr : RingInv r S) (hsize : size < 2 ^ 64) (hlt : size < S.length)
    (hfit : offset + count ≤ size) (hstart : r.rbufHead + offset ≤ size) :
    r.rbufGet count offset = .ok (((S.rtake size).drop offset).take count) := by
  have hlen := r.rbufMem.length_bytes
  have hf : r.rbufFull = true := by simpa [hr.full] using hlt
  have hview : Ring.unroll r.rbufMem.bytes r.rbufHead = S.rtake size := unroll_of_lt hr hlt
  have hleft : (2 ^ 64 + size - (r.rbufHead + offset)) % 2 ^ 64 =
      size - (r.rbufHead + offset) := by omega
  rw [← hview]
  unfold Rbuf.rbufGet
  simp only [hf, if_true]
  rw [hleft]
  split
  · rw [Ring.take_drop_unroll_of_le (by omega), load_eq_ok (by omega)]
  · -- The first copy goes up to the end, the second one starts at the start.
    have hrest : (r.rbufMem.bytes.drop (r.rbufHead + offset)).take
        (size - (r.rbufHead + offset)) = r.rbufMem.bytes.drop (r.rbufHead + offset) :=
      List.take_of_length_le (by rw [List.length_drop, hlen])
    rw [Ring.take_drop_unroll_wrap (by omega) (by omega) (by omega), load_eq_ok (by omega),
      load_eq_ok (by omega), ok_bind, ok_bind, hrest, hlen]
    rfl

/-- A window whose start has left the storage is copied from there. -/
private theorem rbufGet_past (hr : RingInv r S) (hsize : 2 * size < 2 ^ 63) (hlt : size < S.length)
    (hfit : offset + count ≤ size) (hstart : size < r.rbufHead + offset) :
    r.rbufGet count offset = .error .outOfBounds := by
  have hlen := r.rbufMem.length_bytes
  have hhead := r.rbufHead_le
  have hf : r.rbufFull = true := by simpa [hr.full] using hlt
  have hleft : (2 ^ 64 + size - (r.rbufHead + offset)) % 2 ^ 64 =
      2 ^ 64 + size - (r.rbufHead + offset) := by omega
  unfold Rbuf.rbufGet
  simp only [hf, if_true]
  rw [hleft, if_pos (by omega), load, if_neg (by omega)]

/-- A window of the ring is read right when it is not full, or the window starts inside. -/
theorem rbufGet_window_iff (hr : RingInv r S) (hsize : 2 * size < 2 ^ 63)
    (hfit : offset + count ≤ min S.length size) :
    r.rbufGet count offset = .ok (((S.rtake size).drop offset).take count) ↔
      S.length ≤ size ∨ r.rbufHead + offset ≤ size := by
  by_cases hle : S.length ≤ size
  · have hall : S.rtake size = S := by simp [List.rtake, hle]
    rw [hall]
    exact iff_of_true (rbufGet_of_le hr (by omega) hle (by omega)) (.inl hle)
  · by_cases hstart : r.rbufHead + offset ≤ size
    · exact iff_of_true (rbufGet_of_lt hr (by omega) (by omega) (by omega) hstart) (.inr hstart)
    · rw [rbufGet_past hr hsize (by omega) (by omega) (by omega)]
      simp [hle, hstart]

end Get

/-! ## The log in pieces -/

/-- `rlog_dump(data, count, offset)` copies `data`. A copy of no byte reads nothing, wherever it
    starts. -/
def Dumps (r : Rlog) (count offset : Nat) (data : Bytes) : Prop :=
  rlogDump r count offset = .ok data ∨ count = 0 ∧ data = []

/-- Pieces of these sizes, one behind the other from `offset` on. -/
inductive DumpsPieces (r : Rlog) : Nat → List Nat → List Bytes → Prop where
  | nil {offset : Nat} : DumpsPieces r offset [] []
  | cons {offset count : Nat} {counts : List Nat} {data : Bytes} {pieces : List Bytes}
      (h : Dumps r count offset data) (hrest : DumpsPieces r (offset + count) counts pieces) :
      DumpsPieces r offset (count :: counts) (data :: pieces)

/-- Each piece that is not empty starts inside of the storage. -/
def StartInside (r : Rlog) : Nat → List Nat → Prop
  | _, [] => True
  | offset, count :: counts =>
    (count = 0 ∨ r.rbufHead + offset ≤ rlogMaxLogBufSize) ∧ StartInside r (offset + count) counts

/-- The part of the log that is still kept. -/
def retained (msgs : List Bytes) : Bytes := (logged msgs).rtake rlogMaxLogBufSize

section Log

variable {msgs : List Bytes} {count offset : Nat} {data : Bytes} {counts : List Nat}
  {pieces : List Bytes}

/-- The size of the log, up to that of the ring. -/
private theorem rlogSize_rlogRun (msgs : List Bytes) :
    rlogSize (rlogRun msgs) = min (logged msgs).length rlogMaxLogBufSize :=
  (ringInv_rlogRun msgs).used

/-- As much is retained as the size says. -/
private theorem length_retained (msgs : List Bytes) :
    (retained msgs).length = rlogSize (rlogRun msgs) := by
  rw [rlogSize_rlogRun, retained, List.rtake, List.length_drop]
  omega

/-- One window. -/
private theorem dumps_window_iff (hfit : offset + count ≤ rlogSize (rlogRun msgs)) :
    Dumps (rlogRun msgs) count offset (((retained msgs).drop offset).take count) ↔
      count = 0 ∨ (logged msgs).length ≤ rlogMaxLogBufSize ∨
        (rlogRun msgs).rbufHead + offset ≤ rlogMaxLogBufSize := by
  rw [rlogSize_rlogRun] at hfit
  have hoffset : ¬ offset > rlogMaxLogBufSize := by omega
  have hget := rbufGet_window_iff (ringInv_rlogRun msgs) (by decide) hfit
  by_cases hzero : count = 0
  · subst hzero
    exact iff_of_true (.inr ⟨rfl, List.take_zero⟩) (.inl rfl)
  · simp only [Dumps, rlogDump, if_neg hoffset, hzero, false_and, or_false, false_or]
    exact hget

/-- Nothing else can be copied than the window. -/
private theorem Dumps.eq_window (hfit : offset + count ≤ rlogSize (rlogRun msgs))
    (h : Dumps (rlogRun msgs) count offset data) :
    data = ((retained msgs).drop offset).take count := by
  rcases h with h | ⟨rfl, rfl⟩
  · rw [rlogSize_rlogRun] at hfit
    have hinv := ringInv_rlogRun msgs
    rw [rlogDump, if_neg (by omega)] at h
    -- The window starts in front of the end of the memory, or there was no wrap.
    by_cases hgood : (logged msgs).length ≤ rlogMaxLogBufSize ∨
        (rlogRun msgs).rbufHead + offset ≤ rlogMaxLogBufSize
    · have hget := (rbufGet_window_iff hinv (by decide) hfit).mpr hgood
      exact Except.ok.inj (h.symm.trans hget)
    · -- The window starts behind it, where nothing can be read.
      rw [not_or] at hgood
      rw [rbufGet_past hinv (by decide) (by omega) (by omega) (by omega)] at h
      cases h
  · rw [List.take_zero]

/-- Pieces that are read one after the other are the window. -/
private theorem DumpsPieces.flatten_eq (h : DumpsPieces (rlogRun msgs) offset counts pieces)
    (hfit : offset + counts.sum ≤ rlogSize (rlogRun msgs)) :
    pieces.flatten = ((retained msgs).drop offset).take counts.sum := by
  induction h with
  | nil => rw [List.sum_nil, List.take_zero, List.flatten_nil]
  | @cons offset count counts data pieces h hrest ih =>
    rw [List.sum_cons] at hfit ⊢
    rw [List.flatten_cons, ih (by omega), h.eq_window (by omega), List.take_add, List.drop_drop]

/-- The pieces can be read when each starts inside. -/
private theorem exists_dumpsPieces_iff (hfit : offset + counts.sum ≤ rlogSize (rlogRun msgs)) :
    (∃ pieces, DumpsPieces (rlogRun msgs) offset counts pieces) ↔
      (logged msgs).length ≤ rlogMaxLogBufSize ∨ StartInside (rlogRun msgs) offset counts := by
  induction counts generalizing offset with
  | nil => exact iff_of_true ⟨[], .nil⟩ (.inr trivial)
  | cons count counts ih =>
    rw [List.sum_cons] at hfit
    have hfirst : offset + count ≤ rlogSize (rlogRun msgs) := by omega
    have hwindow := dumps_window_iff hfirst
    have hrest := ih (by omega : offset + count + counts.sum ≤ _)
    -- A sequence of pieces can be copied if its first piece and the rest can.
    constructor
    · intro h
      obtain ⟨pieces, hpieces⟩ := h
      cases hpieces with
      | cons h htail =>
        rw [h.eq_window (by omega), hwindow] at h
        have htail' := hrest.mp ⟨_, htail⟩
        unfold StartInside
        tauto
    · intro hgood
      have hhead : Dumps (rlogRun msgs) count offset
          (((retained msgs).drop offset).take count) := by
        rw [hwindow]
        unfold StartInside at hgood
        tauto
      obtain ⟨pieces, htail⟩ := hrest.mpr (hgood.imp_right And.right)
      exact ⟨_, .cons hhead htail⟩

end Log

/-- A window is copied exactly if the log has not yet overrun the ring, or the window starts in
    front of the end of the storage when counted from the write position; and pieces of any sizes
    can be fetched, and make up the log, exactly if that holds of each of them. -/
theorem rlogDump_window_iff (msgs : List Bytes) :
    (∀ count offset, offset + count ≤ rlogSize (rlogRun msgs) →
      (Dumps (rlogRun msgs) count offset (((retained msgs).drop offset).take count) ↔
        count = 0 ∨ (logged msgs).length ≤ rlogMaxLogBufSize ∨
          (rlogRun msgs).rbufHead + offset ≤ rlogMaxLogBufSize)) ∧
    ∀ counts, counts.sum = rlogSize (rlogRun msgs) →
      ((∃ pieces, DumpsPieces (rlogRun msgs) 0 counts pieces ∧
          pieces.flatten = retained msgs) ↔
        (logged msgs).length ≤ rlogMaxLogBufSize ∨ StartInside (rlogRun msgs) 0 counts) := by
  refine ⟨fun count offset hfit => dumps_window_iff hfit, fun counts hsum => ?_⟩
  -- For the pieces: those that are dumped follow each other from offset 0.
  have hfit : 0 + counts.sum ≤ rlogSize (rlogRun msgs) := by omega
  rw [← exists_dumpsPieces_iff hfit]
  constructor
  · intro h
    obtain ⟨pieces, hpieces, -⟩ := h
    exact ⟨pieces, hpieces⟩
  · intro h
    obtain ⟨pieces, hpieces⟩ := h
    -- Each piece is its window, so together they are the log.
    refine ⟨pieces, hpieces, ?_⟩
    rw [hpieces.flatten_eq hfit, List.drop_zero, hsum, ← length_retained,
      List.take_length]

/-- Five messages of full length: the fifth one goes around the end and leaves the write position
    at 118. -/
def fiveFull : List Bytes := List.replicate 5 (List.replicate 126 97)

/-- Five full messages wrap the ring. -/
private theorem fiveFull_facts :
    (logged fiveFull).length = 630 ∧ (rlogRun fiveFull).rbufHead = 118 := by
  decide +kernel

/-- Of 512 bytes that are kept, the last 112 cannot be fetched on their own. -/
theorem not_rlogDump_window :
    ¬ ∀ (msgs : List Bytes) (count offset : Nat), offset + count ≤ rlogSize (rlogRun msgs) →
      Dumps (rlogRun msgs) count offset (((retained msgs).drop offset).take count) := by
  intro hall
  obtain ⟨hlen, hhead⟩ := fiveFull_facts
  have hfit : 400 + 112 ≤ rlogSize (rlogRun fiveFull) := by
    rw [rlogSize_rlogRun, hlen]
    decide
  have hgood := (dumps_window_iff hfit).mp (hall fiveFull 112 400 hfit)
  rw [hlen, hhead] at hgood
  exact absurd hgood (by decide)

end Udb.Spec

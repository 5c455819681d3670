import Udb.Native.Rlog

/-!
# The log ring keeps the newest bytes

The content of the ring is the tail of everything that was logged. The zeros that
the storage starts with are treated as logged before the first message: the ring
then always shows the last 512 bytes of one stream (`RingInv.view`), and only the
counter tells how many of them are real.
-/

namespace Udb.Spec

open CMem Udb.Native

/-- The log after `rlog_init` and these calls of `rlog_printf2buf`. -/
def rlogRun (msgs : List Bytes) : Rlog := msgs.foldl rlogPrintf2buf rlogInit

/-- Everything that was logged: each message contributes its text, cut to 126 bytes. -/
def logged (msgs : List Bytes) : Bytes := msgs.flatMap rlogText

variable {size : Nat}

/-- The ring `r` after the stream `S`. -/
structure RingInv (r : Rbuf size) (S : Bytes) : Prop where
  view : Ring.unroll r.rbufMem.bytes r.rbufHead = (List.replicate size 0 ++ S).rtake size
  used : r.rbufUsedsize = min S.length size
  full : r.rbufFull = decide (size < S.length)
  head : S.length ≤ size → r.rbufHead = S.length

/-- Nothing is in the ring at first. -/
private theorem ringInv_init (size : Nat) : RingInv (Rbuf.rbufInit size) [] where
  view := by simp [Rbuf.rbufInit, Ring.unroll, List.rtake]
  used := by simp [Rbuf.rbufInit]
  full := by simp [Rbuf.rbufInit]
  head := fun _ => rfl

/-! ## Putting -/

section Put

variable {r : Rbuf size} {S data : Bytes} (h : data.length ≤ size)

/-- Storing moves the view on by the stored bytes, around the end or not. -/
private theorem unroll_rbufStore :
    Ring.unroll (r.rbufStore data h).rbufMem.bytes (r.rbufStore data h).rbufHead =
      (Ring.unroll r.rbufMem.bytes r.rbufHead ++ data).drop data.length := by
  have hlen := r.rbufMem.length_bytes
  have hhead := r.rbufHead_le
  by_cases hl : data.length ≤ size - r.rbufHead
  · -- The message fits behind the head.
    simp only [Rbuf.rbufStore, dif_pos hl, Buf.bytes_write]
    exact Ring.unroll_write (by omega)
  · -- It is stored in two pieces, the second one at the front.
    have hw := Ring.unroll_write_wrap r.rbufMem.bytes data (by omega : r.rbufHead ≤ _)
      (by omega) (by omega)
    rw [hlen] at hw
    have hfill : r.rbufHead + (data.take (size - r.rbufHead)).length = size := by
      rw [List.length_take]
      omega
    have hnil : r.rbufMem.bytes.drop size = [] := List.drop_eq_nil_of_le hlen.le
    simp only [Rbuf.rbufStore, dif_neg hl]
    rw [Buf.bytes_write, Buf.bytes_write, hfill, hnil, List.append_nil, List.take_zero,
      List.nil_append, Nat.zero_add, List.length_drop]
    exact hw

/-- The head moves on behind data that fits. -/
private theorem rbufHead_rbufStore (hfit : r.rbufHead + data.length ≤ size) :
    (r.rbufStore data h).rbufHead = r.rbufHead + data.length := by
  have hl : data.length ≤ size - r.rbufHead := by omega
  simp only [Rbuf.rbufStore, dif_pos hl]

/-- Storing leaves the counter and the flag alone. -/
private theorem rbufStore_frame : (r.rbufStore data h).rbufUsedsize = r.rbufUsedsize ∧
    (r.rbufStore data h).rbufFull = r.rbufFull := by
  unfold Rbuf.rbufStore
  dsimp only
  split <;> exact ⟨rfl, rfl⟩

/-- After storing, `rbuf_put` changes only the counter and the flag. -/
private theorem rbufPut_frame : (r.rbufPut data h).rbufMem = (r.rbufStore data h).rbufMem ∧
    (r.rbufPut data h).rbufHead = (r.rbufStore data h).rbufHead := by
  unfold Rbuf.rbufPut
  dsimp only
  split
  · exact ⟨rfl, rfl⟩
  · split <;> exact ⟨rfl, rfl⟩

/-- The counter stops at the size of the ring, which the code writes as 512, and the flag says
    that it has stopped. -/
private theorem rbufPut_count (hsize : size = 512) (hr : RingInv r S) :
    (r.rbufPut data h).rbufUsedsize = min (S ++ data).length size ∧
      (r.rbufPut data h).rbufFull = decide (size < (S ++ data).length) := by
  have hused := hr.used
  have hfull := hr.full
  obtain ⟨hu, hf⟩ := rbufStore_frame (r := r) h
  rw [List.length_append]
  by_cases hle : S.length ≤ size
  · have hf0 : r.rbufFull = false := by simpa [hfull] using hle
    have hused' : r.rbufUsedsize = S.length := by omega
    by_cases hover : size < S.length + data.length
    · -- This message passes the end.
      have hput : r.rbufPut data h =
          { r.rbufStore data h with rbufFull := true, rbufUsedsize := 512 } := by
        simp [Rbuf.rbufPut, hf0, hused', hover]
      rw [hput]
      exact ⟨by dsimp only; omega, by simp [hover]⟩
    · have hput : r.rbufPut data h =
          { r.rbufStore data h with rbufUsedsize := S.length + data.length } := by
        simp [Rbuf.rbufPut, hf0, hused', hover]
      rw [hput]
      exact ⟨by dsimp only; omega, by dsimp only; rw [hf, hf0]; simp [hover]⟩
  · -- The flag is sticky.
    have hf1 : r.rbufFull = true := by simpa [hfull] using hle
    have hput : r.rbufPut data h = r.rbufStore data h := by simp [Rbuf.rbufPut, hf1]
    rw [hput, hu, hf, hused, hf1]
    refine ⟨by omega, ?_⟩
    have : size < S.length + data.length := by omega
    simp [this]

/-- One `rbuf_put` keeps the invariant. -/
theorem RingInv.put (hsize : size = 512) (hr : RingInv r S) :
    RingInv (r.rbufPut data h) (S ++ data) := by
  obtain ⟨hmem, hhead⟩ := rbufPut_frame (r := r) h
  obtain ⟨hused, hfull⟩ := rbufPut_count h hsize hr
  refine ⟨?_, hused, hfull, fun hle => ?_⟩
  · have hz : size ≤ (List.replicate size (0 : UInt8) ++ S).length := by simp
    rw [hmem, hhead, unroll_rbufStore, hr.view, ← List.append_assoc, Ring.rtake_append_of_le hz]
  · rw [List.length_append] at hle ⊢
    have h0 := hr.head (by omega)
    rw [hhead, rbufHead_rbufStore h (by omega), h0]

end Put

/-- Every ring state that messages lead to shows the tail of what was logged. -/
theorem ringInv_rlogRun (msgs : List Bytes) : RingInv (rlogRun msgs) (logged msgs) := by
  induction msgs using List.reverseRecOn with
  | nil => exact ringInv_init _
  | append_singleton msgs msg ih =>
    -- The last message is put on the ring of those before it.
    have hrun : rlogRun (msgs ++ [msg]) = rlogPrintf2buf (rlogRun msgs) msg := by
      simp [rlogRun]
    have hlog : logged (msgs ++ [msg]) = logged msgs ++ rlogText msg := by
      simp [logged]
    rw [hrun, hlog]
    exact ih.put _ rfl

/-! ## Getting -/

section Get

variable {r : Rbuf size} {S : Bytes}

/-- Before the ring is overrun the log stands at the start of the storage. -/
theorem take_mem_of_le (hr : RingInv r S) (hle : S.length ≤ size) :
    r.rbufMem.bytes.take S.length = S := by
  have hlen := r.rbufMem.length_bytes
  have hview := hr.view
  rw [hr.head hle, Ring.unroll, List.rtake, List.length_append, List.length_replicate,
    Nat.add_sub_cancel_left, List.drop_append_of_le_length (by simpa using hle)] at hview
  exact (List.append_inj hview (by simp [hlen])).2

/-- After it was overrun the whole storage is log, from the write position around. -/
theorem unroll_of_lt (hr : RingInv r S) (hlt : size < S.length) :
    r.rbufMem.bytes.drop r.rbufHead ++ r.rbufMem.bytes.take r.rbufHead = S.rtake size := by
  have hsplit : (List.replicate size (0 : UInt8) ++ S).length - size =
      (List.replicate size (0 : UInt8)).length + (S.length - size) := by
    rw [List.length_append, List.length_replicate]
    omega
  have hview := hr.view
  rw [Ring.unroll, List.rtake, hsplit, ← List.drop_drop, List.drop_left] at hview
  exact hview

/-- Getting as many bytes as are used, from offset 0, gives the newest bytes, oldest first. -/
private theorem rbufGet_used (hsize : size < 2 ^ 64) (hr : RingInv r S) :
    r.rbufGet r.rbufUsedsize 0 = .ok (S.rtake size) := by
  have hlen := r.rbufMem.length_bytes
  have hhead := r.rbufHead_le
  rw [hr.used]
  unfold Rbuf.rbufGet
  by_cases hle : S.length ≤ size
  · -- Nothing has been overwritten yet, so the content starts at the start.
    have hf : r.rbufFull = false := by simpa [hr.full] using hle
    have hrt : S.rtake size = S := by simp [List.rtake, hle]
    have hleft : (2 ^ 64 + size - 0) % 2 ^ 64 = size := by omega
    simp only [hf, Bool.false_eq_true, if_false]
    rw [hrt, Nat.min_eq_left hle, hleft, if_pos hle, load_eq_ok (by omega), List.drop_zero,
      take_mem_of_le hr hle]
  · -- The oldest byte is the one at the write position.
    have hf : r.rbufFull = true := by simpa [hr.full] using hle
    have hview := unroll_of_lt hr (by omega)
    have hleft : (2 ^ 64 + size - r.rbufHead) % 2 ^ 64 = size - r.rbufHead := by omega
    simp only [hf, if_true, Nat.add_zero]
    rw [Nat.min_eq_right (by omega), hleft, ← hview]
    split
    · -- The write position is at the start, so one copy does it.
      have h0 : r.rbufHead = 0 := by omega
      rw [h0, load_eq_ok (by omega), List.take_zero, List.append_nil, List.drop_zero,
        List.take_of_length_le hlen.le]
    · have hover : size - (size - r.rbufHead) = r.rbufHead := by omega
      have htail : (r.rbufMem.bytes.drop r.rbufHead).take (size - r.rbufHead) =
          r.rbufMem.bytes.drop r.rbufHead := List.take_of_length_le (by simp [hlen])
      rw [hover, load_eq_ok (by omega), load_eq_ok (by omega), ok_bind, ok_bind, htail]
      rfl

end Get

/-- Dumping `rlog_size()` bytes from offset 0. -/
theorem rlogDump_size {r : Rlog} {S : Bytes} (hr : RingInv r S) :
    rlogDump r (rlogSize r) 0 = .ok (S.rtake rlogMaxLogBufSize) := by
  rw [rlogDump, if_neg (by omega)]
  exact rbufGet_used (by decide) hr

end Udb.Spec

import Udb.ForStd.CMem
import Udb.ForStd.Ring

/-!
# The log ring (`rlog.c`)

Every `printf` of the server is also put into a ring of `RLOG_MAX_LOG_BUF_SIZE`
bytes (the macro in `rlog.h`), which the `msh log` command reads back.

The ring has a write position `rbuf_head`, a counter `rbuf_usedsize` and a flag
`rbuf_full` that stays set once the ring has been overrun. Pointers into the
storage are offsets from `rbuf_start`; `rbuf_head` may be equal to `rbuf_end`.
-/

namespace Udb.Native

open CMem

/-- `RLOG_MAX_LOG_BUF_SIZE` -/
def rlogMaxLogBufSize : Nat := 512

/-- `RLOG_MAX_ONE_LOG_SIZE` -/
def rlogMaxOneLogSize : Nat := 128

/-- `rbuf_t`. The storage from `rbuf_start` to `rbuf_end` is `rbufMem`. -/
structure Rbuf (rbufSize : Nat) where
  rbufUsedsize : Nat
  rbufFull : Bool
  rbufMem : Buf rbufSize
  rbufHead : Nat
  rbufHead_le : rbufHead ≤ rbufSize

namespace Rbuf

variable {size : Nat}

/-- `rbuf_init`, over zeroed static storage. -/
def rbufInit (size : Nat) : Rbuf size := ⟨0, false, Buf.zero size, 0, Nat.zero_le _⟩

/-- The two branches of `rbuf_put` that store the data: up to the end, or around it. -/
def rbufStore (r : Rbuf size) (data : Bytes) (h : data.length ≤ size) : Rbuf size :=
  let left := size - r.rbufHead
  if hl : data.length ≤ left then
    have hle : r.rbufHead + data.length ≤ size := by
      have := r.rbufHead_le
      omega
    { r with
      rbufMem := r.rbufMem.write r.rbufHead data hle
      rbufHead := r.rbufHead + data.length
      rbufHead_le := hle }
  else
    let overSize := data.length - left
    have hfill : r.rbufHead + (data.take left).length ≤ size := by
      have := r.rbufHead_le
      simp only [List.length_take]
      omega
    { r with
      rbufMem := (r.rbufMem.write r.rbufHead (data.take left) hfill).write 0 (data.drop left)
        (by simp only [List.length_drop]; omega)
      rbufHead := overSize
      rbufHead_le := by omega }

/-- `rbuf_put`. Callers put at most `size` bytes, so both copies stay in the storage. -/
def rbufPut (r : Rbuf size) (data : Bytes) (h : data.length ≤ size) : Rbuf size :=
  let r' := r.rbufStore data h
  -- Once the ring was overrun the counter stays as it is.
  if r.rbufFull then r'
  else
    let used := r.rbufUsedsize + data.length
    -- The constant stands in the source, not the size of the ring.
    if used > size then { r' with rbufFull := true, rbufUsedsize := 512 }
    else { r' with rbufUsedsize := used }

/-- `rbuf_get`: the bytes copied out. `left` is a `size_t`, so it wraps when the start of the
    window lies past the end of the storage. -/
def rbufGet (r : Rbuf size) (count offset : Nat) : Except Fault Bytes :=
  let offHead := if r.rbufFull then r.rbufHead + offset else offset
  let left := (2 ^ 64 + size - offHead) % 2 ^ 64
  if count ≤ left then load r.rbufMem.bytes offHead count
  else do
    let overSize := count - left
    let a ← load r.rbufMem.bytes offHead left
    let b ← load r.rbufMem.bytes 0 overSize
    return a ++ b

end Rbuf

/-- The server's log. -/
abbrev Rlog := Rbuf rlogMaxLogBufSize

/-- `rlog_init` -/
def rlogInit : Rlog := Rbuf.rbufInit rlogMaxLogBufSize

/-- The text that `vsnprintf` leaves in `tmp_buf`: it gets `RLOG_MAX_ONE_LOG_SIZE - 1` bytes,
    one of them for the terminator. -/
def rlogText (text : Bytes) : Bytes := cstr (text.take (rlogMaxOneLogSize - 1 - 1))

theorem length_rlogText_le (text : Bytes) : (rlogText text).length ≤ 126 :=
  (length_cstr_le _).trans (by simp [rlogMaxOneLogSize])

/-- `rlog_printf2buf`, given the formatted text. -/
def rlogPrintf2buf (r : Rlog) (text : Bytes) : Rlog :=
  r.rbufPut (rlogText text) (by
    have := length_rlogText_le text
    unfold rlogMaxLogBufSize
    omega)

/-- `RLOG_TAG` -/
def rlogTag : Bytes := ascii ""

/-- `rlog_printf`: the tag and then the text. -/
def rlogPrintf (r : Rlog) (text : Bytes) : Rlog := rlogPrintf2buf (rlogPrintf2buf r rlogTag) text

/-- `rlog_dump`: the bytes copied out. -/
def rlogDump (r : Rlog) (count offset : Nat) : Except Fault Bytes :=
  if offset > rlogMaxLogBufSize then .ok [] else r.rbufGet count offset

/-- `rlog_size` -/
def rlogSize (r : Rlog) : Nat := r.rbufUsedsize

end Udb.Native

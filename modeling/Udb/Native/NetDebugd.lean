import Udb.Native.Bridge

/-!
# The receive loop (`net_debugd.c`)

`net_debugd_entry_thread` receives a datagram into `buf`, lets `udb_debug_bridge`
answer it in `result`, sends `result_len` bytes of that back and clears both. The
buffers are on the stack and start with arbitrary content.
-/

namespace Udb.Native

open CMem

/-- `MAX_MSG_LENGTH` -/
def maxMsgLength : Nat := 1470

/-- The variables of the loop, and the server behind the bridge. -/
structure NetState where
  buf : Buf maxMsgLength
  result : Buf maxMsgLength
  resultLen : Nat
  server : Server

/-- What `recvfrom` returns: an error, or a datagram, of which at most `MAX_MSG_LENGTH` bytes
    are stored. -/
inductive Recv where
  | error
  | datagram (data : Bytes)

/-- `buf` after `recvfrom` -/
def recvInto (buf : Buf maxMsgLength) (data : Bytes) : Buf maxMsgLength :=
  buf.write 0 (data.take maxMsgLength) (by simp [maxMsgLength])

/-- The datagram passes the length check and starts with `udb`. The check lets 0 and 1 byte
    through; `buf` then shows what it held before. -/
def dispatched (buf : Buf maxMsgLength) (data : Bytes) : Bool :=
  let readc := (data.take maxMsgLength).length
  !(decide (1 < readc) && decide (readc < 64)) &&
    (recvInto buf data).bytes.take 3 == ascii "udb"

/-- Clear both buffers, as every path of the loop does at its end. -/
def NetState.cleared (t : NetState) : NetState :=
  { t with buf := Buf.zero maxMsgLength, result := Buf.zero maxMsgLength }

/-- One iteration of the loop, with the reply that was handed to `sendto`, if any. Whether
    sending succeeds makes no difference to what is left behind. -/
def netDebugdIter (os : Os) (r : Recv) (t : NetState) :
    Except Fault (NetState × Option Bytes) :=
  match r with
  | .error => pure (t.cleared, none)
  | .datagram data =>
    let readc := (data.take maxMsgLength).length
    let t := { t with buf := recvInto t.buf data }
    -- Too short for a packet: nothing is sent.
    if 1 < readc ∧ readc < 64 then pure (t.cleared, none)
    else if t.buf.bytes.take 3 = ascii "udb" then do
      let (server, resp) ←
        udbDebugBridge os udbLayerNet t.buf.bytes ⟨t.result, t.resultLen⟩ t.server
      pure ({ t.cleared with server := server, resultLen := 0 }, some resp.sent)
    else do
      let server := t.server.printf (ascii "net debugd unknow cmd\n")
      let msg := ascii "unknow cmd"
      let result ← t.result.memcpy 0 msg
      pure ({ t.cleared with server := server, resultLen := 0 },
        some (Resp.sent ⟨result, msg.length⟩))

/-! ## Runs -/

/-- Before the first datagram: the two buffers are not initialised. -/
def NetState.init (buf result : Buf maxMsgLength) (banner : List Bytes)
    (files : Bytes → Option Bytes) : NetState :=
  ⟨buf, result, 0, Server.init banner files⟩

/-- A run of the loop, between steps of the worker threads and changes of the device's files,
    with what each `recvfrom` returned and what `buf` held before it. -/
inductive NetRun (t₀ : NetState) : List (Buf maxMsgLength × Recv) → NetState → Prop where
  | start : NetRun t₀ [] t₀
  | iter {hist : List (Buf maxMsgLength × Recv)} {t t' : NetState} {os : Os} {r : Recv}
      {reply : Option Bytes} (hrun : NetRun t₀ hist t)
      (h : netDebugdIter os r t = .ok (t', reply)) : NetRun t₀ (hist ++ [(t.buf, r)]) t'
  | worker {hist : List (Buf maxMsgLength × Recv)} {t : NetState} {i : Nat} {e : WorkerEvent}
      {s' : Server} (hrun : NetRun t₀ hist t) (h : WorkerStep i e t.server s') :
      NetRun t₀ hist { t with server := s' }
  | files {hist : List (Buf maxMsgLength × Recv)} {t : NetState} (hrun : NetRun t₀ hist t)
      (files : Bytes → Option Bytes) :
      NetRun t₀ hist
        { t with server := { t.server with dev := { t.server.dev with files := files } } }

end Udb.Native

import Udb.Native.Event
import Udb.Native.NetDebugd

/-!
# The receive loop, exit by exit (`net_debugd.c`)

`netDebugdIter` says what an iteration leaves behind. Here the body of the loop is
written with the tests in front of the call of `udb_debug_bridge`, the outcome of
`sendto`, and each of its four exits with what that exit clears.
-/

namespace Udb.Native

open CMem

/-! ## One iteration -/

/-- The arguments of a call of `udb_debug_bridge`: the request, and `result` and `result_len` as
    they are then. -/
structure BridgeCall where
  cmd : Buf maxMsgLength
  result : Buf maxMsgLength
  resultLen : Nat

/-- The call of `udb_debug_bridge` that an iteration makes, if it makes one. -/
def netDebugdCall (r : Recv) (t : NetState) : Option BridgeCall :=
  match r with
  | .error => none
  | .datagram data =>
    let readc := (data.take maxMsgLength).length
    let buf := recvInto t.buf data
    if 1 < readc ∧ readc < 64 then none
    else if buf.bytes.take 3 = ascii "udb" then some ⟨buf, t.result, t.resultLen⟩
    else none

/-- The part between the length check and `sendto`. -/
def netDebugdAnswer (os : Os) (call : Option BridgeCall) (t : NetState) : Except Fault NetState :=
  match call with
  | some c => do
    let (server, resp) ←
      udbDebugBridge os udbLayerNet c.cmd.bytes ⟨c.result, c.resultLen⟩ t.server
    pure { t with server := server, result := resp.buf, resultLen := resp.len }
  | none => do
    let server := t.server.printf (ascii "net debugd unknow cmd\n")
    let msg := ascii "unknow cmd"
    let result ← t.result.memcpy 0 msg
    pure { t with server := server, result := result, resultLen := msg.length }

/-- One iteration, with what was handed to `sendto`. -/
def netDebugdTurn (os : Os) (r : Recv) (sendOk : Bool) (t : NetState) :
    Except Fault (NetState × Option Bytes) :=
  match r with
  | .error =>
    -- `result_len` is not set on this path.
    pure ({ t with buf := Buf.zero maxMsgLength, result := Buf.zero maxMsgLength }, none)
  | .datagram data =>
    let readc := (data.take maxMsgLength).length
    if 1 < readc ∧ readc < 64 then
      pure ({ t with buf := Buf.zero maxMsgLength, result := Buf.zero maxMsgLength }, none)
    else do
      let t ← netDebugdAnswer os (netDebugdCall r t) { t with buf := recvInto t.buf data }
      let sent := Resp.sent ⟨t.result, t.resultLen⟩
      if sendOk then
        pure ({ t with
          buf := Buf.zero maxMsgLength
          result := Buf.zero maxMsgLength
          resultLen := 0 }, some sent)
      else
        -- `sendto` failed.
        pure ({ t with
          buf := Buf.zero maxMsgLength
          result := Buf.zero maxMsgLength
          resultLen := 0 }, some sent)

/-- All exits leave behind what `netDebugdIter` says, whether sending succeeds or not. -/
theorem netDebugdTurn_eq (os : Os) (r : Recv) (sendOk : Bool) (t : NetState) :
    netDebugdTurn os r sendOk t = netDebugdIter os r t := by
  cases r with
  | error => rfl
  | datagram data =>
    simp only [netDebugdTurn, netDebugdIter, netDebugdCall]
    by_cases hshort : 1 < (data.take maxMsgLength).length ∧ (data.take maxMsgLength).length < 64
    · -- The datagram is too short for a packet.
      rw [if_pos hshort, if_pos hshort]
      rfl
    · rw [if_neg hshort, if_neg hshort, if_neg hshort]
      by_cases hudb : (recvInto t.buf data).bytes.take 3 = ascii "udb"
      · -- A packet of udb: the bridge answers it.
        rw [if_pos hudb, if_pos hudb]
        simp only [netDebugdAnswer]
        cases udbDebugBridge os udbLayerNet (recvInto t.buf data).bytes ⟨t.result, t.resultLen⟩
          t.server with
        | error f => rfl
        -- Anything else: the fixed text is the answer.
        | ok p => cases sendOk <;> rfl
      · rw [if_neg hudb, if_neg hudb]
        simp only [netDebugdAnswer]
        cases t.result.memcpy 0 (ascii "unknow cmd") with
        | error f => rfl
        | ok b => cases sendOk <;> rfl

/-! ## The loop as a machine -/

/-- What can happen to the loop and the server behind it. -/
inductive NetEvent where
  | turn (os : Os) (r : Recv) (sendOk : Bool)
  | thread (i : Nat) (input : ThreadInput)
  | files (files : Bytes → Option Bytes)

def NetEvent.isTurn : NetEvent → Bool
  | turn _ _ _ => true
  | _ => false

/-- Threads find what they can find. -/
def NetEvent.WellFormed : NetEvent → Prop
  | thread _ input => input.WellFormed
  | _ => True

/-- One event, with what was handed to `sendto`. -/
def netExec : Interleave.Machine NetState NetEvent (Option Bytes) Fault
  | .turn os r sendOk, t => netDebugdTurn os r sendOk t
  | .thread i input, t => do
    let server ← threadStep i input t.server
    pure ({ t with server := server }, none)
  | .files files, t =>
    pure ({ t with server := { t.server with dev := { t.server.dev with files := files } } }, none)

end Udb.Native

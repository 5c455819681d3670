import Udb.ForStd.StopAndWait
import Udb.Native.Bridge

/-!
# Client commands (`shell.cpp`)

Each client command sends a request, reads one reply and goes on from it, so it is
a stop-and-wait client: `next` is the request it sends and `recv` what it does
with its read buffer once the wait is over. A wait without a reply (an error, or
the receive timeout on Windows) leaves the read buffer as it was cleared.

`exec_cmd`, `msh_exec_cmd` and `pull_file` share one loop, which asks for the
announced number of bytes packet by packet.
-/

namespace Udb.Native

open CMem StopAndWait

/-! ## Buffers -/

/-- What is read of a reply has room in front of the last byte. -/
theorem take_fits (reply : Bytes) (protSize : Nat) :
    0 + (reply.take protSize).length ≤ protSize + 1 := by
  rw [List.length_take]
  omega

/-- `udb_ctrl_read(&udb_ctrl, read_buf, udb_ctrl.prot_size, &nr_read)`: a reply is stored at the
    start of `read_buf`, which is one byte longer than a packet. -/
def udbCtrlRead {protSize : Nat} (readBuf : Buf (protSize + 1)) :
    Option Bytes → Buf (protSize + 1)
  | none => readBuf
  | some reply => readBuf.write 0 (reply.take protSize) (take_fits reply protSize)

/-- `memcpy(&get_size, read_buf, sizeof(get_size))` -/
def getSizeOf {n : Nat} (readBuf : Buf n) : UInt32 := UInt32.ofNat (ofLe (readBuf.bytes.take 4))

/-- Sending a packet that had to be built first. -/
def callPacket {n : Nat} : Except Fault (Buf n) → Action Bytes
  | .error _ => .crashed
  | .ok packet => .call packet.bytes

/-! ## Command packets -/

/-- The loop that joins the arguments, each with a blank behind it, from `offset` on. -/
def packArgs {protSize : Nat} (writeBuf : Buf protSize) (offset : Nat) :
    List CString → Except Fault (Buf protSize)
  | [] => pure writeBuf
  | arg :: argv => do
    let writeBuf ← writeBuf.memcpy offset arg.bytes
    let writeBuf ← writeBuf.memcpy (offset + arg.bytes.length) (ascii " ")
    let offset := offset + (arg.bytes.length + 1)
    -- The bound is the same for every packet size.
    if offset ≥ 60 then pure writeBuf else packArgs writeBuf offset argv

/-- The packet that starts a command on channel `chan`. -/
def cmdPacket (protSize : Nat) (chan : UdbChanId) (argv : List CString) :
    Except Fault (Buf protSize) := do
  let writeBuf ← setUdbChannelHeader (Buf.zero protSize) chan
  packArgs writeBuf 4 argv

/-- The packet of `exec_cmd` -/
def execCmdPacket (protSize : Nat) (argv : List CString) : Except Fault (Buf protSize) :=
  cmdPacket protSize .runCmd argv

/-- The packet of `exec_cmd_wait` -/
def execCmdWaitPacket (protSize : Nat) (argv : List CString) : Except Fault (Buf protSize) :=
  cmdPacket protSize .runCmdWait argv

/-- The packet of `msh_exec_cmd` -/
def mshExecCmdPacket (protSize : Nat) (argv : List CString) : Except Fault (Buf protSize) :=
  cmdPacket protSize .mshCmd argv

/-! ## The pull loop -/

/-- The packet that asks for `cp_size` bytes on channel `chan`. -/
def pulloutPacket (protSize : Nat) (chan : UdbChanId) (cpSize : UInt32) :
    Except Fault (Buf protSize) := do
  let writeBuf ← setUdbChannelHeader (Buf.zero protSize) chan
  writeBuf.memcpy 4 (le32 cpSize)

/-- `cp_size` of one turn of the loop. -/
def chunkSize (protSize : Nat) (getSize : UInt32) : UInt32 :=
  if getSize.toNat < protSize then getSize else UInt32.ofNat protSize

/-- What differs between the commands that share the loop: the first packet, the channel that
    is pulled, how much of `read_buf` is cleared before each pull, and what a reply adds to the
    output, given `read_buf` and `cp_size`. -/
structure PullCmd (protSize : Nat) where
  initPacket : Buf protSize
  chan : UdbChanId
  clearLen : Nat
  clearLen_le : clearLen ≤ protSize + 1
  sink : Bytes → Nat → Bytes

/-- Where the command stands. -/
inductive PullPhase where
  | init
  | pullout
  | finished
  deriving DecidableEq, Repr

/-- The variables of the command; `out` is what it has written or printed. -/
structure PullState (protSize : Nat) where
  phase : PullPhase
  getSize : UInt32
  readBuf : Buf (protSize + 1)
  out : Bytes

namespace PullCmd

variable {protSize : Nat}

/-- Both buffers cleared, nothing asked yet. -/
def init (protSize : Nat) : PullState protSize := ⟨.init, 0, Buf.zero (protSize + 1), []⟩

def next (p : PullCmd protSize) (st : PullState protSize) : Action Bytes :=
  match st.phase with
  | .init => .call p.initPacket.bytes
  | .pullout => callPacket (pulloutPacket protSize p.chan (chunkSize protSize st.getSize))
  | .finished => .finished

def recv (p : PullCmd protSize) (st : PullState protSize) (reply : Option Bytes) :
    PullState protSize :=
  match st.phase with
  | .init =>
    let readBuf := udbCtrlRead st.readBuf reply
    { st with phase := .pullout, getSize := getSizeOf readBuf, readBuf := readBuf }
  | .pullout =>
    let cleared := st.readBuf.write 0 (List.replicate p.clearLen 0)
      (by simpa using p.clearLen_le)
    let readBuf := udbCtrlRead cleared reply
    let cpSize := chunkSize protSize st.getSize
    -- The counter goes down by what was asked for, whatever came back.
    let getSize := st.getSize - cpSize
    { phase := if getSize = 0 then .finished else .pullout
      getSize := getSize
      readBuf := readBuf
      out := st.out ++ p.sink readBuf.bytes cpSize.toNat }
  | .finished => st

/-- The command as a stop-and-wait client. -/
def client (p : PullCmd protSize) : Client (PullState protSize) Bytes Bytes := ⟨p.next, p.recv⟩

end PullCmd

/-- `printf("%s", read_buf)` -/
def printReply (readBuf : Bytes) (_cpSize : Nat) : Bytes := cstr readBuf

/-- `exec_cmd`, once its first packet is built. -/
def execCmd {protSize : Nat} (packet : Buf protSize) : PullCmd protSize where
  initPacket := packet
  chan := .runCmdPullout
  clearLen := protSize
  clearLen_le := by omega
  sink := printReply

/-- `msh_exec_cmd`, once its first packet is built. -/
def mshExecCmd {protSize : Nat} (packet : Buf protSize) : PullCmd protSize where
  initPacket := packet
  chan := .mshCmdPullout
  clearLen := protSize
  clearLen_le := by omega
  sink := printReply

/-! ## The wait loop -/

/-- Where `exec_cmd_wait` stands. -/
inductive WaitPhase where
  | init
  | poll
  | finished
  deriving DecidableEq, Repr

/-- The packet that `exec_cmd_wait` polls with. -/
def waitPulloutPacket (protSize : Nat) : Except Fault (Buf protSize) :=
  setUdbChannelHeader (Buf.zero protSize) .runCmdWaitPullout

/-- The variables of `exec_cmd_wait`; `out` is what it has printed. -/
structure WaitState (protSize : Nat) where
  phase : WaitPhase
  readBuf : Buf (protSize + 1)
  out : Bytes

/-- `exec_cmd_wait`, once its first packet is built. -/
structure WaitCmd (protSize : Nat) where
  initPacket : Buf protSize

namespace WaitCmd

variable {protSize : Nat}

/-- Both buffers cleared, nothing asked yet. -/
def init (protSize : Nat) : WaitState protSize := ⟨.init, Buf.zero (protSize + 1), []⟩

def next (p : WaitCmd protSize) (st : WaitState protSize) : Action Bytes :=
  match st.phase with
  | .init => .call p.initPacket.bytes
  | .poll => callPacket (waitPulloutPacket protSize)
  | .finished => .finished

def recv (_p : WaitCmd protSize) (st : WaitState protSize) (reply : Option Bytes) :
    WaitState protSize :=
  match st.phase with
  | .init =>
    let readBuf := udbCtrlRead st.readBuf reply
    { st with
      phase := if readBuf.bytes.head? = some 1 then .poll else .finished
      readBuf := readBuf }
  | .poll =>
    let cleared := st.readBuf.write 0 (List.replicate protSize 0) (by simp)
    let readBuf := udbCtrlRead cleared reply
    { phase := if readBuf.bytes.head? = some 1 then .finished else .poll
      readBuf := readBuf
      out := st.out ++ cstr (readBuf.bytes.drop 1) }
  | .finished => st

/-- The command as a stop-and-wait client. -/
def client (p : WaitCmd protSize) : Client (WaitState protSize) Bytes Bytes := ⟨p.next, p.recv⟩

end WaitCmd

/-! ## Transport -/

/-- The server behind a lossless transport: a fault ends it. -/
def serveLayer (os : Os) (layer : UInt8) : StopAndWait.Server Server Bytes Bytes :=
  fun s packet => (request os layer packet s).toOption

end Udb.Native

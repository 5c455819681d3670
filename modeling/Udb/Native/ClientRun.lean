import Udb.Native.ClientFile
import Udb.Native.Sysfs

/-!
# Whole client commands (`shell.cpp`, `file.cpp`, `raw.cpp`)

A command gets the words behind its name, builds its first packet in `write_buf` and
goes on with what its transport gives it. Stores outside of `write_buf` are faults
of the builders. `dumphex` reads a buffer; most of its calls are compiled only with
`DEBUG`, which no build file defines, and those of `raw_set` always.
-/

namespace Udb.Native

open CMem StopAndWait

/-! ## The length of a reply -/

/-- How `udb_ctrl_read` reads. -/
inductive Driver where
  | usbdevfs
  | v4l2
  | udp
  deriving DecidableEq, Repr

/-- `*BytesReturned`: the result of `ioctl` or `recvfrom`, which is -1 when it fails, in an
    `unsigned long`. The V4L2 driver has the size of the buffer in every case. -/
def bytesReturned (driver : Driver) (size : Nat) (reply : Option Bytes) : UInt64 :=
  match driver, reply with
  | .v4l2, _ => UInt64.ofNat size
  | _, none => UInt64.ofNat (2 ^ 64 - 1)
  | _, some data => UInt64.ofNat (data.take size).length

/-- `dumphex(data, size)`: the bytes that it prints. -/
def dumphex (data : Bytes) (size : UInt32) : Except Fault Bytes := load data 0 size.toNat

/-! ## Raw packets -/

/-- The loop of `raw_set`: one byte for each argument, from `i` on. -/
def rawSetLoop {protSize : Nat} (writeBuf : Buf protSize) (i : Nat) :
    List CString → Except Fault (Buf protSize)
  | [] => pure writeBuf
  | arg :: argv => do
    let writeBuf ← writeBuf.memcpy i [(strtoul arg.bytes 16).toUInt8]
    rawSetLoop writeBuf (i + 1) argv

/-- `raw_set`, with `outcomes` what its reads end with: it makes one. What it prints is what was
    sent and what came back. -/
def rawSet (driver : Driver) (protSize : Nat) (argv : List CString)
    (outcomes : List (Option Bytes)) : Except Fault (Bytes × Bytes) := do
  let writeBuf ← rawSetLoop (Buf.zero protSize) 0 argv
  match outcomes with
  -- It is still waiting.
  | [] => pure ([], [])
  | reply :: _ => do
    let readBuf := udbCtrlRead (Buf.zero (protSize + 1)) reply
    let nrRead := bytesReturned driver protSize reply
    let sent ← dumphex writeBuf.bytes (UInt64.ofNat protSize).toUInt32
    let got ← dumphex readBuf.bytes nrRead.toUInt32
    pure (sent, got)

/-! ## All commands -/

/-- The commands with an argument vector. -/
inductive ClientCmd where
  | execCmd
  | execCmdWait
  | mshExecCmd
  | pullFile
  | pushFile
  | rawSet
  deriving DecidableEq, Repr

/-- The run of a client once its first packet is built. -/
def runClient {σ : Type} (cl : Client σ Bytes Bytes) (c : σ) (outcomes : List (Option Bytes)) :
    Except Fault Unit :=
  if survives cl c outcomes then pure () else .error .outOfBounds

/-- A command with its words, as far as the outcomes of its reads go. `file` is the content of the
    local file, if it can be opened. -/
def ClientCmd.run (cmd : ClientCmd) (driver : Driver) (protSize : Nat) (argv : List CString)
    (file : Option Bytes) (outcomes : List (Option Bytes)) : Except Fault Unit :=
  match cmd with
  | .execCmd => do
    let packet ← execCmdPacket protSize argv
    runClient (Udb.Native.execCmd packet).client (PullCmd.init protSize) outcomes
  | .execCmdWait => do
    let packet ← execCmdWaitPacket protSize argv
    runClient (WaitCmd.mk packet).client (WaitCmd.init protSize) outcomes
  | .mshExecCmd => do
    let packet ← mshExecCmdPacket protSize argv
    runClient (Udb.Native.mshExecCmd packet).client (PullCmd.init protSize) outcomes
  | .pullFile =>
    match argv, file with
    | _ :: devPath :: _, some _ => do
      let packet ← pullFilePacket protSize devPath
      runClient (Udb.Native.pullFile packet).client (PullCmd.init protSize) outcomes
    | _, _ => pure ()
  | .pushFile =>
    match argv, file with
    | _ :: devPath :: _, some content => do
      let packet ← pushFilePacket protSize (UInt32.ofNat content.length) devPath
      runClient (PushCmd.mk packet).client (PushCmd.init content) outcomes
    -- The usage is printed, or that the file cannot be opened.
    | _, _ => pure ()
  | .rawSet => do
    let _ ← Udb.Native.rawSet driver protSize argv outcomes
    pure ()

end Udb.Native

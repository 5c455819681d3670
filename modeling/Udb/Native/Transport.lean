import Udb.Native.Event

/-!
# The buffers of the transports

`udb_debug_bridge` works in place on the buffer that a transport has received a
packet into, and `RUN_CMD_WAIT` hands its thread a pointer into that buffer. The
buffer belongs to the transport: the next packet is stored over the command, and
the receive loop clears it, whether the thread has read the command or not.

`Daemon` is the server with these buffers. Its events are those of `exec`, except
that a thread that starts finds its command where its pointer points, and that
transports also store to their buffers between two calls.
-/

namespace Udb.Native

open CMem

/-- The server, the buffers of its transports, and the pointer of the last thread. -/
structure Daemon where
  server : Server
  /-- What the buffer of each transport holds. -/
  buf : UInt8 → Bytes
  /-- The transport whose buffer `arg` of the last thread points into. -/
  arg : UInt8

/-- The string that `arg` shows: `cmd` of `udb_debug_runcmd_wait_thread`. -/
def Daemon.cmd (d : Daemon) : Except Fault Bytes := cstrAt (d.buf d.arg) udbCmdPkgContentOffset

/-- What a thread finds in one step, besides its command. -/
inductive WorkerInput where
  | start (os : Os)
  | line (os : Os) (buffer : Bytes)
  | eof
  | exit

/-- The step of the thread at place `i`. One that is still to start reads its command. -/
def WorkerInput.read (d : Daemon) (i : Nat) : WorkerInput → Except Fault ThreadInput
  | .start os =>
    if d.server.workers[i]? = some .created then d.cmd.map (.start os) else pure (.start os [])
  | .line os buffer => pure (.line os buffer)
  | .eof => pure .eof
  | .exit => pure .exit

/-- What can happen to the server and its buffers. -/
inductive DaemonEvent where
  /-- A transport calls `udb_debug_bridge` with the packet in its buffer. -/
  | request (os : Os) (layer : UInt8) (cmd : Bytes)
  /-- A transport receives into its buffer, or clears it, for the session of `RUN_CMD_WAIT` or for
      another client. -/
  | store (waits : Bool) (layer : UInt8) (buf : Bytes)
  | worker (i : Nat) (input : WorkerInput)
  | printf (text : Bytes)
  | files (files : Bytes → Option Bytes)

/-- What the event leaves in the buffer of a transport. -/
def DaemonEvent.stored : DaemonEvent → Option (UInt8 × Bytes)
  | .request _ layer cmd => some (layer, cmd)
  | .store _ layer buf => some (layer, buf)
  | _ => none

/-- The event of the server behind it, if there is one. -/
def DaemonEvent.toEvent (d : Daemon) : DaemonEvent → Except Fault (Option Event)
  | .request os layer cmd => pure (some (.request os layer cmd))
  | .store _ _ _ => pure none
  | .worker i input => do
    let input ← input.read d i
    pure (some (.thread i input))
  | .printf text => pure (some (.printf text))
  | .files contents => pure (some (.files contents))

/-- The buffers after the event. -/
def Daemon.receive (d : Daemon) (e : DaemonEvent) : Daemon :=
  match e.stored with
  | some (layer, cmd) => { d with buf := Function.update d.buf layer cmd }
  | none => d

/-- The pointer after the event: `pthread_create` gets a pointer into the buffer of the request. -/
def Daemon.setArg (d : Daemon) (e : DaemonEvent) (server : Server) : Daemon :=
  match e with
  | .request _ layer _ =>
    if d.server.workers.length < server.workers.length then { d with arg := layer } else d
  | _ => d

/-- One event, with the reply if it is a request. -/
def daemonExec : Interleave.Machine Daemon DaemonEvent (Option Bytes) Fault := fun e d => do
  match ← e.toEvent d with
  | none => pure (d.receive e, none)
  | some event => do
    let (server, o) ← exec event d.server
    pure ({ (d.receive e).setArg e server with server := server }, o)

/-- Before the first packet: the buffers hold anything. -/
def Daemon.init (banner : List Bytes) (files : Bytes → Option Bytes) (buf : UInt8 → Bytes)
    (arg : UInt8) : Daemon :=
  ⟨Server.init banner files, buf, arg⟩

/-- A transport hands over a buffer of the protocol size, and `fgets` returns what it can. -/
def DaemonEvent.WellFormed : DaemonEvent → Prop
  | .request _ layer cmd => cmd.length = layerProtSize layer
  | .worker _ (.line _ buffer) => buffer ≠ [] ∧ buffer.length < 1024
  | _ => True

/-- Threads can be created. -/
def DaemonEvent.Creates : DaemonEvent → Prop
  | .request os _ _ => os.pthreadCreate = true
  | _ => True

end Udb.Native

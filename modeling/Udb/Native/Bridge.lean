import Udb.Native.File

/-!
# Dispatch (`udb_debug.c`)

Authentication, the `msh` commands, and `udb_debug_bridge`, which every transport
calls with its layer, the request and its reply buffer.

`Step` is the whole server as a state machine: a request through any layer, one
step of a worker thread, a message that another part of the program logs, or a
change of the device's files by someone else.
-/

namespace Udb.Native

open CMem

variable {n : Nat}

/-! ## Authentication -/

/-- The key that `udb_debug_auth` compares with. -/
def authKey : Bytes := ascii "0303060303070701"

/-- `udb_debug_auth` -/
def udbDebugAuth (buf : Bytes) (resp : Resp n) (s : Server) : Except Fault (Server × Resp n) :=
  -- `strncmp` stops at a NUL, but the key has none, so all 16 bytes count.
  if strncmpEq (buf.drop 4) authKey 16 then do
    let resp ← resp.answer (ascii "AUTHOK") s.udbProtSize
    pure ({ s with udbAuthOk := true }, resp)
  else do
    let resp ← resp.answer (ascii "AUTHNO") s.udbProtSize
    pure (s, resp)

/-! ## The `msh` commands -/

/-- The end of both `msh` commands: `msg` is copied to the buffer and announced. -/
def mshStore (msg : Bytes) (resp : Resp n) (s : Server) : Except Fault (Server × Resp n) := do
  let mshcmdBuf ← s.mshcmdBuf.memcpy 0 msg
  let nr := UInt32.ofNat msg.length
  let resp ← resp.answer (le32 nr) s.udbProtSize
  pure ({ s with
    mshcmdBuf := mshcmdBuf
    udbMshcmdCtrl := { s.udbMshcmdCtrl with usedSize := nr, cpOffset := 0 } }, resp)

/-- `udb_debug_msh_cmd_help` -/
def udbDebugMshCmdHelp (resp : Resp n) (s : Server) : Except Fault (Server × Resp n) :=
  mshStore (ascii "not support msh cmd\n\n") resp s

/-- `udb_debug_msh_cmd_log` -/
def udbDebugMshCmdLog (resp : Resp n) (s : Server) : Except Fault (Server × Resp n) := do
  let msg ← rlogDump s.rlog (rlogSize s.rlog) 0
  mshStore msg resp s

/-- The choice of the command. One that is neither empty nor `log` stores nothing. -/
def mshCommand (cmd : Bytes) (resp : Resp n) (s : Server) : Except Fault (Server × Resp n) :=
  if cmd.headD 0 = 0 then udbDebugMshCmdHelp resp s
  else if strncmpEq cmd (ascii "log") 3 then udbDebugMshCmdLog resp s
  else pure (s, resp)

/-- The first assignments of `udb_debug_msh`. -/
def mshPoint (s : Server) : Server :=
  { s with
    udbMshcmdCtrl :=
      { s.udbMshcmdCtrl with pullout := .buf, totalSize := UInt32.ofNat mshcmdBufSize }
    mshcmdBuf := Buf.zero mshcmdBufSize }

/-- `udb_debug_msh` -/
def udbDebugMsh (buf : Bytes) (resp : Resp n) (s : Server) : Except Fault (Server × Resp n) := do
  let (s, resp) ← mshCommand (buf.drop udbCmdPkgContentOffset) resp (mshPoint s)
  pure (s, { resp with len := s.udbProtSize })

/-- `udb_debug_msh_pullout` -/
def udbDebugMshPullout (buf : Bytes) (resp : Resp n) (s : Server) :
    Except Fault (Server × Resp n) := do
  let pctrl := s.udbMshcmdCtrl
  let (moved, resp) ← pulloutCopy s.udbProtSize (pctrl.pullout.deref s.mshcmdBuf) pctrl.usedSize
    pctrl.cpOffset buf resp
  match moved with
  | none => pure (s, resp)
  | some cpOffset =>
    if cpOffset = pctrl.usedSize then
      pure ({ s with
        udbMshcmdCtrl := { pctrl with usedSize := 0, cpOffset := 0, totalSize := 0 }
        mshcmdBuf := Buf.zero mshcmdBufSize }, resp)
    else pure ({ s with udbMshcmdCtrl := { pctrl with cpOffset := cpOffset } }, resp)

/-! ## The bridge -/

/-- The `switch` of `udb_debug_bridge`, behind the authentication. -/
def dispatch (os : Os) (chanId : UInt8) (cmd : Bytes) (resp : Resp n) (s : Server) :
    Except Fault (Server × Resp n) :=
  match UdbChanId.ofByte chanId with
  | some .runCmd => udbDebugRuncmd os cmd resp s
  | some .runCmdPullout => udbDebugRuncmdPullout cmd resp s
  | some .runCmdWait => udbDebugRuncmdWait os cmd resp s
  | some .runCmdWaitPullout => udbDebugRuncmdWaitPullout os resp s
  | some .pullFileInit => udbDebugPullfileInit os cmd resp s
  | some .pullFilePullout => udbDebugPullfilePullout cmd resp s
  | some .pushFileInit => udbDebugPushfileInit os cmd resp s
  | some .pushFileProc => udbDebugPushfileProc os cmd resp s
  | some .pushFileFini => udbDebugPushfileFini resp s
  | some .mshCmd => udbDebugMsh cmd resp s
  | some .mshCmdPullout => udbDebugMshPullout cmd resp s
  | _ => do
    -- `default:` of the switch
    let resp ← resp.clear s.udbProtSize
    pure (s.printf (ascii "unknow cmd\n"), { resp with len := s.udbProtSize })

/-- The first `switch` of `udb_debug_bridge`. -/
def Server.setProtSize (s : Server) (layer : UInt8) : Server :=
  { s with udbProtSize := layerProtSize layer }

@[simp] theorem Server.udbProtSize_setProtSize (s : Server) (layer : UInt8) :
    (s.setProtSize layer).udbProtSize = layerProtSize layer := rfl

@[simp] theorem Server.udbAuthOk_setProtSize (s : Server) (layer : UInt8) :
    (s.setProtSize layer).udbAuthOk = s.udbAuthOk := rfl

/-- `udb_debug_bridge` -/
def udbDebugBridge (os : Os) (layer : UInt8) (cmd : Bytes) (resp : Resp n) (s : Server) :
    Except Fault (Server × Resp n) :=
  let s := s.setProtSize layer
  match cmd[udbCmdChannelIdOffset]? with
  | none => .error .outOfBounds
  | some chanId =>
    if chanId = UdbChanId.auth.toByte then udbDebugAuth cmd resp s
    else if s.udbAuthOk then dispatch os chanId cmd resp s
    -- Neither `resp` nor `*resp_len` is touched.
    else pure (s, resp)

/-- A request through a layer whose reply buffer has the protocol size and is cleared: the new
    state and the bytes sent back. -/
def request (os : Os) (layer : UInt8) (cmd : Bytes) (s : Server) :
    Except Fault (Server × Bytes) := do
  let (s', resp) ← udbDebugBridge os layer cmd ⟨Buf.zero (layerProtSize layer), 0⟩ s
  pure (s', resp.sent)

/-! ## The server as a state machine -/

/-- What a worker does in one step. A line is what one call of `fgets` returns. -/
inductive WorkerEvent where
  | start
  | line (buffer : Bytes)
  | eof
  | exit
  deriving DecidableEq, Repr

/-- One step of the worker at place `i`. -/
inductive WorkerStep (i : Nat) : WorkerEvent → Server → Server → Prop where
  | start {s s' : Server} {os : Os} {cmd : Bytes} {w : Worker}
      (hw : s.workers[i]? = some .created) (h : threadStart os cmd s = .ok (s', w)) :
      WorkerStep i .start s { s' with workers := s'.workers.set i w }
  | line {s s' : Server} {os : Os} {threadCmd buffer : Bytes} {w : Worker}
      (hw : s.workers[i]? = some (.reading threadCmd)) (hb : buffer ≠ [] ∧ buffer.length < 1024)
      (h : threadLine os threadCmd buffer s = .ok (s', w)) :
      WorkerStep i (.line buffer) s { s' with workers := s'.workers.set i w }
  | eof {s : Server} {threadCmd : Bytes} (hw : s.workers[i]? = some (.reading threadCmd)) :
      WorkerStep i .eof s { (threadEof s).1 with workers := s.workers.set i (threadEof s).2 }
  | exit {s : Server} (hw : s.workers[i]? = some .exiting) :
      WorkerStep i .exit s { threadExit s with workers := s.workers.eraseIdx i }

/-- One step of the system. A transport hands over a buffer of the protocol size. -/
inductive Step : Server → Server → Prop where
  | request {s s' : Server} {os : Os} {layer : UInt8} {cmd reply : Bytes}
      (hcmd : cmd.length = layerProtSize layer) (h : request os layer cmd s = .ok (s', reply)) :
      Step s s'
  | worker {s s' : Server} {i : Nat} {e : WorkerEvent} (h : WorkerStep i e s s') : Step s s'
  | printf {s : Server} (text : Bytes) : Step s (s.printf text)
  | files {s : Server} (files : Bytes → Option Bytes) :
      Step s { s with dev := { s.dev with files := files } }

/-- The states the server can be in, whatever was printed before the first request and
    whatever is on the device. -/
inductive Reachable : Server → Prop where
  | init (banner : List Bytes) (files : Bytes → Option Bytes) : Reachable (Server.init banner files)
  | step {s s' : Server} (hs : Reachable s) (h : Step s s') : Reachable s'

end Udb.Native

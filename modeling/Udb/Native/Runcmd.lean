import Udb.Native.Builtin

/-!
# Shell commands (`udb_debug.c`)

Two services share the static `runcmd_buf`. `RUN_CMD` runs a command to its end
and keeps its output for `RUN_CMD_PULLOUT`. `RUN_CMD_WAIT` starts a worker thread
that appends the output line by line, while `RUN_CMD_WAIT_PULLOUT` polls it.

The worker's steps are separate definitions: its first assignments and `popen`,
one turn of its `fgets` loop, the end of the output, and the final reset of
`single_instance`. Requests and worker steps interleave at this grain.
-/

namespace Udb.Native

open CMem

variable {n : Nat}

/-! ## Run and pull -/

/-- The part after `exec_finish`: announce `nr` bytes. -/
def execFinish (nr : Nat) (s : Server) (resp : Resp n) : Except Fault (Server × Resp n) := do
  let resp ← resp.answer (le32 (UInt32.ofNat nr)) s.udbProtSize
  pure ({ s with
    udbRuncmdCtrl := { s.udbRuncmdCtrl with usedSize := UInt32.ofNat nr, cpOffset := 0 } }, resp)

/-- The part of `udb_debug_runcmd` that hands the command to the shell. When it cannot be
    spawned nothing is announced and `*resp_len` stays as it was. -/
def runcmdShell (os : Os) (cmd : Bytes) (resp : Resp n) (s : Server) :
    Except Fault (Server × Resp n) :=
  match uvcPopen os cmd true s with
  | none =>
    let s := s.printf (ascii "popen error " ++ os.strerror ++ ascii ": cmd: " ++ cmd ++ ascii "\n")
    pure ({ s with runcmdBuf := Buf.zero udbBufSize }, resp)
  | some (out, s) => do
    let got := out.take (udbBufSize - 1)
    let runcmdBuf ← (Buf.zero udbBufSize).memcpy 0 got
    execFinish got.length { s with runcmdBuf := runcmdBuf } resp

/-- The first assignments of `udb_debug_runcmd`. -/
def runcmdPoint (s : Server) : Server :=
  { s with
    udbRuncmdCtrl :=
      { s.udbRuncmdCtrl with pullout := .buf, totalSize := UInt32.ofNat udbBufSize } }

/-- `udb_debug_runcmd` -/
def udbDebugRuncmd (os : Os) (buf : Bytes) (resp : Resp n) (s : Server) :
    Except Fault (Server × Resp n) := do
  let cmd ← cstrAt buf udbCmdPkgContentOffset
  let (ret, s) ← uvcRuncmdInputHandle os cmd (runcmdPoint s)
  -- A built-in command that was done answers with a newline, behind which the buffer keeps
  -- what it held.
  if 0 < ret then do
    let str := ascii "\n"
    let s := s.printf str
    let runcmdBuf ← s.runcmdBuf.memcpy 0 str
    execFinish str.length { s with runcmdBuf := runcmdBuf } resp
  else
    let s := if ret < 0 then s.printf (ascii "run build-in cmd Err, continue\n") else s
    runcmdShell os cmd resp s

/-- The range that a pullout request copies out of its content: offset and length, or nothing
    when the 32-bit sum lies past the end. -/
def pulloutRange (usedSize cpOffset cpSize : UInt32) : Option (Nat × Nat) :=
  if cpOffset + cpSize > usedSize then none else some (cpOffset.toNat, cpSize.toNat)

/-- The common body of the three pullout handlers, up to the advance of the cursor: the new
    `cp_offset`, if the request was granted. -/
def pulloutCopy (protSize : Nat) (mem : Option Bytes) (usedSize cpOffset : UInt32) (buf : Bytes)
    (resp : Resp n) : Except Fault (Option UInt32 × Resp n) := do
  let cpSize ← load32 buf udbCmdPkgContentOffset
  let resp ← resp.clear protSize
  match pulloutRange usedSize cpOffset cpSize with
  -- Asked for more than is left: the block of zeros is the answer.
  | none => pure (none, { resp with len := protSize })
  | some (off, len) => do
    let data ← loadPtr mem off len
    let resp ← resp.answer data protSize
    pure (some (cpOffset + cpSize), resp)

/-- `udb_debug_runcmd_pullout` -/
def udbDebugRuncmdPullout (buf : Bytes) (resp : Resp n) (s : Server) :
    Except Fault (Server × Resp n) := do
  let pctrl := s.udbRuncmdCtrl
  let (moved, resp) ← pulloutCopy s.udbProtSize (pctrl.pullout.deref s.runcmdBuf) pctrl.usedSize
    pctrl.cpOffset buf resp
  match moved with
  | none => pure (s, resp)
  | some cpOffset =>
    if cpOffset = pctrl.usedSize then
      pure ({ s with
        udbRuncmdCtrl := { pctrl with usedSize := 0, cpOffset := 0, totalSize := 0 }
        runcmdBuf := Buf.zero udbBufSize }, resp)
    else pure ({ s with udbRuncmdCtrl := { pctrl with cpOffset := cpOffset } }, resp)

/-! ## Run and wait: the requests -/

/-- `udb_debug_runcmd_wait`. The thread gets a pointer into the request buffer, so the command
    is read only when it starts. -/
def udbDebugRuncmdWait (os : Os) (buf : Bytes) (resp : Resp n) (s : Server) :
    Except Fault (Server × Resp n) :=
  let pctrl := s.udbRuncmdWaitCtrl
  -- `single_instance` is taken here and given back by the worker.
  if pctrl.singleInstance then do
    let resp ← resp.answer [0] s.udbProtSize
    let cmd ← cstrAt buf udbCmdPkgContentOffset
    let s := s.printf (ascii "runcmd: [" ++ cmd ++ ascii "] error\n")
    pure (s.printf (ascii "runcmd: only support single instance\n"), resp)
  else do
    let resp ← resp.answer [1] s.udbProtSize
    pure ({ s with
      udbRuncmdWaitCtrl :=
        { pctrl with
          pullout := .buf
          totalSize := UInt32.ofNat udbBufSize
          singleInstance := true
          tmLastUpdate := osTimeGetBootMs os
          cpOffset := 0 }
      workers := if os.pthreadCreate then s.workers ++ [.created] else s.workers }, resp)

/-- `strlen(pullout + cp_offset)` -/
def strlenAt (mem : Option Bytes) (off : Nat) : Except Fault Nat :=
  match mem with
  | none => .error .nullDeref
  | some b => (cstrAt b off).map List.length

/-- The size that `udb_debug_runcmd_wait_pullout` has chosen when it fills in the state byte:
    a packet less that byte, or what is left. -/
def waitPulloutSize (protSize : Nat) (usedSize cpOffset : UInt32) : UInt32 :=
  let cpSize := UInt32.ofNat (protSize - 1)
  let cpSize := if cpOffset + cpSize > usedSize then usedSize - cpOffset else cpSize
  if cpSize ≥ usedSize - cpOffset then usedSize - cpOffset else cpSize

/-- `pull_finish`: the command has ended and the next piece is the last. -/
def waitPullFinish (protSize : Nat) (cmdFinish : Bool) (usedSize cpOffset : UInt32) : Bool :=
  cmdFinish && decide (cpOffset + UInt32.ofNat (protSize - 1) > usedSize)

/-- `udb_debug_runcmd_wait_pullout` -/
def udbDebugRuncmdWaitPullout (os : Os) (resp : Resp n) (s : Server) :
    Except Fault (Server × Resp n) := do
  let pctrl := s.udbRuncmdWaitCtrl
  let mem := pctrl.pullout.deref s.runcmdBuf
  let resp ← resp.clear s.udbProtSize
  let pullFinish := waitPullFinish s.udbProtSize pctrl.cmdFinish pctrl.usedSize pctrl.cpOffset
  let resp ← resp.answer [pullFinish.toUInt8] s.udbProtSize
  let cpSize := waitPulloutSize s.udbProtSize pctrl.usedSize pctrl.cpOffset
  -- The piece is cut behind the next terminator, after the state byte has been decided.
  let len ← strlenAt mem pctrl.cpOffset.toNat
  let cpSize := if cpSize.toNat > len + 1 then UInt32.ofNat (len + 1) else cpSize
  let data ← loadPtr mem pctrl.cpOffset.toNat cpSize.toNat
  let respBuf ← resp.buf.memcpy 1 data
  let pctrl := { pctrl with
    pullFinish := pullFinish
    cpOffset := pctrl.cpOffset + cpSize
    tmLastUpdate := osTimeGetBootMs os }
  if pullFinish then
    pure ({ s with
      udbRuncmdWaitCtrl := { pctrl with usedSize := 0, cpOffset := 0, totalSize := 0 }
      runcmdBuf := Buf.zero udbBufSize }, { resp with buf := respBuf })
  else pure ({ s with udbRuncmdWaitCtrl := pctrl }, { resp with buf := respBuf })

/-! ## Run and wait: the worker thread -/

/-- The start of `udb_debug_runcmd_wait_thread`, up to `uvc_popen`. `cmd` is the string that
    the pointer given to the thread shows when it runs; `thread_cmd` must hold it. -/
def threadStart (os : Os) (cmd : Bytes) (s : Server) : Except Fault (Server × Worker) :=
  let s := { s with
    udbRuncmdWaitCtrl := { s.udbRuncmdWaitCtrl with usedSize := 0, cmdFinish := false } }
  if cmd.length < s.udbProtSize then
    match uvcPopen os cmd false s with
    | none => pure (s.printf (ascii "popen error: " ++ os.strerror ++ ascii "/n"), .exiting)
    | some (_, s) => pure (s, .reading cmd)
  else .error .outOfBounds

/-- `tm_diff`: the distance of the two clock values, in whichever order they are. -/
def tmDiff (tmCurr tmLastUpdate : UInt32) : UInt32 :=
  if tmCurr > tmLastUpdate then tmCurr - tmLastUpdate else tmLastUpdate - tmCurr

/-- One turn of the `fgets` loop, with `buffer` what `fgets` stored in front of its
    terminator: give up after 300 ms without a poll, or append the line. -/
def threadLine (os : Os) (threadCmd buffer : Bytes) (s : Server) :
    Except Fault (Server × Worker) :=
  let pctrl := s.udbRuncmdWaitCtrl
  if tmDiff (osTimeGetBootMs os) pctrl.tmLastUpdate > 300 then
    let s := s.printf (ascii "udb: [" ++ threadCmd ++ ascii "] timeout\n")
    pure (s.printf (ascii "udb: [" ++ threadCmd ++ ascii "] close done\n"), .exiting)
  else
    match pctrl.pullout with
    | .null => .error .nullDeref
    | .buf => do
      -- The terminator is stored with the line; there is no check against `total_size`.
      let line := cstr buffer ++ [0]
      let runcmdBuf ← s.runcmdBuf.memcpy pctrl.usedSize.toNat line
      pure ({ s with
        runcmdBuf := runcmdBuf
        udbRuncmdWaitCtrl :=
          { pctrl with usedSize := pctrl.usedSize + UInt32.ofNat line.length } },
        .reading threadCmd)

/-- The end of the output. -/
def threadEof (s : Server) : Server × Worker :=
  ({ s with udbRuncmdWaitCtrl := { s.udbRuncmdWaitCtrl with cmdFinish := true } }, .exiting)

/-- The part after `exit_handle`. -/
def threadExit (s : Server) : Server :=
  { s with udbRuncmdWaitCtrl := { s.udbRuncmdWaitCtrl with singleInstance := false } }

end Udb.Native

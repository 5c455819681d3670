import Udb.Native.Runcmd

/-!
# File transfer (`udb_debug.c`)

A pulled file is read whole into a heap block by `PULL_FILE_INIT` and handed out
by `PULL_FILE_PULLOUT`. A pushed file is opened by `PUSH_FILE_INIT`, grows with
each `PUSH_FILE_PROC` and is closed by `PUSH_FILE_FINI`.
-/

namespace Udb.Native

open CMem

variable {n : Nat}

/-! ## Pull -/

/-- `malloc(st_size)` and `fread` into it: what is not read keeps what the block held. -/
def readBlock (os : Os) (f : ReadFile) : Except Fault (Option Bytes) :=
  let got := f.data.take f.stSize
  match os.malloc f.stSize with
  -- The result of `malloc` is not checked: `fread` stores through it.
  | none => if got = [] then .ok none else .error .nullDeref
  | some garbage =>
    .ok (some (got ++ (List.range' got.length (f.stSize - got.length)).map garbage))

/-- The part of `udb_debug_pullfile_init` that opens and reads the file. -/
def pullfileRead (os : Os) (path : Bytes) (s : Server) : Except Fault Server :=
  match os.fopenRead path with
  | none =>
    let s := s.printf (ascii "Error opening input file " ++ path ++ ascii "\n")
    pure { s with udbPullfileCtrl := ⟨none, 0, 0⟩ }
  | some f => do
    let usedSize := UInt32.ofNat f.stSize
    let s := s.printf (path ++ ascii " size is " ++ fmtD usedSize ++ ascii "\n")
    let block ← readBlock os f
    pure { s with udbPullfileCtrl := ⟨block, usedSize, 0⟩ }

/-- `udb_debug_pullfile_init` -/
def udbDebugPullfileInit (os : Os) (buf : Bytes) (resp : Resp n) (s : Server) :
    Except Fault (Server × Resp n) := do
  let path ← cstrAt buf 4
  let s ← pullfileRead os path (s.call (.fopenRead path))
  let resp ← resp.answer (le32 s.udbPullfileCtrl.usedSize) s.udbProtSize
  pure (s, resp)

/-- `udb_debug_pullfile_pullout` -/
def udbDebugPullfilePullout (buf : Bytes) (resp : Resp n) (s : Server) :
    Except Fault (Server × Resp n) := do
  let pctrl := s.udbPullfileCtrl
  let (moved, resp) ← pulloutCopy s.udbProtSize pctrl.pullout pctrl.usedSize pctrl.cpOffset buf
    resp
  match moved with
  | none => pure (s, resp)
  | some cpOffset =>
    if cpOffset = pctrl.usedSize then
      -- The block is freed with the last byte.
      pure ({ s with udbPullfileCtrl := { pullout := none, usedSize := 0, cpOffset := 0 } }, resp)
    else pure ({ s with udbPullfileCtrl := { pctrl with cpOffset := cpOffset } }, resp)

/-! ## Push -/

/-- A stream that is still open is closed. -/
def pushfileClose (s : Server) : Server :=
  match s.udbPushfileCtrl.fp with
  | none => s
  | some old => { s with dev := s.dev.close old }

/-- `udb_debug_pushfile_init` -/
def udbDebugPushfileInit (os : Os) (buf : Bytes) (resp : Resp n) (s : Server) :
    Except Fault (Server × Resp n) := do
  let s := pushfileClose s
  let path ← cstrAt buf 8
  if os.fopenWrite path then do
    let fileLen ← load32 buf udbCmdPkgContentOffset
    let s := { s with udbPushfileCtrl := ⟨some path⟩, dev := s.dev.openWrite path }
    let s := s.printf
      (path ++ ascii " size is " ++ fmtD fileLen ++ ascii ", 0x" ++ fmtX fileLen ++ ascii "\n")
    let resp ← resp.answer (ascii "INITOK") s.udbProtSize
    pure (s, resp)
  else do
    let s := { s with udbPushfileCtrl := ⟨none⟩, dev := s.dev.call (.fopenWrite path) }
    let s := s.printf (ascii "Error opening output file " ++ path ++ ascii "\n")
    let resp ← resp.answer (ascii "INITNO") s.udbProtSize
    pure (s, resp)

/-- `fwrite` of `data` on `fp` -/
def fwriteFp (os : Os) (data : Bytes) (s : Server) : Except Fault Server :=
  match s.udbPushfileCtrl.fp with
  -- There is no check that a push is under way.
  | none => .error .nullDeref
  | some path => .ok { s with dev := s.dev.append path (data.take (os.fwrite data)) }

/-- The bytes that a `PUSH_FILE_PROC` packet carries: one length byte and the data behind it in
    the small packets, two and the data behind them in the large ones. -/
def procData (protSize : Nat) (buf : Bytes) : Except Fault Bytes :=
  if protSize = udbProtSizeDefault then do
    let wrlen ← load buf udbCmdPkgContentOffset 1
    load buf 5 (ofLe wrlen)
  else do
    let wrlen ← load16 buf udbCmdPkgContentOffset
    load buf 6 wrlen.toNat

/-- `udb_debug_pushfile_proc` -/
def udbDebugPushfileProc (os : Os) (buf : Bytes) (resp : Resp n) (s : Server) :
    Except Fault (Server × Resp n) := do
  let data ← procData s.udbProtSize buf
  let s ← fwriteFp os data s
  let resp ← resp.answer (ascii "PROCOK") s.udbProtSize
  pure (s, resp)

/-- `udb_debug_pushfile_fini` -/
def udbDebugPushfileFini (resp : Resp n) (s : Server) : Except Fault (Server × Resp n) :=
  match s.udbPushfileCtrl.fp with
  -- `fclose(NULL)`
  | none => .error .nullDeref
  | some path => do
    let s := { s with udbPushfileCtrl := ⟨none⟩, dev := s.dev.close path }
    let resp ← resp.answer (ascii "FINIOK") s.udbProtSize
    pure (s, resp)

end Udb.Native

import Udb.Native.Protocol
import Udb.Native.Rlog

/-!
# Server state (`udb_debug.c`)

The static variables of `udb_debug.c`, the log ring, the worker threads of
`udb_debug_runcmd_wait`, and the part of the device that the server acts on.

The build without `LOW_MEM_MODE` is modelled, so the output of a command goes to
the static `runcmd_buf`. What the operating system answers is an `Os`, given to
each request and to each worker step: nothing ties one answer to the next.
-/

namespace Udb.Native

open CMem

/-! ## The operating system -/

/-- A file opened for reading: the size that `fstat` reports, and the bytes that `fread` would
    deliver, which can be fewer or more. -/
structure ReadFile where
  stSize : Nat
  data : Bytes

/-- The program images that `uvc_popen` executes. -/
inductive Exec where
  | sh (cmd : Bytes)
  | timeoutSh (seconds : Nat) (cmd : Bytes)
  deriving DecidableEq, Repr

/-- Answers of the operating system. -/
structure Os where
  /-- `fopen(path, "r")` -/
  fopenRead : Bytes → Option ReadFile
  /-- `malloc(n)`: what the new block holds, or `none` for a null pointer. -/
  malloc : Nat → Option (Nat → UInt8)
  /-- Whether `fopen(path, "wb")` succeeds. -/
  fopenWrite : Bytes → Bool
  /-- How many bytes of an `fwrite` reach the file. -/
  fwrite : Bytes → Nat
  /-- Whether `chdir(path)` succeeds. -/
  chdir : Bytes → Bool
  /-- Spawning a program and reading its output to the end, or `none` if it cannot be spawned. -/
  spawn : Exec → Option Bytes
  /-- Whether `pthread_create` succeeds. -/
  pthreadCreate : Bool
  strerror : Bytes
  /-- `CLOCK_MONOTONIC` in milliseconds, before it is cut to 32 bits. -/
  bootMs : Nat

/-- `os_time_get_boot_ms` -/
def osTimeGetBootMs (os : Os) : UInt32 := UInt32.ofNat os.bootMs

/-- Calls into the operating system that are visible outside the server. -/
inductive SysCall where
  | spawn (e : Exec)
  | chdir (path : Bytes)
  | fopenRead (path : Bytes)
  | fopenWrite (path : Bytes)
  | fwrite (path data : Bytes)
  | fclose (path : Bytes)
  deriving DecidableEq, Repr

/-- The device around the server: its files, the streams the server holds open for writing,
    and the calls made so far. -/
structure Device where
  files : Bytes → Option Bytes
  streams : List Bytes
  calls : List SysCall

namespace Device

def call (d : Device) (c : SysCall) : Device := { d with calls := d.calls ++ [c] }

/-- A successful `fopen(path, "wb")`: the file is created or truncated. -/
def openWrite (d : Device) (path : Bytes) : Device :=
  { d with
    files := Function.update d.files path (some [])
    streams := path :: d.streams }.call (.fopenWrite path)

/-- An `fwrite` of which `data` reaches the file. -/
def append (d : Device) (path data : Bytes) : Device :=
  { d with
    files := Function.update d.files path (some ((d.files path).getD [] ++ data)) }.call
      (.fwrite path data)

/-- `fclose` -/
def close (d : Device) (path : Bytes) : Device :=
  { d with streams := d.streams.erase path }.call (.fclose path)

end Device

/-! ## Controllers -/

/-- A pointer that is null or points to the one static buffer it is ever set to. -/
inductive StaticPtr where
  | null
  | buf
  deriving DecidableEq, Repr

/-- The object a static pointer points to. -/
def StaticPtr.deref {n : Nat} : StaticPtr → Buf n → Option Bytes
  | null, _ => none
  | buf, b => some b.bytes

/-- `struct udb_runcmd_unit`, and `struct udb_mshcmd_unit`, which has the same fields. -/
structure PulloutUnit where
  pullout : StaticPtr
  totalSize : UInt32
  usedSize : UInt32
  cpOffset : UInt32
  deriving DecidableEq, Repr

/-- `struct udb_runcmd_wait_unit` -/
structure RuncmdWaitUnit where
  pullout : StaticPtr
  singleInstance : Bool
  cmdFinish : Bool
  pullFinish : Bool
  totalSize : UInt32
  usedSize : UInt32
  cpOffset : UInt32
  tmLastUpdate : UInt32
  deriving DecidableEq, Repr

/-- `struct udb_pullfile_unit`. The block that `pullout` points to is on the heap. -/
structure PullfileUnit where
  pullout : Option Bytes
  usedSize : UInt32
  cpOffset : UInt32
  deriving DecidableEq, Repr

/-- `struct udb_pushfile_unit`: the path of the stream `fp`. -/
structure PushfileUnit where
  fp : Option Bytes
  deriving DecidableEq, Repr

/-- Where a thread of `udb_debug_runcmd_wait_thread` stands: created, in the `fgets` loop, or on
    its way to the final reset of `single_instance`. -/
inductive Worker where
  | created
  | reading (threadCmd : Bytes)
  | exiting
  deriving DecidableEq, Repr

/-- `sizeof(mshcmd_buf)` -/
def mshcmdBufSize : Nat := 512

/-- The server. -/
structure Server where
  udbProtSize : Nat
  udbAuthOk : Bool
  runcmdBuf : Buf udbBufSize
  udbRuncmdCtrl : PulloutUnit
  udbRuncmdWaitCtrl : RuncmdWaitUnit
  udbPullfileCtrl : PullfileUnit
  udbPushfileCtrl : PushfileUnit
  mshcmdBuf : Buf mshcmdBufSize
  udbMshcmdCtrl : PulloutUnit
  rlog : Rlog
  workers : List Worker
  dev : Device

namespace Server

/-- `printf`, which the macro of `rlog.h` also sends to the log. -/
def printf (s : Server) (text : Bytes) : Server := { s with rlog := rlogPrintf s.rlog text }

/-- A visible call into the operating system. -/
def call (s : Server) (c : SysCall) : Server := { s with dev := s.dev.call c }

/-- Zero-initialised statics, the files on the device, and what was logged before the first
    request (`main` and `net_debugd_entry_thread` print their banners). -/
def init (banner : List Bytes) (files : Bytes → Option Bytes) : Server where
  udbProtSize := udbProtSizeDefault
  udbAuthOk := false
  runcmdBuf := Buf.zero udbBufSize
  udbRuncmdCtrl := ⟨.null, 0, 0, 0⟩
  udbRuncmdWaitCtrl := ⟨.null, false, false, false, 0, 0, 0, 0⟩
  udbPullfileCtrl := ⟨none, 0, 0⟩
  udbPushfileCtrl := ⟨none⟩
  mshcmdBuf := Buf.zero mshcmdBufSize
  udbMshcmdCtrl := ⟨.null, 0, 0, 0⟩
  rlog := banner.foldl rlogPrintf rlogInit
  workers := []
  dev := ⟨files, [], []⟩

end Server

/-! ## Replies -/

/-- The reply buffer `resp`, of `n` bytes, and `*resp_len`. Handlers get both and change them. -/
structure Resp (n : Nat) where
  buf : Buf n
  len : Nat

namespace Resp

variable {n : Nat}

/-- Store bytes at the start of the reply and set `*resp_len`. -/
def answer (r : Resp n) (b : Bytes) (len : Nat) : Except Fault (Resp n) := do
  let buf ← r.buf.memcpy 0 b
  return ⟨buf, len⟩

/-- `memset(resp, 0, len)` -/
def clear (r : Resp n) (len : Nat) : Except Fault (Resp n) := do
  let buf ← r.buf.memset0 len
  return { r with buf := buf }

/-- The bytes that are sent. -/
def sent (r : Resp n) : Bytes := r.buf.bytes.take r.len

end Resp

/-! ## Formatted numbers -/

/-- `%x` -/
def fmtX (x : UInt32) : Bytes := (Nat.toDigits 16 x.toNat).map fun c => UInt8.ofNat c.toNat

/-- `%d` of a 32-bit `int` with these bits. -/
def fmtD (x : UInt32) : Bytes :=
  let digits (n : Nat) : Bytes := (Nat.toDigits 10 n).map fun c => UInt8.ofNat c.toNat
  if x.toNat < 2 ^ 31 then digits x.toNat else ascii "-" ++ digits (2 ^ 32 - x.toNat)

end Udb.Native

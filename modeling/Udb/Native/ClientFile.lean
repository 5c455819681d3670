import Udb.Native.Client

/-!
# Client file transfer (`file.cpp`)

`pull_file` is the shared pull loop with a file behind it. `push_file` announces
the size, sends the file in chunks and ends with one more request; it never looks
into a reply.
-/

namespace Udb.Native

open CMem StopAndWait

/-! ## Pull -/

/-- The first packet of `pull_file` -/
def pullFilePacket (protSize : Nat) (devPath : CString) : Except Fault (Buf protSize) := do
  let writeBuf ← setUdbChannelHeader (Buf.zero protSize) .pullFileInit
  writeBuf.memcpy 4 devPath.bytes

/-- `fwrite(read_buf, 1, cp_size, fp)` -/
def writeReply (readBuf : Bytes) (cpSize : Nat) : Bytes := readBuf.take cpSize

/-- `pull_file`, once its first packet is built: `out` is the local file, which was opened with
    `"wb"`. -/
def pullFile {protSize : Nat} (packet : Buf protSize) : PullCmd protSize where
  initPacket := packet
  chan := .pullFilePullout
  clearLen := protSize + 1
  clearLen_le := Nat.le_refl _
  sink := writeReply

/-- A whole `pull_file` returns. The local file held `before` and holds `after`: it is opened with
    `"wb"`, which empties it, before anything is asked for. -/
def PullFileReturns (layer : UInt8) (os : Os) (localOpens : Bool) (devPath : CString)
    (before after : Option Bytes) (s s' : Server) : Prop :=
  if localOpens then
    ∃ packet, pullFilePacket (layerProtSize layer) devPath = .ok packet ∧
      ∃ st', Completes (pullFile packet).client (serveLayer os layer)
        (PullCmd.init (layerProtSize layer)) s st' s' ∧ after = some st'.out
  -- `printf("open %s error\n", local_path)`
  else after = before ∧ s' = s

/-! ## Push -/

/-- The first packet of `push_file` -/
def pushFilePacket (protSize : Nat) (fileSize : UInt32) (devPath : CString) :
    Except Fault (Buf protSize) := do
  let writeBuf ← setUdbChannelHeader (Buf.zero protSize) .pushFileInit
  let writeBuf ← writeBuf.memcpy 4 (le32 fileSize)
  writeBuf.memcpy 8 devPath.bytes

/-- `PUSH_MAX_PKG_SIZE` -/
def pushMaxPkgSize (protSize : Nat) : UInt16 :=
  if protSize = udbProtSizeDefault then UInt16.ofNat (protSize - 4 - 1)
  else UInt16.ofNat (protSize - 4 - 2)

/-- `cp_size` of one turn of the loop. -/
def pushChunkSize (protSize : Nat) (leftSize : UInt32) : UInt16 :=
  if leftSize.toNat < (pushMaxPkgSize protSize).toNat then UInt16.ofNat leftSize.toNat
  else pushMaxPkgSize protSize

/-- The number of bytes that one `fread` of the loop asks for: in the small packets the chunk
    size is cut to one byte first. -/
def pushReadSize (protSize : Nat) (cpSize : UInt16) : Nat :=
  if protSize = udbProtSizeDefault then (UInt8.ofNat cpSize.toNat).toNat else cpSize.toNat

/-- The packet of one chunk: the length field and what `fread` stored behind it. -/
def pushProcPacket (protSize : Nat) (cpSize : UInt16) (data : Bytes) :
    Except Fault (Buf protSize) := do
  let writeBuf ← setUdbChannelHeader (Buf.zero protSize) .pushFileProc
  -- One byte for the length in the small packets, two in the others.
  if protSize = udbProtSizeDefault then do
    let writeBuf ← writeBuf.memcpy 4 [UInt8.ofNat cpSize.toNat]
    writeBuf.memcpy 5 data
  else do
    let writeBuf ← writeBuf.memcpy 4 (le16 cpSize)
    writeBuf.memcpy 6 data

/-- The last packet of `push_file` -/
def pushFiniPacket (protSize : Nat) : Except Fault (Buf protSize) :=
  setUdbChannelHeader (Buf.zero protSize) .pushFileFini

/-- Where `push_file` stands. -/
inductive PushPhase where
  | init
  | proc
  | fini
  | finished
  deriving DecidableEq, Repr

/-- The variables of `push_file`; `file` is what is left to read of the local file. -/
structure PushState where
  phase : PushPhase
  leftSize : UInt32
  file : Bytes

/-- What `push_file` reads for its next chunk. -/
def pushData (protSize : Nat) (st : PushState) : Bytes :=
  st.file.take (pushReadSize protSize (pushChunkSize protSize st.leftSize))

/-- `push_file`, once its first packet is built. -/
structure PushCmd (protSize : Nat) where
  initPacket : Buf protSize

namespace PushCmd

variable {protSize : Nat}

/-- The local file is open at its start, and its size is known from `ftell`. -/
def init (content : Bytes) : PushState := ⟨.init, UInt32.ofNat content.length, content⟩

def next (p : PushCmd protSize) (st : PushState) : Action Bytes :=
  match st.phase with
  | .init => .call p.initPacket.bytes
  | .proc =>
    callPacket (pushProcPacket protSize (pushChunkSize protSize st.leftSize) (pushData protSize st))
  | .fini => callPacket (pushFiniPacket protSize)
  | .finished => .finished

def recv (_p : PushCmd protSize) (st : PushState) (_reply : Option Bytes) : PushState :=
  match st.phase with
  | .init => { st with phase := .proc }
  | .proc =>
    let cpSize := pushChunkSize protSize st.leftSize
    let leftSize := st.leftSize - UInt32.ofNat cpSize.toNat
    { phase := if leftSize = 0 then .fini else .proc
      leftSize := leftSize
      file := st.file.drop (pushReadSize protSize cpSize) }
  | .fini => { st with phase := .finished }
  | .finished => st

/-- The command as a stop-and-wait client. -/
def client (p : PushCmd protSize) : Client PushState Bytes Bytes := ⟨p.next, p.recv⟩

end PushCmd

end Udb.Native

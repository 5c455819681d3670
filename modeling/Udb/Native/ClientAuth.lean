import Udb.Native.ClientRun

/-!
# Client authentication (`auth.cpp`)

`auth` sends the key and dumps what it has sent and what came back. It draws no
conclusion from the reply.
-/

namespace Udb.Native

open CMem StopAndWait

/-- `auth_cmd` -/
def authCmd : Bytes := ascii "0303060303070701"

/-- The packet of `auth` -/
def authPacket (protSize : Nat) : Except Fault (Buf protSize) := do
  let writeBuf ← setUdbChannelHeader (Buf.zero protSize) .auth
  writeBuf.memcpy 4 authCmd

/-- The variables of `auth` -/
structure AuthState (protSize : Nat) where
  replied : Bool
  readBuf : Buf (protSize + 1)
  nrRead : UInt64

/-- `auth`, once its packet is built. -/
structure AuthCmd (protSize : Nat) where
  driver : Driver
  packet : Buf protSize

namespace AuthCmd

variable {protSize : Nat}

def init (protSize : Nat) : AuthState protSize := ⟨false, Buf.zero (protSize + 1), 0⟩

def next (p : AuthCmd protSize) (st : AuthState protSize) : Action Bytes :=
  if st.replied then .finished else .call p.packet.bytes

def recv (p : AuthCmd protSize) (st : AuthState protSize) (reply : Option Bytes) :
    AuthState protSize :=
  ⟨true, udbCtrlRead st.readBuf reply, bytesReturned p.driver protSize reply⟩

/-- The command as a stop-and-wait client. -/
def client (p : AuthCmd protSize) : Client (AuthState protSize) Bytes Bytes := ⟨p.next, p.recv⟩

end AuthCmd

/-- `dumphex(read_buf, nr_read)` -/
def AuthState.dumped {protSize : Nat} (st : AuthState protSize) : Except Fault Bytes :=
  dumphex st.readBuf.bytes st.nrRead.toUInt32

end Udb.Native

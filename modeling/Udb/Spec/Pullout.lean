import Udb.ForStd.Cursor
import Udb.Native.Bridge

/-!
# Pullout requests are reads from a stream

The three pullout handlers (`RUN_CMD_PULLOUT`, `MSH_CMD_PULLOUT` and
`PULL_FILE_PULLOUT`) keep a content and a cursor into it. `Channel` names what
each of them works on, and `handler_eq` shows that they are one program over
these parts. `Holds` relates a server state to the abstract stream of
`Udb.ForStd.Cursor`: what is still to come.

## Key results

- `request_refused` and `request_granted`: one request refines `Cursor.pull`
-/

namespace Udb.Spec

open CMem Udb.Native

variable {n : Nat}

/-! ## Requests that reach the dispatch -/

/-- Channels have different bytes. -/
theorem toByte_injective : Function.Injective UdbChanId.toByte := by
  intro a b h
  have := congrArg UdbChanId.ofByte h
  simpa using this

/-- An authenticated request on a channel other than `AUTH` is dispatched. -/
theorem request_of_auth {os : Os} {layer : UInt8} {cmd : Bytes} {s : Server} {ch : UdbChanId}
    (hauth : s.udbAuthOk = true) (hch : ch ≠ .auth) (hcmd : cmd[3]? = some ch.toByte) :
    request os layer cmd s =
      dispatch os ch.toByte cmd ⟨Buf.zero (layerProtSize layer), 0⟩
        (s.setProtSize layer) >>= fun p => pure (p.1, p.2.sent) := by
  have hne : ch.toByte ≠ UdbChanId.auth.toByte := fun h => hch (toByte_injective h)
  simp only [request, udbDebugBridge, udbCmdChannelIdOffset, hcmd, if_neg hne,
    Server.udbAuthOk_setProtSize, hauth, if_true]

/-! ## The three channels -/

/-- A channel that hands out a stored content. -/
inductive Channel where
  | runcmd
  | msh
  | pullFile
  deriving DecidableEq, Repr

namespace Channel

/-- The channel number of the pullout request. -/
def pulloutId : Channel → UdbChanId
  | runcmd => .runCmdPullout
  | msh => .mshCmdPullout
  | pullFile => .pullFilePullout

def usedSize (s : Server) : Channel → UInt32
  | runcmd => s.udbRuncmdCtrl.usedSize
  | msh => s.udbMshcmdCtrl.usedSize
  | pullFile => s.udbPullfileCtrl.usedSize

def cpOffset (s : Server) : Channel → UInt32
  | runcmd => s.udbRuncmdCtrl.cpOffset
  | msh => s.udbMshcmdCtrl.cpOffset
  | pullFile => s.udbPullfileCtrl.cpOffset

/-- What `pullout` points to. -/
def mem (s : Server) : Channel → Option Bytes
  | runcmd => s.udbRuncmdCtrl.pullout.deref s.runcmdBuf
  | msh => s.udbMshcmdCtrl.pullout.deref s.mshcmdBuf
  | pullFile => s.udbPullfileCtrl.pullout

/-- The pullout handler. -/
def handler (ch : Channel) (buf : Bytes) (resp : Resp n) (s : Server) :
    Except Fault (Server × Resp n) :=
  match ch with
  | runcmd => udbDebugRuncmdPullout buf resp s
  | msh => udbDebugMshPullout buf resp s
  | pullFile => udbDebugPullfilePullout buf resp s

/-- The state after a request that moves the cursor without reaching the end. -/
def advance (s : Server) (cpOffset : UInt32) : Channel → Server
  | runcmd => { s with udbRuncmdCtrl := { s.udbRuncmdCtrl with cpOffset := cpOffset } }
  | msh => { s with udbMshcmdCtrl := { s.udbMshcmdCtrl with cpOffset := cpOffset } }
  | pullFile => { s with udbPullfileCtrl := { s.udbPullfileCtrl with cpOffset := cpOffset } }

/-- The state after a request that reaches the end. -/
def reset (s : Server) : Channel → Server
  | runcmd => { s with
      udbRuncmdCtrl := { s.udbRuncmdCtrl with usedSize := 0, cpOffset := 0, totalSize := 0 }
      runcmdBuf := Buf.zero udbBufSize }
  | msh => { s with
      udbMshcmdCtrl := { s.udbMshcmdCtrl with usedSize := 0, cpOffset := 0, totalSize := 0 }
      mshcmdBuf := Buf.zero mshcmdBufSize }
  | pullFile => { s with udbPullfileCtrl := ⟨none, 0, 0⟩ }

/-- The three handlers are one program. -/
theorem handler_eq (ch : Channel) (buf : Bytes) (resp : Resp n) (s : Server) :
    ch.handler buf resp s =
      pulloutCopy s.udbProtSize (ch.mem s) (ch.usedSize s) (ch.cpOffset s) buf resp >>= fun p =>
        match p.1 with
        | none => pure (s, p.2)
        | some cpOffset =>
          if cpOffset = ch.usedSize s then pure (ch.reset s, p.2)
          else pure (ch.advance s cpOffset, p.2) := by
  cases ch <;> rfl

/-- Each pullout is handled by its handler. -/
theorem dispatch_pulloutId (ch : Channel) (os : Os) (cmd : Bytes) (resp : Resp n) (s : Server) :
    dispatch os ch.pulloutId.toByte cmd resp s = ch.handler cmd resp s := by
  cases ch <;> rfl

section Fields

variable (ch : Channel) (s : Server) (o : UInt32) (layer : UInt8)

@[simp] theorem usedSize_advance : ch.usedSize (ch.advance s o) = ch.usedSize s := by
  cases ch <;> rfl

@[simp] theorem cpOffset_advance : ch.cpOffset (ch.advance s o) = o := by
  cases ch <;> rfl

@[simp] theorem mem_advance : ch.mem (ch.advance s o) = ch.mem s := by
  cases ch <;> rfl

@[simp] theorem udbAuthOk_advance : (ch.advance s o).udbAuthOk = s.udbAuthOk := by
  cases ch <;> rfl

@[simp] theorem usedSize_reset : ch.usedSize (ch.reset s) = 0 := by
  cases ch <;> rfl

@[simp] theorem cpOffset_reset : ch.cpOffset (ch.reset s) = 0 := by
  cases ch <;> rfl

@[simp] theorem udbAuthOk_reset : (ch.reset s).udbAuthOk = s.udbAuthOk := by
  cases ch <;> rfl

@[simp] theorem usedSize_setProtSize :
    ch.usedSize (s.setProtSize layer) = ch.usedSize s := by
  cases ch <;> rfl

@[simp] theorem cpOffset_setProtSize :
    ch.cpOffset (s.setProtSize layer) = ch.cpOffset s := by
  cases ch <;> rfl

@[simp] theorem mem_setProtSize : ch.mem (s.setProtSize layer) = ch.mem s := by
  cases ch <;> rfl

end Fields

/-- The controller is empty. The heap block of a pulled file is also gone. -/
def Empty (s : Server) (ch : Channel) : Prop :=
  ch.usedSize s = 0 ∧ ch.cpOffset s = 0 ∧ (ch = pullFile → s.udbPullfileCtrl.pullout = none)

/-- The protocol size stores nothing. -/
theorem empty_setProtSize {ch : Channel} {s : Server} (h : ch.Empty s) (layer : UInt8) :
    ch.Empty (s.setProtSize layer) := by
  obtain ⟨hu, hc, hp⟩ := h
  exact ⟨by simpa using hu, by simpa using hc, hp⟩

/-- Behind a reset nothing is stored. -/
private theorem empty_reset (ch : Channel) (s : Server) : ch.Empty (ch.reset s) := by
  refine ⟨ch.usedSize_reset s, ch.cpOffset_reset s, ?_⟩
  rintro rfl
  rfl

end Channel

/-! ## One request -/

section Copy

variable {protSize : Nat} {mem : Option Bytes} {used cp c : UInt32} {buf : Bytes}

/-- Clearing a cleared reply. -/
theorem clear_zero (protSize len : Nat) :
    Resp.clear ⟨Buf.zero protSize, len⟩ protSize = .ok ⟨Buf.zero protSize, len⟩ := by
  simp [Resp.clear, Buf.memset0_full]

/-- An answer in a cleared reply has zeros behind it. -/
theorem answer_zero {b : Bytes} (h : b.length ≤ protSize) (len : Nat) :
    Resp.answer ⟨Buf.zero protSize, len⟩ b protSize = .ok ⟨Buf.fill protSize b h, protSize⟩ := by
  simp [Resp.answer, Buf.memcpy_zero h]

/-- What fits the smallest packets fits all of them. -/
theorem short_le (layer : UInt8) {b : Bytes} (hb : b.length ≤ 64) :
    b.length ≤ layerProtSize layer :=
  hb.trans (layerProtSize_bounds layer).1

/-- A short answer: a state byte, six letters or a size. -/
theorem answer_short (layer : UInt8) {b : Bytes} (hb : b.length ≤ 64) {len : Nat}
    (hlen : len = layerProtSize layer) :
    Resp.answer ⟨Buf.zero (layerProtSize layer), 0⟩ b len =
      .ok ⟨Buf.fill (layerProtSize layer) b (short_le layer hb), layerProtSize layer⟩ := by
  rw [hlen]
  exact answer_zero _ 0

/-- Four bytes fit every layer. -/
theorem length_le32_short (x : UInt32) : (le32 x).length ≤ 64 := by
  rw [length_le32]
  omega

/-- A full reply: what was stored, and zeros behind it. -/
theorem sent_fill {b : Bytes} (h : b.length ≤ protSize) :
    Resp.sent ⟨Buf.fill protSize b h, protSize⟩ = padTo protSize b := by
  rw [Resp.sent, Buf.bytes_fill, List.take_of_length_le (length_padTo h).le]

/-- A refused size is answered with zeros. -/
theorem pulloutCopy_refused (hc : load32 buf 4 = .ok c) (h : used < cp + c) :
    pulloutCopy protSize mem used cp buf ⟨Buf.zero protSize, 0⟩ =
      .ok (none, ⟨Buf.zero protSize, protSize⟩) := by
  simp [pulloutCopy, udbCmdPkgContentOffset, hc, clear_zero, pulloutRange, h]

/-- A granted size is answered with the content at the cursor. -/
theorem pulloutCopy_granted {data : Bytes} (hc : load32 buf 4 = .ok c) (h : cp + c ≤ used)
    (hdata : loadPtr mem cp.toNat c.toNat = .ok data) (hlen : data.length ≤ protSize) :
    pulloutCopy protSize mem used cp buf ⟨Buf.zero protSize, 0⟩ =
      .ok (some (cp + c), ⟨Buf.fill protSize data hlen, protSize⟩) := by
  have hle : ¬ cp + c > used := UInt32.not_lt.mpr h
  simp [pulloutCopy, udbCmdPkgContentOffset, hc, clear_zero, pulloutRange, hle, hdata,
    answer_zero hlen]

end Copy

/-- `rest` is what the channel has still to hand out. -/
structure Holds (ch : Channel) (s : Server) (rest : Bytes) : Prop where
  size : (ch.cpOffset s).toNat + rest.length = (ch.usedSize s).toNat
  content : rest ≠ [] → ∃ m, ch.mem s = some m ∧
    (ch.cpOffset s).toNat + rest.length ≤ m.length ∧
    (m.drop (ch.cpOffset s).toNat).take rest.length = rest

/-- A first request has stored `content` for an authenticated client: nothing of it has been
    handed out yet. -/
structure Stored (ch : Channel) (s : Server) (content : Bytes) : Prop where
  auth : s.udbAuthOk = true
  start : ch.cpOffset s = 0
  holds : Holds ch s content

/-- What a first request leaves: the content at the start of the memory, its length announced,
    the cursor at the start. -/
theorem Stored.intro {ch : Channel} {s : Server} {content : Bytes} (hauth : s.udbAuthOk = true)
    (hcp : ch.cpOffset s = 0) (hused : ch.usedSize s = UInt32.ofNat content.length)
    (hlen : content.length < 2 ^ 32)
    (hmem : content ≠ [] → ∃ b, ch.mem s = some (content ++ b)) : Stored ch s content := by
  refine ⟨hauth, hcp, ?_, fun hne => ?_⟩
  · rw [hcp, hused, UInt32.toNat_ofNat_of_lt' hlen, UInt32.toNat_zero, Nat.zero_add]
  · obtain ⟨b, hb⟩ := hmem hne
    refine ⟨content ++ b, hb, ?_, ?_⟩
    · rw [hcp, UInt32.toNat_zero, List.length_append]
      omega
    · rw [hcp, UInt32.toNat_zero, List.drop_zero, List.take_left]

section Request

variable {ch : Channel} {s : Server} {rest cmd : Bytes} {c : UInt32} {os : Os} {layer : UInt8}

/-- The bytes of a granted request. -/
theorem Holds.loadPtr (h : Holds ch s rest) (hc : c.toNat ≤ rest.length) :
    loadPtr (ch.mem s) (ch.cpOffset s).toNat c.toNat = .ok (rest.take c.toNat) := by
  by_cases hr : rest = []
  · -- Nothing is left, so nothing is loaded, wherever the pointer points.
    subst hr
    have h0 : c.toNat = 0 := by simpa using hc
    rw [h0]
    rfl
  · -- What is left stands behind the cursor.
    obtain ⟨m, hm, hle, htake⟩ := h.content hr
    rw [hm, loadPtr_eq_ok (by omega)]
    congr 1
    conv_rhs => rw [← htake]
    rw [List.take_take, Nat.min_eq_left hc]

/-- The 32-bit sum of a request that does not ask for too much. -/
theorem Holds.toNat_add (h : Holds ch s rest) (hc : c.toNat ≤ rest.length) :
    (ch.cpOffset s + c).toNat = (ch.cpOffset s).toNat + c.toNat := by
  have hs := h.size
  have hu := (ch.usedSize s).toNat_lt
  rw [UInt32.toNat_add, Nat.mod_eq_of_lt (by omega)]

/-- The request of a pullout is a call of its handler. -/
theorem pullout_request_eq (hauth : s.udbAuthOk = true)
    (hcmd : cmd[3]? = some ch.pulloutId.toByte) :
    request os layer cmd s =
      ch.handler cmd ⟨Buf.zero (layerProtSize layer), 0⟩
        (s.setProtSize layer) >>= fun p => pure (p.1, p.2.sent) := by
  rw [request_of_auth hauth (by cases ch <;> decide) hcmd, Channel.dispatch_pulloutId]

/-- A request for more than is left gets a block of zeros and changes nothing but the protocol
    size, as long as the 32-bit sum does not wrap. -/
theorem request_refused (hauth : s.udbAuthOk = true) (h : Holds ch s rest)
    (hcmd : cmd[3]? = some ch.pulloutId.toByte) (hc : load32 cmd 4 = .ok c)
    (hlt : rest.length < c.toNat) (hwrap : (ch.cpOffset s).toNat + c.toNat < 2 ^ 32) :
    request os layer cmd s = .ok (s.setProtSize layer,
      List.replicate (layerProtSize layer) 0) := by
  have hgt : ch.usedSize s < ch.cpOffset s + c := by
    have hs := h.size
    rw [UInt32.lt_iff_toNat_lt, UInt32.toNat_add, Nat.mod_eq_of_lt hwrap]
    omega
  rw [pullout_request_eq hauth hcmd, Channel.handler_eq]
  rw [Channel.mem_setProtSize, Channel.usedSize_setProtSize, Channel.cpOffset_setProtSize,
    Server.udbProtSize_setProtSize, pulloutCopy_refused hc hgt]
  simp [Resp.sent]

/-- The state after a granted request for `c` bytes. -/
def afterPull (ch : Channel) (layer : UInt8) (c : UInt32) (s : Server) : Server :=
  if ch.cpOffset s + c = ch.usedSize s then ch.reset (s.setProtSize layer)
  else ch.advance (s.setProtSize layer) (ch.cpOffset s + c)

/-- A request for no more than is left, and no more than a packet holds, gets exactly that. -/
theorem request_granted (hauth : s.udbAuthOk = true) (h : Holds ch s rest)
    (hcmd : cmd[3]? = some ch.pulloutId.toByte) (hc : load32 cmd 4 = .ok c)
    (hle : c.toNat ≤ rest.length) (hp : c.toNat ≤ layerProtSize layer) :
    request os layer cmd s =
      .ok (afterPull ch layer c s, padTo (layerProtSize layer) (rest.take c.toNat)) := by
  have hsum := h.toNat_add hle
  have hsize := h.size
  -- The sum does not wrap, so the comparison is that of the natural numbers.
  have hcp : ch.cpOffset s + c ≤ ch.usedSize s := by
    rw [UInt32.le_iff_toNat_le, hsum]
    omega
  have hlen : (rest.take c.toNat).length ≤ layerProtSize layer := by simp; omega
  rw [pullout_request_eq hauth hcmd, Channel.handler_eq]
  rw [Channel.mem_setProtSize, Channel.usedSize_setProtSize, Channel.cpOffset_setProtSize,
    Server.udbProtSize_setProtSize, pulloutCopy_granted hc hcp (h.loadPtr hle) hlen]
  simp only [ok_bind, afterPull]
  split <;> simp only [pure_eq_ok, ok_bind, sent_fill hlen]

/-- A granted request leaves the rest of the stream. -/
theorem Holds.afterPull (h : Holds ch s rest) (hle : c.toNat ≤ rest.length) :
    Holds ch (afterPull ch layer c s) (rest.drop c.toNat) := by
  have hsum := h.toNat_add hle
  have hsize := h.size
  have hlen : (rest.drop c.toNat).length = rest.length - c.toNat := List.length_drop
  unfold Spec.afterPull
  split
  · -- The end is reached: nothing is left and the controller is reset.
    rename_i heq
    have hnil : rest.drop c.toNat = [] := by
      have := congrArg UInt32.toNat heq
      apply List.drop_eq_nil_of_le
      omega
    rw [hnil]
    exact ⟨by simp, fun hn => absurd rfl hn⟩
  · -- The content is the same, and the cursor has moved.
    refine ⟨?_, fun hne => ?_⟩
    · rw [Channel.cpOffset_advance, Channel.usedSize_advance, Channel.usedSize_setProtSize, hsum,
        hlen]
      omega
    · have hr : rest ≠ [] := by
        rintro rfl
        simp at hne
      obtain ⟨m, hm, hmle, htake⟩ := h.content hr
      refine ⟨m, by rw [Channel.mem_advance, Channel.mem_setProtSize, hm], ?_, ?_⟩
      · rw [Channel.cpOffset_advance, hsum, hlen]
        omega
      · rw [Channel.cpOffset_advance, hsum, hlen, ← List.drop_drop, ← List.drop_take, htake]

/-- The controller is empty after the last byte. -/
theorem empty_afterPull (h : Holds ch s rest) (hle : c.toNat = rest.length) :
    ch.Empty (afterPull ch layer c s) := by
  have hsum := h.toNat_add (c := c) (by omega)
  have hsize := h.size
  have heq : ch.cpOffset s + c = ch.usedSize s := by
    rw [← UInt32.toNat_inj, hsum]
    omega
  unfold Spec.afterPull
  rw [if_pos heq]
  exact ch.empty_reset _

@[simp] theorem udbAuthOk_afterPull (ch : Channel) (layer : UInt8) (c : UInt32) (s : Server) :
    (afterPull ch layer c s).udbAuthOk = s.udbAuthOk := by
  unfold afterPull
  split <;> simp

end Request

end Udb.Spec

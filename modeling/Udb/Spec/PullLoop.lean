import Udb.Native.ClientFile
import Udb.Spec.Pullout

/-!
# The client's pull loop gets the whole content

The loop that `exec_cmd`, `msh_exec_cmd` and `pull_file` share counts down from
the announced size, while the server moves a cursor up. Both stay in step: before
each turn the client's counter is the length of what the channel still holds.

## Key results

- `pullLoop_completes`: from any turn the loop ends, with the rest of the content
  appended to the output and the controller empty
- `pullCmd_completes`: the same for a whole command, from its first request
-/

namespace Udb.Spec

open CMem StopAndWait Udb.Native

/-! ## Packets -/

section Packets

variable {protSize : Nat} {chan : UdbChanId}

/-- The header of a packet that was cleared. -/
theorem setUdbChannelHeader_zero (h : 4 ≤ protSize) :
    setUdbChannelHeader (Buf.zero protSize) chan =
      .ok (Buf.fill protSize (channelHeader chan) h) :=
  Buf.memcpy_zero (x := channelHeader chan) h

/-- The packet of a pullout fits every layer. -/
private theorem length_pullout_header (h : 8 ≤ protSize) (c : UInt32) :
    (channelHeader chan ++ le32 c).length ≤ protSize := by
  simpa using h

/-- The packet of a pullout. -/
theorem pulloutPacket_eq (h : 8 ≤ protSize) (c : UInt32) :
    pulloutPacket protSize chan c =
      .ok (Buf.fill protSize (channelHeader chan ++ le32 c) (length_pullout_header h c)) := by
  rw [pulloutPacket, setUdbChannelHeader_zero (by omega), ok_bind]
  exact Buf.memcpy_fill rfl _ _

/-- The channel byte of a packet. -/
theorem getElem?_header (b : Bytes) : (padTo protSize (channelHeader chan ++ b))[3]? =
    some chan.toByte := by
  rw [padTo, List.append_assoc]
  rfl

/-- The size field of a pullout packet. -/
theorem load32_header (c : UInt32) :
    load32 (padTo protSize (channelHeader chan ++ le32 c)) 4 = .ok c :=
  load32_append (channelHeader chan) c _

end Packets

/-! ## Reading a reply -/

section Read

variable {protSize : Nat}

/-- The read buffer after a full reply: the byte behind the packet is untouched. -/
theorem bytes_udbCtrlRead {readBuf : Buf (protSize + 1)} {reply : Bytes}
    (hr : readBuf.bytes.drop protSize = [0]) (hlen : reply.length = protSize) :
    (udbCtrlRead readBuf (some reply)).bytes = reply ++ [0] := by
  have htake : reply.take protSize = reply := List.take_of_length_le hlen.le
  simp [udbCtrlRead, Buf.bytes_write, htake, hlen, hr]

/-- Clearing the read buffer, whole or up to its last byte, leaves that byte 0. -/
theorem drop_cleared {readBuf : Buf (protSize + 1)} {len : Nat}
    (hr : readBuf.bytes.drop protSize = [0]) (hlen : len = protSize ∨ len = protSize + 1)
    (h : 0 + (List.replicate len (0 : UInt8)).length ≤ protSize + 1) :
    (readBuf.write 0 (List.replicate len 0) h).bytes.drop protSize = [0] := by
  rcases hlen with rfl | rfl
  · simp [Buf.bytes_write, hr]
  · simp [Buf.bytes_write, List.drop_append]

/-- A reply that announces a size. -/
theorem getSizeOf_reply {b : Buf (protSize + 1)} {x : UInt32}
    (hb : b.bytes = padTo protSize (le32 x) ++ [0]) : getSizeOf b = x := by
  have htake : b.bytes.take 4 = le32 x := by
    rw [hb, padTo, List.append_assoc, List.take_append_of_le_length (by simp)]
    rfl
  rw [getSizeOf, htake, ofLe_le32]
  simp

end Read

/-! ## The loop -/

/-- A turn asks for the rest, or for a whole packet. -/
theorem toNat_chunkSize {protSize : Nat} (hp : protSize < 2 ^ 32) (x : UInt32) :
    (chunkSize protSize x).toNat = min x.toNat protSize := by
  unfold chunkSize
  split
  · omega
  · rw [UInt32.toNat_ofNat_of_lt' hp]
    omega

section Loop

variable {layer : UInt8} {os : Os} {ch : Channel} {p : PullCmd (layerProtSize layer)}
  {content : Bytes}

/-- What each command's sink does with a full reply of bytes from the content. -/
def SinkOf (layer : UInt8) (p : PullCmd (layerProtSize layer)) (content : Bytes) : Prop :=
  ∀ data : Bytes, data <:+: content → data.length ≤ layerProtSize layer →
    p.sink (padTo (layerProtSize layer) data ++ [0]) data.length = data

/-- A NUL-free content is printed as it is: the packet's zeros, or the byte behind the packet,
    end the string. -/
theorem sinkOf_printReply (hsink : p.sink = printReply) (hnul : (0 : UInt8) ∉ content) :
    SinkOf layer p content := by
  intro data hdata _
  have hfree : (0 : UInt8) ∉ data := fun h => hnul (hdata.subset h)
  rw [hsink, printReply, padTo, List.append_assoc, cstr_append_of_not_mem hfree]
  cases layerProtSize layer - data.length with
  | zero => exact List.append_nil data
  | succ k => exact List.append_nil data

/-- The transport loses nothing: a request is served when it returns. -/
theorem serveLayer_eq_some {s s' : Server} {q r : Bytes} :
    serveLayer os layer s q = some (s', r) ↔ request os layer q s = .ok (s', r) := by
  rw [serveLayer]
  cases request os layer q s with
  | error e => simp [Except.toOption]
  | ok res => simp [Except.toOption]

/-- One turn of the loop, served. -/
theorem serve_pullout (os : Os) (layer : UInt8) {s : Server} {rest : Bytes} {c : UInt32}
    (hauth : s.udbAuthOk = true) (h : Holds ch s rest) (hle : c.toNat ≤ rest.length)
    (hp : c.toNat ≤ layerProtSize layer) :
    serveLayer os layer s
        (padTo (layerProtSize layer) (channelHeader ch.pulloutId ++ le32 c)) =
      some (afterPull ch layer c s, padTo (layerProtSize layer) (rest.take c.toNat)) := by
  rw [serveLayer_eq_some]
  exact request_granted hauth h (getElem?_header _) (load32_header c) hle hp

/-- In the loop a pullout is sent. -/
theorem next_pullout {st : PullState (layerProtSize layer)} (hst : st.phase = .pullout) :
    p.client.next st = .call (padTo (layerProtSize layer)
      (channelHeader p.chan ++ le32 (chunkSize (layerProtSize layer) st.getSize))) := by
  have hp := layerProtSize_bounds layer
  simp only [PullCmd.client, PullCmd.next, hst,
    pulloutPacket_eq (by omega : 8 ≤ layerProtSize layer), callPacket, Buf.bytes_fill]

/-- The reply to the first request sets the counter. -/
theorem recv_init (p : PullCmd (layerProtSize layer)) (x : UInt32) :
    ∃ b, p.client.recv (PullCmd.init (layerProtSize layer))
        (some (padTo (layerProtSize layer) (le32 x))) = ⟨.pullout, x, b, []⟩ ∧
      b.bytes.drop (layerProtSize layer) = [0] := by
  have hp := layerProtSize_bounds layer
  have hlen : (padTo (layerProtSize layer) (le32 x)).length = layerProtSize layer :=
    length_padTo (by rw [length_le32]; omega)
  let readBuf := udbCtrlRead (Buf.zero (layerProtSize layer + 1))
    (some (padTo (layerProtSize layer) (le32 x)))
  -- The reply is a packet, and behind it is the NUL of the buffer.
  have hread : readBuf.bytes = padTo (layerProtSize layer) (le32 x) ++ [0] :=
    bytes_udbCtrlRead (by simp) hlen
  refine ⟨readBuf, ?_, ?_⟩
  · show PullState.mk .pullout (getSizeOf readBuf) readBuf [] = _
    rw [getSizeOf_reply hread]
  · rw [hread]
    exact List.drop_left' hlen

/-- A full reply in the loop: its bytes go to the sink, and the counter goes down. -/
theorem recv_pullout (st : PullState (layerProtSize layer)) {reply : Bytes}
    (hclear : p.clearLen = layerProtSize layer ∨ p.clearLen = layerProtSize layer + 1)
    (hphase : st.phase = .pullout) (hbuf : st.readBuf.bytes.drop (layerProtSize layer) = [0])
    (hlen : reply.length = layerProtSize layer) {c : UInt32}
    (hc : c = chunkSize (layerProtSize layer) st.getSize) :
    ∃ b, p.client.recv st (some reply) =
        ⟨if st.getSize - c = 0 then .finished else .pullout, st.getSize - c, b,
          st.out ++ p.sink (reply ++ [0]) c.toNat⟩ ∧
      b.bytes.drop (layerProtSize layer) = [0] := by
  have hread := bytes_udbCtrlRead (drop_cleared hbuf hclear (by simpa using p.clearLen_le)) hlen
  refine ⟨_, ?_, by rw [hread]; exact List.drop_left' hlen⟩
  simp only [PullCmd.client, PullCmd.recv, hphase, hread, ← hc]

/-- The loop ends, with the rest of the content behind the output and an empty controller. -/
theorem pullLoop_completes (os : Os) (hchan : p.chan = ch.pulloutId)
    (hclear : p.clearLen = layerProtSize layer ∨ p.clearLen = layerProtSize layer + 1)
    (hsink : SinkOf layer p content) (rest : Bytes) (st : PullState (layerProtSize layer))
    (s : Server) (hauth : s.udbAuthOk = true) (h : Holds ch s rest) (hsuf : rest <:+ content)
    (hphase : st.phase = .pullout) (hget : st.getSize.toNat = rest.length)
    (hbuf : st.readBuf.bytes.drop (layerProtSize layer) = [0]) :
    ∃ st' s', Completes p.client (serveLayer os layer) st s st' s' ∧ st'.out = st.out ++ rest ∧
      ch.Empty s' := by
  have hp := layerProtSize_bounds layer
  -- Induction on what is left; every turn but the one for an empty content takes some of it.
  induction hn : rest.length using Nat.strong_induction_on generalizing rest st s with
  | _ k ih =>
    let c := chunkSize (layerProtSize layer) st.getSize
    have hc : c.toNat = min rest.length (layerProtSize layer) := by
      rw [← hget]
      exact toNat_chunkSize (by omega) _
    have hle : c.toNat ≤ rest.length := by omega
    have hlen : (rest.take c.toNat).length = c.toNat := by
      rw [List.length_take]
      omega
    have hserve := serve_pullout os layer hauth h hle (by omega)
    rw [← hchan] at hserve
    have hfull : (padTo (layerProtSize layer) (rest.take c.toNat)).length = layerProtSize layer :=
      length_padTo (by omega)
    obtain ⟨b, hrecv, hbuf₁⟩ := recv_pullout st hclear hphase hbuf hfull rfl
    have hdata : p.sink (padTo (layerProtSize layer) (rest.take c.toNat) ++ [0]) c.toNat =
        rest.take c.toNat := by
      have := hsink (rest.take c.toNat)
        ((List.take_prefix _ _).isInfix.trans hsuf.isInfix) (by omega)
      rwa [hlen] at this
    rw [hdata] at hrecv
    have hget₁ : (st.getSize - c).toNat = rest.length - c.toNat := by
      rw [UInt32.toNat_sub_of_le _ _ (by rw [UInt32.le_iff_toNat_le]; omega), hget]
    have hzero : st.getSize - c = 0 ↔ rest.length = c.toNat := by
      rw [← UInt32.toNat_inj, hget₁, UInt32.toNat_zero]
      omega
    by_cases hz : rest.length = c.toNat
    · -- The last turn.
      rw [if_pos (hzero.mpr hz)] at hrecv
      refine ⟨_, _, .call (next_pullout hphase) hserve (.finished (by rw [hrecv]; rfl)), ?_,
        empty_afterPull h hz.symm⟩
      rw [hrecv, List.take_of_length_le (by omega)]
    · rw [if_neg (fun h0 => hz (hzero.mp h0))] at hrecv
      obtain ⟨st', s', hrun, hout, hemp⟩ := ih (rest.drop c.toNat).length
        (by rw [List.length_drop]; omega) (rest.drop c.toNat) _ (afterPull ch layer c s)
        (by simpa using hauth) (h.afterPull hle) ((List.drop_suffix _ _).trans hsuf)
        (congrArg PullState.phase hrecv) (by rw [hrecv, List.length_drop]; exact hget₁)
        (by rw [hrecv]; exact hbuf₁) rfl
      refine ⟨st', s', .call (next_pullout hphase) hserve hrun, ?_, hemp⟩
      rw [hout, hrecv, List.append_assoc, List.take_append_drop]

/-- A whole command: once its first request has stored `content` and announced its length, it
    ends with exactly that output and an empty controller. -/
theorem pullCmd_completes (ch : Channel) (hchan : p.chan = ch.pulloutId)
    (hclear : p.clearLen = layerProtSize layer ∨ p.clearLen = layerProtSize layer + 1)
    (hsink : SinkOf layer p content) {s s₁ : Server} (hlen : content.length < 2 ^ 32)
    (hinit : request os layer p.initPacket.bytes s =
      .ok (s₁, padTo (layerProtSize layer) (le32 (UInt32.ofNat content.length))))
    (h : Stored ch s₁ content) :
    ∃ st' s', Completes p.client (serveLayer os layer) (PullCmd.init (layerProtSize layer)) s
        st' s' ∧ st'.out = content ∧ ch.Empty s' := by
  obtain ⟨b, hrecv, hbuf⟩ := recv_init p (UInt32.ofNat content.length)
  obtain ⟨st', s', hrun, hout, hemp⟩ := pullLoop_completes os hchan hclear hsink content
    ⟨.pullout, UInt32.ofNat content.length, b, []⟩ s₁ h.auth h.holds List.suffix_rfl rfl
    (UInt32.toNat_ofNat_of_lt' hlen) hbuf
  rw [← hrecv] at hrun
  refine ⟨st', s', .call rfl ?_ hrun, hout, hemp⟩
  rw [serveLayer, hinit]
  rfl

end Loop

end Udb.Spec

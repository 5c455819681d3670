import Udb.Spec.Frame
import Udb.Spec.PulloutRun

/-!
# What a pullout copies

`request_copied` says what a pullout request does for any size that a packet can
carry: it copies the range that `pulloutRange` lets through, from wherever the
channel's pointer points, into the reply. `Backed` is the invariant that the
content is at least as long as its controller says, unless there is none: a failed
`malloc` leaves a size without a block.

## Key results

- `request_copied`: the request, the range it copies, and its reply
- `backed_of_reachable`: there is as much content as the controller says
- `safeCopy_iff`: when that range lies inside content that exists, and in the reply
-/

namespace Udb.Spec

open CMem Udb.Native

variable {s s' : Server}

/-! ## The content behind a controller -/

/-- The content of the channel, where there is one, is as long as the controller says. -/
def Backed (s : Server) : Channel → Prop
  | .runcmd => s.udbRuncmdCtrl.usedSize.toNat ≤ udbBufSize
  | .msh => s.udbMshcmdCtrl.usedSize.toNat ≤ mshcmdBufSize
  | .pullFile => ∀ block, s.udbPullfileCtrl.pullout = some block →
      s.udbPullfileCtrl.usedSize.toNat ≤ block.length

/-- The part of the state that the channel works on. -/
private def Channel.part : Channel → Part
  | .runcmd => .runcmd
  | .msh => .msh
  | .pullFile => .pull

/-- A channel is backed when its part of the state is the same. -/
private theorem Backed.of_same {ch : Channel} (h : Backed s ch) (hsame : ch.part.Same s' s) :
    Backed s' ch := by
  cases ch with
  | runcmd =>
    have hctrl : s'.udbRuncmdCtrl = s.udbRuncmdCtrl := hsame
    unfold Backed
    rw [hctrl]
    exact h
  | msh =>
    unfold Backed
    rw [hsame.1]
    exact h
  | pullFile =>
    have hctrl : s'.udbPullfileCtrl = s.udbPullfileCtrl := hsame
    unfold Backed
    rw [hctrl]
    exact h

/-- The memory behind the pointer holds `used_size` bytes. -/
private theorem Backed.le_length {ch : Channel} (h : Backed s ch) {m : Bytes}
    (hm : ch.mem s = some m) :
    (ch.usedSize s).toNat ≤ m.length := by
  cases ch with
  | runcmd =>
    cases hptr : s.udbRuncmdCtrl.pullout with
    -- A null pointer is no content.
    | null => simp [Channel.mem, hptr, StaticPtr.deref] at hm
    | buf =>
      simp only [Channel.mem, hptr, StaticPtr.deref, Option.some.injEq] at hm
      rw [← hm, Buf.length_bytes]
      exact h
  | msh =>
    cases hptr : s.udbMshcmdCtrl.pullout with
    | null => simp [Channel.mem, hptr, StaticPtr.deref] at hm
    | buf =>
      simp only [Channel.mem, hptr, StaticPtr.deref, Option.some.injEq] at hm
      rw [← hm, Buf.length_bytes]
      exact h
  | pullFile => exact h m hm

section Steps

variable {n : Nat} {os : Os} {buf : Bytes} {resp resp' : Resp n} {ch : Channel}

/-- A pullout keeps its channel backed. -/
private theorem backed_handler (h : Backed s ch)
    (hok : ch.handler buf resp s = .ok (s', resp')) : Backed s' ch := by
  rcases handler_frame ch hok with rfl | ⟨o, rfl⟩ | rfl
  · exact h
  · cases ch <;> exact h
  · cases ch with
    | runcmd | msh => exact Nat.zero_le _
    | pullFile => exact nofun

/-- `RUN_CMD` stores what it announces. -/
private theorem backed_runcmd (h : Backed s .runcmd)
    (hok : udbDebugRuncmd os buf resp s = .ok (s', resp')) : Backed s' .runcmd := by
  obtain ⟨cmd, res, rlog, calls, -, -, -, rfl⟩ := udbDebugRuncmd_cases hok
  cases res with
  | builtIn => exact (by decide : (UInt32.ofNat 1).toNat ≤ udbBufSize)
  | failed => exact h
  -- The size is that of what was kept of the output.
  | output out =>
    have hlt := length_keptOutput_lt out
    show (UInt32.ofNat (keptOutput out).length).toNat ≤ udbBufSize
    rw [UInt32.toNat_ofNat_of_lt' (hlt.trans (by decide))]
    exact hlt.le

/-- So does a message for `msh`. -/
private theorem backed_mshStore {msg : Bytes} (hok : mshStore msg resp s = .ok (s', resp')) :
    Backed s' .msh := by
  obtain ⟨b, hcpy, hok⟩ := bind_eq_ok.mp hok
  obtain ⟨r, -, hok⟩ := bind_eq_ok.mp hok
  obtain ⟨rfl, -⟩ := pure_pair_eq_ok.mp hok
  obtain ⟨hfit, -⟩ := Buf.memcpy_eq_ok_iff.mp hcpy
  rw [Nat.zero_add] at hfit
  show (UInt32.ofNat msg.length).toNat ≤ mshcmdBufSize
  rw [UInt32.toNat_ofNat_of_lt' (lt_of_le_of_lt hfit (by decide))]
  exact hfit

/-- So does every `msh` command. -/
private theorem backed_msh (h : Backed s .msh)
    (hok : udbDebugMsh buf resp s = .ok (s', resp')) : Backed s' .msh := by
  obtain ⟨⟨s₁, r⟩, hcmd, hok⟩ := bind_eq_ok.mp hok
  obtain ⟨rfl, -⟩ := pure_pair_eq_ok.mp hok
  unfold mshCommand at hcmd
  split at hcmd
  · -- `help`
    exact backed_mshStore hcmd
  · split at hcmd
    · -- `log`
      obtain ⟨msg, -, hcmd⟩ := bind_eq_ok.mp hcmd
      exact backed_mshStore hcmd
    · -- Any other command stores nothing.
      obtain ⟨rfl, -⟩ := pure_pair_eq_ok.mp hcmd
      exact h

/-- The block has the size that was announced, before it is cut to 32 bits. -/
private theorem length_readBlock {f : ReadFile} {block : Bytes}
    (h : readBlock os f = .ok (some block)) : (UInt32.ofNat f.stSize).toNat ≤ block.length := by
  unfold readBlock at h
  dsimp only at h
  split at h
  · split at h <;> cases h
  · simp only [Except.ok.injEq, Option.some.injEq] at h
    rw [← h, List.length_append, List.length_map, List.length_range']
    exact (Nat.mod_le _ _).trans (by omega)

/-- A pull announces what is in its block, unless there was no memory for one. -/
private theorem backed_pullfileInit (hok : udbDebugPullfileInit os buf resp s = .ok (s', resp')) :
    Backed s' .pullFile := by
  obtain ⟨path, -, hok⟩ := bind_eq_ok.mp hok
  obtain ⟨s₁, hread, hok⟩ := bind_eq_ok.mp hok
  obtain ⟨r, -, hok⟩ := bind_eq_ok.mp hok
  obtain ⟨rfl, -⟩ := pure_pair_eq_ok.mp hok
  unfold pullfileRead at hread
  split at hread
  · -- No file: the pointer is null.
    obtain rfl := Except.ok.inj hread
    exact nofun
  · -- A file: the block has room for its size, if it is there.
    obtain ⟨block, hblock, hread⟩ := bind_eq_ok.mp hread
    obtain rfl := Except.ok.inj hread
    rintro b rfl
    exact length_readBlock hblock

/-- Every event keeps it: the content of a channel is only changed by the two requests of its
    service. -/
private theorem backed_exec {e : Event} {o : Option Bytes} (ch : Channel) (h : Backed s ch)
    (hok : exec e s = .ok (s', o)) : Backed s' ch := by
  by_cases hon : ch.part.touchedBy e = true
  · cases e with
    | thread | printf | files => cases ch <;> cases hon
    | request os layer cmd =>
      obtain ⟨reply, hreq, -⟩ := exec_request_eq_ok.mp hok
      cases hauth : s.udbAuthOk with
      | false =>
        obtain ⟨⟨s₁, r⟩, hbridge, hreq⟩ := bind_eq_ok.mp hreq
        obtain ⟨rfl, -⟩ := pure_pair_eq_ok.mp hreq
        obtain rfl := bridge_of_closed hauth hbridge
        cases ch <;> exact h
      | true =>
        obtain ⟨c, hc, hchan⟩ := onChannel_eq_true.mp hon
        have hne : c ≠ .auth := by
          rintro rfl
          revert hc
          cases ch <;> decide
        rw [request_of_auth hauth hne hchan] at hreq
        obtain ⟨⟨s₁, r⟩, hdisp, hreq⟩ := bind_eq_ok.mp hreq
        obtain ⟨rfl, -⟩ := pure_pair_eq_ok.mp hreq
        have h₀ : Backed (s.setProtSize layer) ch := by cases ch <;> exact h
        by_cases hpull : c = ch.pulloutId
        · rw [hpull, Channel.dispatch_pulloutId] at hdisp
          exact backed_handler h₀ hdisp
        · -- What is left is the first request of the service.
          cases ch with
          | runcmd =>
            have hne : c ≠ .runCmdPullout := hpull
            obtain rfl : c = .runCmd := by simpa [Channel.part, Part.ids, hne] using hc
            simp only [dispatch, UdbChanId.ofByte_toByte] at hdisp
            exact backed_runcmd h₀ hdisp
          | msh =>
            have hne : c ≠ .mshCmdPullout := hpull
            obtain rfl : c = .mshCmd := by simpa [Channel.part, Part.ids, hne] using hc
            simp only [dispatch, UdbChanId.ofByte_toByte] at hdisp
            exact backed_msh h₀ hdisp
          | pullFile =>
            have hne : c ≠ .pullFilePullout := hpull
            obtain rfl : c = .pullFileInit := by simpa [Channel.part, Part.ids, hne] using hc
            simp only [dispatch, UdbChanId.ofByte_toByte] at hdisp
            exact backed_pullfileInit hdisp
  · exact h.of_same (exec_frame _ (Bool.eq_false_iff.mpr hon) hok)

end Steps

/-- In every reachable state there is as much content as the controller says, or none. -/
theorem backed_of_reachable (h : Reachable s) (ch : Channel) : Backed s ch := by
  induction h with
  | init banner files =>
    -- Nothing is stored at the start.
    cases ch with
    | runcmd | msh => exact Nat.zero_le _
    | pullFile => exact nofun
  | step _ hst ih =>
    rcases step_iff_exec.mp (.inr hst) with rfl | ⟨e, o, -, hok⟩
    · exact ih
    · exact backed_exec ch ih hok

/-! ## The range -/

/-- The range of the content, as offset and length, that a pullout request for `cpSize` bytes
    makes the server copy into the reply. Nothing is copied before the key was sent. -/
def copied (ch : Channel) (s : Server) (cpSize : UInt32) : Option (Nat × Nat) :=
  if s.udbAuthOk then pulloutRange (ch.usedSize s) (ch.cpOffset s) cpSize else none

section Request

variable {ch : Channel} {os : Os} {layer : UInt8} {cmd : Bytes} {cpSize : UInt32}

/-- What a pullout request does: the range is copied from wherever the pointer points, and must
    fit the reply. Without a range the answer is a packet of zeros, or nothing before the key was
    sent. -/
theorem request_copied (hchan : cmd[3]? = some ch.pulloutId.toByte)
    (hsize : load32 cmd 4 = .ok cpSize) :
    request os layer cmd s =
      match copied ch s cpSize with
      | none => .ok (s.setProtSize layer,
          if s.udbAuthOk then List.replicate (layerProtSize layer) 0 else [])
      | some (off, len) => loadPtr (ch.mem s) off len >>= fun data =>
          if data.length ≤ layerProtSize layer then
            .ok (afterPull ch layer cpSize s, padTo (layerProtSize layer) data)
          else .error .outOfBounds := by
  cases hauth : s.udbAuthOk with
  | false =>
    have hne : ch.pulloutId.toByte ≠ UdbChanId.auth.toByte := by cases ch <;> decide
    simp only [request, udbDebugBridge, udbCmdChannelIdOffset, hchan, if_neg hne, copied, hauth,
      Server.udbAuthOk_setProtSize, Bool.false_eq_true, if_false, pure_eq_ok, ok_bind, Resp.sent,
      List.take_zero]
  | true =>
    rw [pullout_request_eq hauth hchan, Channel.handler_eq, Channel.mem_setProtSize,
      Channel.usedSize_setProtSize, Channel.cpOffset_setProtSize, Server.udbProtSize_setProtSize]
    simp only [copied, hauth, if_true]
    by_cases hover : ch.cpOffset s + cpSize > ch.usedSize s
    · rw [pulloutCopy_refused hsize hover, pulloutRange, if_pos hover]
      simp [Resp.sent]
    · rw [pulloutRange, if_neg hover]
      dsimp only
      cases hload : loadPtr (ch.mem s) (ch.cpOffset s).toNat cpSize.toNat with
      | error f =>
        simp only [pulloutCopy, udbCmdPkgContentOffset, hsize, ok_bind, clear_zero, pulloutRange,
          if_neg hover, hload]
        rfl
      | ok data =>
        by_cases hlen : data.length ≤ layerProtSize layer
        · rw [pulloutCopy_granted hsize (UInt32.not_lt.mp hover) hload hlen, ok_bind, ok_bind,
            if_pos hlen]
          simp only [afterPull]
          split <;> simp only [pure_eq_ok, ok_bind, sent_fill hlen]
        · -- The copy into the reply runs over its end.
          have hcpy : (Buf.zero (layerProtSize layer)).memcpy 0 data = .error .outOfBounds :=
            dif_neg (by omega)
          simp only [pulloutCopy, udbCmdPkgContentOffset, hsize, ok_bind, clear_zero, pulloutRange,
            if_neg hover, hload, Resp.answer, hcpy, if_neg hlen]
          rfl

/-- The request is answered, and what it copies into the reply lies inside the first `used_size`
    bytes of content that exists, and inside the reply. Where nothing is copied, the reply has
    zeros only. -/
def SafeCopy (ch : Channel) (os : Os) (layer : UInt8) (cmd : Bytes) (s : Server)
    (cpSize : UInt32) : Prop :=
  ∃ s' reply, request os layer cmd s = .ok (s', reply) ∧
    match copied ch s cpSize with
    | none => ∀ b ∈ reply, b = 0
    | some (off, len) => off + len ≤ (ch.usedSize s).toNat ∧ len ≤ layerProtSize layer ∧
        ∃ data, loadPtr (ch.mem s) off len = .ok data ∧ reply = padTo (layerProtSize layer) data

/-- A request that copies nothing is safe. -/
private theorem SafeCopy.of_copied_none (hchan : cmd[3]? = some ch.pulloutId.toByte)
    (hsize : load32 cmd 4 = .ok cpSize) (hnone : copied ch s cpSize = none) :
    SafeCopy ch os layer cmd s cpSize := by
  have hreq := @request_copied s ch os layer cmd cpSize hchan hsize
  rw [hnone] at hreq
  refine ⟨_, _, hreq, ?_⟩
  rw [hnone]
  intro b hb
  split at hb
  · exact List.eq_of_mem_replicate hb
  · cases hb

/-- A request that copies a range is safe if the range is in the content, there is content, and
    the reply has room. -/
private theorem safeCopy_of_copied_some (hback : Backed s ch)
    (hchan : cmd[3]? = some ch.pulloutId.toByte) (hsize : load32 cmd 4 = .ok cpSize) {off len : Nat}
    (hsome : copied ch s cpSize = some (off, len)) (hle : off + len ≤ (ch.usedSize s).toNat) :
    SafeCopy ch os layer cmd s cpSize ↔
      len ≤ layerProtSize layer ∧ (len = 0 ∨ ch.mem s ≠ none) := by
  have hreq := @request_copied s ch os layer cmd cpSize hchan hsize
  rw [hsome] at hreq
  dsimp only at hreq
  constructor
  · rintro ⟨s', reply, -, hsafe⟩
    rw [hsome] at hsafe
    obtain ⟨-, hfit, data, hload, -⟩ := hsafe
    refine ⟨hfit, ?_⟩
    -- Nothing but 0 bytes can be loaded through a null pointer.
    by_cases hzero : len = 0
    · exact .inl hzero
    · right
      intro hnull
      simp [loadPtr, hnull, hzero] at hload
  · rintro ⟨hfit, hptr⟩
    -- The content is as long as the controller says, so the range can be loaded.
    obtain ⟨data, hload, hlen⟩ : ∃ data, loadPtr (ch.mem s) off len = .ok data ∧
        data.length ≤ layerProtSize layer := by
      cases hmem : ch.mem s with
      | none =>
        obtain rfl : len = 0 := hptr.resolve_right fun hne => hne hmem
        exact ⟨[], rfl, Nat.zero_le _⟩
      | some m =>
        have hroom := hback.le_length hmem
        refine ⟨_, loadPtr_eq_ok (by omega), ?_⟩
        rw [List.length_take]
        omega
    rw [hload, ok_bind, if_pos hlen] at hreq
    refine ⟨_, _, hreq, ?_⟩
    rw [hsome]
    exact ⟨hle, hfit, data, hload, rfl⟩

end Request

/-! ## The result -/

/-- A sum that wraps ends up below the cursor, so it passes the comparison with the end. -/
theorem wrapped_le {used cp c : UInt32} (hle : cp ≤ used) (hwrap : 2 ^ 32 ≤ cp.toNat + c.toNat) :
    cp + c ≤ used := by
  have hcp := cp.toNat_lt
  have hc := c.toNat_lt
  rw [UInt32.le_iff_toNat_le] at hle ⊢
  rw [UInt32.toNat_add]
  omega

/-- A pullout request is safe exactly when its sum does not wrap, and it asks for more than is
    left, or for no more than a reply holds of content that exists. -/
theorem safeCopy_iff (ch : Channel) (os : Os) (layer : UInt8) (s : Server) (hs : Reachable s)
    (cmd : Bytes) (cpSize : UInt32) (hchan : cmd[3]? = some ch.pulloutId.toByte)
    (hsize : load32 cmd 4 = .ok cpSize) :
    SafeCopy ch os layer cmd s cpSize ↔
      (ch.cpOffset s).toNat + cpSize.toNat < 2 ^ 32 ∧
        ((ch.usedSize s).toNat < (ch.cpOffset s).toNat + cpSize.toNat ∨
          cpSize.toNat ≤ layerProtSize layer ∧ (cpSize.toNat = 0 ∨ ch.mem s ≠ none)) := by
  have hc := cpSize.toNat_lt
  cases hauth : s.udbAuthOk with
  | false =>
    -- Nothing is copied, and with an empty controller the condition always holds.
    obtain ⟨hu, hcp⟩ := (closed_of_reachable hs hauth).2 ch
    refine iff_of_true (.of_copied_none hchan hsize ?_) ?_
    · simp [copied, hauth]
    · rw [hu, hcp, UInt32.toNat_zero]
      omega
  | true =>
    have hle := (inv_of_reachable hs).cursor ch
    have hcopied : copied ch s cpSize =
        pulloutRange (ch.usedSize s) (ch.cpOffset s) cpSize := if_pos hauth
    unfold pulloutRange at hcopied
    by_cases hwrap : 2 ^ 32 ≤ (ch.cpOffset s).toNat + cpSize.toNat
    · -- The range that is let through ends behind every 32-bit size.
      rw [if_neg (UInt32.not_lt.mpr (wrapped_le hle hwrap))] at hcopied
      have hlt := (ch.usedSize s).toNat_lt
      refine iff_of_false ?_ (by omega)
      rintro ⟨s', reply, -, hsafe⟩
      rw [hcopied] at hsafe
      have hinside := hsafe.1
      omega
    · have hsum : (ch.cpOffset s + cpSize).toNat = (ch.cpOffset s).toNat + cpSize.toNat := by
        rw [UInt32.toNat_add, Nat.mod_eq_of_lt (by omega)]
      by_cases hgt : ch.cpOffset s + cpSize > ch.usedSize s
      · have hgt' := UInt32.lt_iff_toNat_lt.mp hgt
        rw [if_pos hgt] at hcopied
        exact iff_of_true (.of_copied_none hchan hsize hcopied) (by omega)
      · have hgt' := UInt32.le_iff_toNat_le.mp (UInt32.not_lt.mp hgt)
        rw [if_neg hgt] at hcopied
        rw [safeCopy_of_copied_some (backed_of_reachable hs ch) hchan hsize hcopied (by omega)]
        constructor
        · intro h
          exact ⟨by omega, .inr h⟩
        · rintro ⟨-, hlarge | h⟩
          · omega
          · exact h

section Examples

/-- A file of 1471 bytes that has just been pulled over the network. -/
private theorem exists_pulled : ∃ s, Reachable s ∧
    Stored .pullFile s (List.replicate 1471 7) := by
  let content : Bytes := List.replicate 1471 7
  have hlen : content.length = 1471 := List.length_replicate
  let packet := padTo 1470 (channelHeader .pullFileInit ++ ascii "f")
  -- The server reads the path in its packet, and the file in full.
  have hpath : cstrAt packet 4 = .ok (ascii "f") :=
    cstrAt_padTo (a := channelHeader .pullFileInit) (by decide) (by decide)
  have hcmd : packet[3]? = some UdbChanId.pullFileInit.toByte := rfl
  have hread : ReadsInFull (willing content []) (ascii "f") content :=
    ⟨rfl, fun _ => by simp [willing]⟩
  obtain ⟨s, hreq, hstored⟩ := request_pullfileInit udbLayerNet (s := authed fun _ => none) rfl
    hcmd hpath (by rw [hlen]; decide) hread
  exact ⟨s, .step (reachable_authed _) (.request (length_padTo (by decide)) hreq), hstored⟩

/-- The pullout of `c` bytes. -/
def pullOf (c : UInt32) : Bytes := padTo 1470 (channelHeader .pullFilePullout ++ le32 c)

/-- The packet is a pullout of the file channel. -/
private theorem chan_pullOf (c : UInt32) :
    (pullOf c)[3]? = some Channel.pullFile.pulloutId.toByte := getElem?_header _

/-- It asks for this many bytes. -/
private theorem load32_pullOf (c : UInt32) : load32 (pullOf c) 4 = .ok c := load32_header c

/-- Of that file a full packet is handed out, and a request for more than there is refused. -/
theorem safeCopy_iff_pulled : ∃ s, Reachable s ∧ (Channel.pullFile.usedSize s).toNat = 1471 ∧
    SafeCopy .pullFile (willing [] []) udbLayerNet (pullOf 1470) s 1470 ∧
    SafeCopy .pullFile (willing [] []) udbLayerNet (pullOf 1472) s 1472 := by
  obtain ⟨s, hs, hstored⟩ := exists_pulled
  have hsize := hstored.holds.size
  -- The pull has just begun.
  have hcp : (Channel.pullFile.cpOffset s).toNat = 0 := by
    rw [hstored.start]
    rfl
  rw [List.length_replicate, hcp, Nat.zero_add] at hsize
  have hmem : Channel.pullFile.mem s ≠ none := by
    obtain ⟨m, hm, -⟩ := hstored.holds.content (by decide)
    rw [hm]
    exact Option.some_ne_none m
  refine ⟨s, hs, hsize.symm, ?_, ?_⟩
  · refine (safeCopy_iff .pullFile _ _ s hs _ _ (chan_pullOf _) (load32_pullOf _)).mpr
      ⟨?_, .inr ⟨?_, .inr hmem⟩⟩
    · rw [hcp]
      decide
    · decide
  · refine (safeCopy_iff .pullFile _ _ s hs _ _ (chan_pullOf _) (load32_pullOf _)).mpr ⟨?_, .inl ?_⟩
    · rw [hcp]
      decide
    · rw [hcp, ← hsize]
      decide

/-- All of the file is asked for at once: one byte more than the reply buffer has. -/
theorem not_safeCopy_reply :
    ¬ ∀ (ch : Channel) (os : Os) (layer : UInt8) (s : Server), Reachable s →
      ∀ (cmd : Bytes) (cpSize : UInt32), cmd[3]? = some ch.pulloutId.toByte →
        load32 cmd 4 = .ok cpSize → SafeCopy ch os layer cmd s cpSize := by
  intro hall
  obtain ⟨s, hs, hstored⟩ := exists_pulled
  have hsize := hstored.holds.size
  rw [List.length_replicate, hstored.start] at hsize
  obtain ⟨s', reply, -, hsafe⟩ := hall .pullFile (willing [] []) udbLayerNet s hs (pullOf 1471) 1471
    (chan_pullOf _) (load32_pullOf _)
  -- The request is for as much as is there, so it is granted.
  have hle : ¬ (0 : UInt32) + 1471 > Channel.pullFile.usedSize s := by
    rw [gt_iff_lt, UInt32.lt_iff_toNat_lt, ← hsize]
    decide
  have hcopied : copied .pullFile s 1471 = some (0, 1471) := by
    rw [copied, hstored.auth, if_pos rfl, pulloutRange, hstored.start, if_neg hle]
    rfl
  rw [hcopied] at hsafe
  have hfit := hsafe.2.1
  revert hfit
  decide

end Examples

end Udb.Spec

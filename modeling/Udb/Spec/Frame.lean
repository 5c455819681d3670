import Udb.Native.Event
import Udb.Spec.Runcmd
import Udb.Spec.WaitRun

/-!
# What each handler leaves alone

The state of the server falls into parts, one for each service. A handler changes
its own part, the log and what the device has seen of calls; the frame lemmas say
this for each handler, as the old state with some fields replaced. `exec_frame`
collects them: an event that does not touch a part leaves it as it was.

## Key results

- `exec_frame`: an event leaves the parts alone that it does not touch
-/

namespace Udb.Spec

open CMem Udb.Native

variable {n : Nat} {os : Os} {s s' : Server} {buf : Bytes} {resp resp' : Resp n}

/-! ## Handlers -/

/-- A pullout moves the cursor, or resets the controller, or does nothing. -/
theorem handler_frame (ch : Channel) (h : ch.handler buf resp s = .ok (s', resp')) :
    s' = s ∨ (∃ o, s' = ch.advance s o) ∨ s' = ch.reset s := by
  rw [Channel.handler_eq] at h
  obtain ⟨⟨moved, r⟩, -, h⟩ := bind_eq_ok.mp h
  cases moved with
  | none => exact .inl (pure_pair_eq_ok.mp h).1.symm
  | some o =>
    dsimp only at h
    -- The cursor has come to the end, or it has moved.
    split at h
    · exact .inr (.inr (pure_pair_eq_ok.mp h).1.symm)
    · exact .inr (.inl ⟨o, (pure_pair_eq_ok.mp h).1.symm⟩)

/-- `RUN_CMD_WAIT` changes its control block, the threads and the log. -/
private theorem udbDebugRuncmdWait_frame (h : udbDebugRuncmdWait os buf resp s = .ok (s', resp')) :
    ∃ ctrl workers rlog, s' = { s with
      udbRuncmdWaitCtrl := ctrl, workers := workers, rlog := rlog } := by
  unfold udbDebugRuncmdWait at h
  dsimp only at h
  split at h
  · obtain ⟨r, -, h⟩ := bind_eq_ok.mp h
    obtain ⟨cmd, -, h⟩ := bind_eq_ok.mp h
    exact ⟨_, _, _, (pure_pair_eq_ok.mp h).1.symm⟩
  · obtain ⟨r, -, h⟩ := bind_eq_ok.mp h
    exact ⟨_, _, _, (pure_pair_eq_ok.mp h).1.symm⟩

/-- Its pullout may clear the buffer, and changes the control block. -/
private theorem udbDebugRuncmdWaitPullout_frame
    (h : udbDebugRuncmdWaitPullout os resp s = .ok (s', resp')) :
    ∃ b ctrl, (b = s.runcmdBuf ∨ b = Buf.zero udbBufSize) ∧
      s' = { s with runcmdBuf := b, udbRuncmdWaitCtrl := ctrl } := by
  obtain ⟨r₁, -, h⟩ := bind_eq_ok.mp h
  obtain ⟨r₂, -, h⟩ := bind_eq_ok.mp h
  obtain ⟨len, -, h⟩ := bind_eq_ok.mp h
  obtain ⟨data, -, h⟩ := bind_eq_ok.mp h
  obtain ⟨b, -, h⟩ := bind_eq_ok.mp h
  dsimp only at h
  -- The end is announced, and the buffer cleared, or the cursor has moved.
  split at h
  · exact ⟨_, _, .inr rfl, (pure_pair_eq_ok.mp h).1.symm⟩
  · exact ⟨_, _, .inl rfl, (pure_pair_eq_ok.mp h).1.symm⟩

/-- The first request of a pull changes its control block and the log, and calls the system. -/
private theorem udbDebugPullfileInit_frame
    (h : udbDebugPullfileInit os buf resp s = .ok (s', resp')) :
    ∃ ctrl rlog calls, s' = { s with
      udbPullfileCtrl := ctrl, rlog := rlog, dev := { s.dev with calls := calls } } := by
  obtain ⟨path, -, h⟩ := bind_eq_ok.mp h
  obtain ⟨s₁, hread, h⟩ := bind_eq_ok.mp h
  obtain ⟨r, -, h⟩ := bind_eq_ok.mp h
  obtain ⟨rfl, -⟩ := pure_pair_eq_ok.mp h
  unfold pullfileRead at hread
  split at hread
  · -- The file could not be opened.
    exact ⟨_, _, _, (Except.ok.inj hread).symm⟩
  · -- It was read into a block.
    obtain ⟨block, -, hread⟩ := bind_eq_ok.mp hread
    exact ⟨_, _, _, (Except.ok.inj hread).symm⟩

/-- Closing the file of a push is seen on the device only. -/
theorem pushfileClose_frame (s : Server) : ∃ dev, pushfileClose s = { s with dev := dev } := by
  unfold pushfileClose
  split
  · exact ⟨s.dev, rfl⟩
  · exact ⟨_, rfl⟩

/-- The stream that is open afterwards is that of the path, if it could be opened. -/
theorem udbDebugPushfileInit_frame (h : udbDebugPushfileInit os buf resp s = .ok (s', resp')) :
    ∃ path rlog dev, cstrAt buf 8 = .ok path ∧ s' = { s with
      udbPushfileCtrl := ⟨if os.fopenWrite path then some path else none⟩
      rlog := rlog
      dev := dev } := by
  obtain ⟨dev, hclose⟩ := pushfileClose_frame s
  unfold udbDebugPushfileInit at h
  -- Whatever was open before is closed first.
  rw [hclose] at h
  obtain ⟨path, hpath, h⟩ := bind_eq_ok.mp h
  split at h
  · rename_i hopen
    obtain ⟨fileLen, -, h⟩ := bind_eq_ok.mp h
    obtain ⟨r, -, h⟩ := bind_eq_ok.mp h
    obtain ⟨rfl, -⟩ := pure_pair_eq_ok.mp h
    exact ⟨path, _, _, hpath, by rw [if_pos hopen]; rfl⟩
  · rename_i hopen
    obtain ⟨r, -, h⟩ := bind_eq_ok.mp h
    obtain ⟨rfl, -⟩ := pure_pair_eq_ok.mp h
    exact ⟨path, _, _, hpath, by rw [if_neg hopen]; rfl⟩

/-- A chunk is written to the stream that is open. -/
theorem udbDebugPushfileProc_eq_ok :
    udbDebugPushfileProc os buf resp s = .ok (s', resp') ↔
      ∃ path data, s.udbPushfileCtrl.fp = some path ∧ procData s.udbProtSize buf = .ok data ∧
        resp.answer (ascii "PROCOK") s.udbProtSize = .ok resp' ∧
        s' = { s with dev := s.dev.append path (data.take (os.fwrite data)) } := by
  unfold udbDebugPushfileProc fwriteFp
  constructor
  · intro h
    obtain ⟨data, hdata, h⟩ := bind_eq_ok.mp h
    obtain ⟨s₁, hwrite, h⟩ := bind_eq_ok.mp h
    obtain ⟨r, hans, h⟩ := bind_eq_ok.mp h
    obtain ⟨rfl, rfl⟩ := pure_pair_eq_ok.mp h
    split at hwrite
    · -- `fwrite` to a null stream.
      cases hwrite
    · rename_i path hfp
      obtain rfl := Except.ok.inj hwrite
      exact ⟨path, data, hfp, hdata, hans, rfl⟩
  · rintro ⟨path, data, hfp, hdata, hans, rfl⟩
    simp only [hdata, ok_bind, hfp, hans, pure_eq_ok]

/-- The stream that is open is closed. -/
theorem udbDebugPushfileFini_eq_ok :
    udbDebugPushfileFini resp s = .ok (s', resp') ↔
      ∃ path, s.udbPushfileCtrl.fp = some path ∧
        resp.answer (ascii "FINIOK") s.udbProtSize = .ok resp' ∧
        s' = { s with udbPushfileCtrl := ⟨none⟩, dev := s.dev.close path } := by
  unfold udbDebugPushfileFini
  constructor
  · intro h
    split at h
    · -- `fclose` of a null stream.
      cases h
    · rename_i path hfp
      obtain ⟨r, hans, h⟩ := bind_eq_ok.mp h
      obtain ⟨rfl, rfl⟩ := pure_pair_eq_ok.mp h
      exact ⟨path, hfp, hans, rfl⟩
  · rintro ⟨path, hfp, hans, rfl⟩
    simp only [hfp, hans, ok_bind, pure_eq_ok]

/-- Storing a message changes the buffer of `msh` and its control block. -/
private theorem mshStore_frame {msg : Bytes} (h : mshStore msg resp s = .ok (s', resp')) :
    ∃ b ctrl, s' = { s with mshcmdBuf := b, udbMshcmdCtrl := ctrl } := by
  obtain ⟨b, -, h⟩ := bind_eq_ok.mp h
  obtain ⟨r, -, h⟩ := bind_eq_ok.mp h
  exact ⟨_, _, (pure_pair_eq_ok.mp h).1.symm⟩

/-- So does every `msh` command. -/
theorem udbDebugMsh_frame (h : udbDebugMsh buf resp s = .ok (s', resp')) :
    ∃ b ctrl, s' = { s with mshcmdBuf := b, udbMshcmdCtrl := ctrl } := by
  obtain ⟨⟨s₁, r⟩, hcmd, h⟩ := bind_eq_ok.mp h
  obtain ⟨rfl, -⟩ := pure_pair_eq_ok.mp h
  unfold mshCommand at hcmd
  split at hcmd
  · -- `help`
    obtain ⟨b, ctrl, rfl⟩ := mshStore_frame hcmd
    exact ⟨_, _, rfl⟩
  · split at hcmd
    · -- `log`
      obtain ⟨msg, -, hcmd⟩ := bind_eq_ok.mp hcmd
      obtain ⟨b, ctrl, rfl⟩ := mshStore_frame hcmd
      exact ⟨_, _, rfl⟩
    · -- Any other command stores nothing.
      exact ⟨_, _, (pure_pair_eq_ok.mp hcmd).1.symm⟩

/-- A thread step changes the controller of its service, the buffer, and who is alive. -/
private theorem threadStep_frame {i : Nat} {input : ThreadInput} (h : threadStep i input s = .ok s')
    :
    ∃ b ctrl workers rlog calls, s' = { s with
      runcmdBuf := b, udbRuncmdWaitCtrl := ctrl, workers := workers, rlog := rlog
      dev := { s.dev with calls := calls } } := by
  unfold threadStep at h
  split at h
  · -- The thread starts.
    obtain ⟨⟨s₁, w⟩, hstart, h⟩ := bind_eq_ok.mp h
    obtain ⟨-, rlog, calls, rfl⟩ := threadStart_eq hstart
    exact ⟨_, _, _, _, _, (Except.ok.inj h).symm⟩
  · -- It has read a line, and gives up or stores it.
    obtain ⟨⟨s₁, w⟩, hline, h⟩ := bind_eq_ok.mp h
    rcases threadLine_eq hline with ⟨-, rlog, rfl⟩ | ⟨-, b, -, rfl⟩
    · exact ⟨_, _, _, _, _, (Except.ok.inj h).symm⟩
    · exact ⟨_, _, _, _, _, (Except.ok.inj h).symm⟩
  · -- It has read the end of the output.
    exact ⟨_, _, _, _, _, (Except.ok.inj h).symm⟩
  · -- It leaves.
    exact ⟨_, _, _, _, _, (Except.ok.inj h).symm⟩
  · exact ⟨_, _, _, _, _, (Except.ok.inj h).symm⟩

/-! ## Parts -/

/-- The parts that the server's state falls into, besides `runcmd_buf`, which two services
    share. -/
inductive Part where
  | auth
  | runcmd
  | wait
  | pull
  | push
  | msh
  deriving DecidableEq, Repr

namespace Part

/-- The channels of the service that has the part. -/
def ids : Part → List UdbChanId
  | auth => [.auth]
  | runcmd => [.runCmd, .runCmdPullout]
  | wait => [.runCmdWait, .runCmdWaitPullout]
  | pull => [.pullFileInit, .pullFilePullout]
  | push => [.pushFileInit, .pushFileProc, .pushFileFini]
  | msh => [.mshCmd, .mshCmdPullout]

/-- Two states have the same part. -/
def Same (s t : Server) : Part → Prop
  | auth => s.udbAuthOk = t.udbAuthOk
  | runcmd => s.udbRuncmdCtrl = t.udbRuncmdCtrl
  | wait => s.udbRuncmdWaitCtrl = t.udbRuncmdWaitCtrl ∧ s.workers = t.workers
  | pull => s.udbPullfileCtrl = t.udbPullfileCtrl
  | push => s.udbPushfileCtrl = t.udbPushfileCtrl ∧ s.dev.files = t.dev.files
  | msh => s.udbMshcmdCtrl = t.udbMshcmdCtrl ∧ s.mshcmdBuf = t.mshcmdBuf

/-- A state has every part in common with itself. -/
theorem Same.refl (p : Part) (s : Server) : p.Same s s := by
  cases p with
  | auth | runcmd | pull => exact rfl
  | wait | push | msh => exact ⟨rfl, rfl⟩

end Part

/-- The channel byte is one of `ids`. -/
def OnChannel (ids : List UdbChanId) (cmd : Bytes) : Bool :=
  ids.any fun c => cmd[3]? == some c.toByte

/-- The event is one that may change the part. -/
def Part.touchedBy (p : Part) : Event → Bool
  | .request _ _ cmd => OnChannel p.ids cmd
  | .thread _ _ => p == .wait
  | .printf _ => false
  | .files _ => p == .push

/-- The byte of a channel is the one it was read from. -/
private theorem toByte_of_ofByte {b : UInt8} {c : UdbChanId} (h : UdbChanId.ofByte b = some c) :
    c.toByte = b := by
  have := List.find?_some h
  simpa using this

/-- The `switch` behind the authentication changes the part of the channel's service. -/
private theorem dispatch_frame {chanId : UInt8}
    (h : dispatch os chanId buf resp s = .ok (s', resp'))
    (p : Part) (hp : ∀ c ∈ p.ids, c.toByte ≠ chanId) : p.Same s' s := by
  -- In each branch the part whose channel it is cannot be `p`, and the handler's frame lemma says
  -- that the fields of the others are the old ones.
  have hno : ∀ c, UdbChanId.ofByte chanId = some c → c ∉ p.ids :=
    fun c hc hmem => hp c hmem (toByte_of_ofByte hc)
  unfold dispatch at h
  split at h
  · rename_i hc
    obtain ⟨cmd, res, rlog, calls, -, -, -, rfl⟩ := udbDebugRuncmd_cases h
    cases p <;> first | exact absurd (by decide) (hno _ hc) | exact rfl | exact ⟨rfl, rfl⟩
  · rename_i hc
    rcases handler_frame .runcmd h with rfl | ⟨o, rfl⟩ | rfl <;>
      cases p <;> first | exact absurd (by decide) (hno _ hc) | exact rfl | exact ⟨rfl, rfl⟩
  · rename_i hc
    obtain ⟨ctrl, workers, rlog, rfl⟩ := udbDebugRuncmdWait_frame h
    cases p <;> first | exact absurd (by decide) (hno _ hc) | exact rfl | exact ⟨rfl, rfl⟩
  · rename_i hc
    obtain ⟨b, ctrl, -, rfl⟩ := udbDebugRuncmdWaitPullout_frame h
    cases p <;> first | exact absurd (by decide) (hno _ hc) | exact rfl | exact ⟨rfl, rfl⟩
  · rename_i hc
    obtain ⟨ctrl, rlog, calls, rfl⟩ := udbDebugPullfileInit_frame h
    cases p <;> first | exact absurd (by decide) (hno _ hc) | exact rfl | exact ⟨rfl, rfl⟩
  · rename_i hc
    rcases handler_frame .pullFile h with rfl | ⟨o, rfl⟩ | rfl <;>
      cases p <;> first | exact absurd (by decide) (hno _ hc) | exact rfl | exact ⟨rfl, rfl⟩
  · rename_i hc
    obtain ⟨path, rlog, dev, -, rfl⟩ := udbDebugPushfileInit_frame h
    cases p <;> first | exact absurd (by decide) (hno _ hc) | exact rfl | exact ⟨rfl, rfl⟩
  · rename_i hc
    obtain ⟨path, data, -, -, -, rfl⟩ := udbDebugPushfileProc_eq_ok.mp h
    cases p <;> first | exact absurd (by decide) (hno _ hc) | exact rfl | exact ⟨rfl, rfl⟩
  · rename_i hc
    obtain ⟨path, -, -, rfl⟩ := udbDebugPushfileFini_eq_ok.mp h
    cases p <;> first | exact absurd (by decide) (hno _ hc) | exact rfl | exact ⟨rfl, rfl⟩
  · rename_i hc
    obtain ⟨b, ctrl, rfl⟩ := udbDebugMsh_frame h
    cases p <;> first | exact absurd (by decide) (hno _ hc) | exact rfl | exact ⟨rfl, rfl⟩
  · rename_i hc
    rcases handler_frame .msh h with rfl | ⟨o, rfl⟩ | rfl <;>
      cases p <;> first | exact absurd (by decide) (hno _ hc) | exact rfl | exact ⟨rfl, rfl⟩
  · -- `default:` only logs.
    obtain ⟨r, -, h⟩ := bind_eq_ok.mp h
    obtain ⟨rfl, -⟩ := pure_pair_eq_ok.mp h
    cases p <;> first | exact rfl | exact ⟨rfl, rfl⟩

/-- The channels whose handlers store into the buffer that two services share. -/
def fillIds : List UdbChanId := [.runCmd, .runCmdPullout, .runCmdWaitPullout]

/-- What the `switch` leaves in the shared buffer. -/
private theorem dispatch_runcmdBuf {chanId : UInt8}
    (h : dispatch os chanId buf resp s = .ok (s', resp')) :
    s'.runcmdBuf = s.runcmdBuf ∨ (∃ c ∈ fillIds, c.toByte = chanId) ∧
      ∃ res : RuncmdResult, s'.runcmdBuf = res.store s.runcmdBuf := by
  -- Only three handlers store into it, and each stores a whole result or clears it.
  unfold dispatch at h
  split at h
  · rename_i hc
    obtain ⟨cmd, res, rlog, calls, -, -, -, rfl⟩ := udbDebugRuncmd_cases h
    exact .inr ⟨⟨_, by decide, toByte_of_ofByte hc⟩, res, rfl⟩
  · rename_i hc
    rcases handler_frame .runcmd h with rfl | ⟨o, rfl⟩ | rfl
    · exact .inl rfl
    · exact .inl rfl
    · exact .inr ⟨⟨_, by decide, toByte_of_ofByte hc⟩, .failed, rfl⟩
  · obtain ⟨ctrl, workers, rlog, rfl⟩ := udbDebugRuncmdWait_frame h
    exact .inl rfl
  · rename_i hc
    obtain ⟨b, ctrl, rfl | rfl, rfl⟩ := udbDebugRuncmdWaitPullout_frame h
    · exact .inl rfl
    · exact .inr ⟨⟨_, by decide, toByte_of_ofByte hc⟩, .failed, rfl⟩
  · obtain ⟨ctrl, rlog, calls, rfl⟩ := udbDebugPullfileInit_frame h
    exact .inl rfl
  · rcases handler_frame .pullFile h with rfl | ⟨o, rfl⟩ | rfl <;> exact .inl rfl
  · obtain ⟨path, rlog, dev, -, rfl⟩ := udbDebugPushfileInit_frame h
    exact .inl rfl
  · obtain ⟨path, data, -, -, -, rfl⟩ := udbDebugPushfileProc_eq_ok.mp h
    exact .inl rfl
  · obtain ⟨path, -, -, rfl⟩ := udbDebugPushfileFini_eq_ok.mp h
    exact .inl rfl
  · obtain ⟨b, ctrl, rfl⟩ := udbDebugMsh_frame h
    exact .inl rfl
  · rcases handler_frame .msh h with rfl | ⟨o, rfl⟩ | rfl <;> exact .inl rfl
  · obtain ⟨r, -, h⟩ := bind_eq_ok.mp h
    obtain ⟨rfl, -⟩ := pure_pair_eq_ok.mp h
    exact .inl rfl

/-- The packet is for none of the channels. -/
theorem onChannel_eq_false {ids : List UdbChanId} {cmd : Bytes} :
    OnChannel ids cmd = false ↔ ∀ c ∈ ids, cmd[3]? ≠ some c.toByte := by
  simp [OnChannel]

/-- The packet is for one of the channels. -/
theorem onChannel_eq_true {ids : List UdbChanId} {cmd : Bytes} :
    OnChannel ids cmd = true ↔ ∃ c ∈ ids, cmd[3]? = some c.toByte := by
  simp [OnChannel]

/-- A request of the session of `RUN_CMD` starts a command or asks for output. -/
theorem channel_of_runcmd {cmd : Bytes} (h : OnChannel Part.runcmd.ids cmd = true) :
    cmd[3]? = some UdbChanId.runCmd.toByte ∨ cmd[3]? = some UdbChanId.runCmdPullout.toByte := by
  simpa [Part.ids] using onChannel_eq_true.mp h

/-- So does one of the session of `RUN_CMD_WAIT`. -/
theorem channel_of_wait {cmd : Bytes} (h : OnChannel Part.wait.ids cmd = true) :
    cmd[3]? = some UdbChanId.runCmdWait.toByte ∨
      cmd[3]? = some UdbChanId.runCmdWaitPullout.toByte := by
  simpa [Part.ids] using onChannel_eq_true.mp h

/-- Three channels fill the buffer of the command. -/
theorem channel_of_fill {cmd : Bytes} (h : OnChannel fillIds cmd = true) :
    cmd[3]? = some UdbChanId.runCmd.toByte ∨ cmd[3]? = some UdbChanId.runCmdPullout.toByte ∨
      cmd[3]? = some UdbChanId.runCmdWaitPullout.toByte := by
  simpa [fillIds] using onChannel_eq_true.mp h

/-- The protocol size is in no part. -/
theorem Part.Same.setProtSize {p : Part} {s t : Server} {layer : UInt8}
    (h : p.Same s (t.setProtSize layer)) : p.Same s t := by
  cases p <;> exact h

/-- A request changes the part of the service it is for. -/
theorem request_frame {layer : UInt8} {cmd reply : Bytes} (p : Part)
    (hp : OnChannel p.ids cmd = false) (h : request os layer cmd s = .ok (s', reply)) :
    p.Same s' s := by
  rw [onChannel_eq_false] at hp
  obtain ⟨⟨s₁, r⟩, hbridge, h⟩ := bind_eq_ok.mp h
  obtain ⟨rfl, -⟩ := pure_pair_eq_ok.mp h
  unfold udbDebugBridge at hbridge
  dsimp only at hbridge
  split at hbridge
  · cases hbridge
  · rename_i chanId hchan
    rw [udbCmdChannelIdOffset] at hchan
    have hne : ∀ c ∈ p.ids, c.toByte ≠ chanId := by
      rintro c hc rfl
      exact hp c hc hchan
    apply Part.Same.setProtSize
    split at hbridge
    · -- The key changes the flag only.
      rename_i hauth
      rw [udbDebugAuth_state hbridge]
      cases p with
      | auth => exact absurd hauth.symm (hne .auth List.mem_cons_self)
      | runcmd | pull => exact rfl
      | wait | push | msh => exact ⟨rfl, rfl⟩
    · split at hbridge
      · exact dispatch_frame hbridge p hne
      · -- Without the flag nothing is done.
        obtain ⟨rfl, -⟩ := pure_pair_eq_ok.mp hbridge
        exact .refl p _

/-- What a request leaves in the shared buffer. -/
theorem request_runcmdBuf {layer : UInt8} {cmd reply : Bytes}
    (h : request os layer cmd s = .ok (s', reply)) :
    s'.runcmdBuf = s.runcmdBuf ∨ OnChannel fillIds cmd = true ∧
      ∃ res : RuncmdResult, s'.runcmdBuf = res.store s.runcmdBuf := by
  obtain ⟨⟨s₁, r⟩, hbridge, h⟩ := bind_eq_ok.mp h
  obtain ⟨rfl, -⟩ := pure_pair_eq_ok.mp h
  unfold udbDebugBridge at hbridge
  dsimp only at hbridge
  split at hbridge
  · cases hbridge
  · rename_i chanId hchan
    split at hbridge
    · -- The key stores nothing there.
      rw [udbDebugAuth_state hbridge]
      exact .inl rfl
    · split at hbridge
      · -- With the key the handler of the channel runs, without it none does.
        have hbuf := dispatch_runcmdBuf hbridge
        rw [show (s.setProtSize layer).runcmdBuf = s.runcmdBuf from rfl] at hbuf
        refine hbuf.imp_right fun hfill => ?_
        obtain ⟨⟨c, hc, rfl⟩, hres⟩ := hfill
        exact ⟨onChannel_eq_true.mpr ⟨c, hc, hchan⟩, hres⟩
      · obtain ⟨rfl, -⟩ := pure_pair_eq_ok.mp hbridge
        exact .inl rfl

/-- No handler sets the protocol size. -/
private theorem dispatch_protSize {chanId : UInt8}
    (h : dispatch os chanId buf resp s = .ok (s', resp')) : s'.udbProtSize = s.udbProtSize := by
  unfold dispatch at h
  split at h
  · -- No handler stores to the protocol size, one case for each channel.
    obtain ⟨cmd, res, rlog, calls, -, -, -, rfl⟩ := udbDebugRuncmd_cases h
    rfl
  · rcases handler_frame .runcmd h with rfl | ⟨o, rfl⟩ | rfl <;> rfl
  · obtain ⟨ctrl, workers, rlog, rfl⟩ := udbDebugRuncmdWait_frame h
    rfl
  · obtain ⟨b, ctrl, -, rfl⟩ := udbDebugRuncmdWaitPullout_frame h
    rfl
  · obtain ⟨ctrl, rlog, calls, rfl⟩ := udbDebugPullfileInit_frame h
    rfl
  · rcases handler_frame .pullFile h with rfl | ⟨o, rfl⟩ | rfl <;> rfl
  · obtain ⟨path, rlog, dev, -, rfl⟩ := udbDebugPushfileInit_frame h
    rfl
  · obtain ⟨path, data, -, -, -, rfl⟩ := udbDebugPushfileProc_eq_ok.mp h
    rfl
  · obtain ⟨path, -, -, rfl⟩ := udbDebugPushfileFini_eq_ok.mp h
    rfl
  · obtain ⟨b, ctrl, rfl⟩ := udbDebugMsh_frame h
    rfl
  · rcases handler_frame .msh h with rfl | ⟨o, rfl⟩ | rfl <;> rfl
  · obtain ⟨r, -, h⟩ := bind_eq_ok.mp h
    obtain ⟨rfl, -⟩ := pure_pair_eq_ok.mp h
    rfl

/-- So every request leaves the size of its own layer behind. -/
theorem request_protSize {layer : UInt8} {cmd reply : Bytes}
    (h : request os layer cmd s = .ok (s', reply)) : s'.udbProtSize = layerProtSize layer := by
  obtain ⟨⟨s₁, r⟩, hbridge, h⟩ := bind_eq_ok.mp h
  obtain ⟨rfl, -⟩ := pure_pair_eq_ok.mp h
  unfold udbDebugBridge at hbridge
  dsimp only at hbridge
  split at hbridge
  · cases hbridge
  · split at hbridge
    · -- `udb_debug_bridge` sets the size before anything else, and no handler changes it.
      rw [udbDebugAuth_state hbridge]
      rfl
    · split at hbridge
      · exact dispatch_protSize hbridge
      · obtain ⟨rfl, -⟩ := pure_pair_eq_ok.mp hbridge
        rfl

/-- An event leaves the parts alone that it does not touch. -/
theorem exec_frame {e : Event} {o : Option Bytes} (p : Part) (hp : p.touchedBy e = false)
    (h : exec e s = .ok (s', o)) : p.Same s' s := by
  cases e with
  | request os layer cmd =>
    obtain ⟨reply, hreq, -⟩ := exec_request_eq_ok.mp h
    exact request_frame p hp hreq
  | thread i input =>
    obtain ⟨hthread, -⟩ := exec_thread_eq_ok.mp h
    -- A thread changes the buffer, its own controller, the workers and the log.
    obtain ⟨b, ctrl, workers, rlog, calls, rfl⟩ := threadStep_frame hthread
    cases p with
    | wait => cases hp
    | auth | runcmd | pull => exact rfl
    | push | msh => exact ⟨rfl, rfl⟩
  | printf text =>
    obtain ⟨rfl, -⟩ := pure_pair_eq_ok.mp h
    cases p with
    | auth | runcmd | pull => exact rfl
    | wait | push | msh => exact ⟨rfl, rfl⟩
  | files files =>
    obtain ⟨rfl, -⟩ := pure_pair_eq_ok.mp h
    cases p with
    | push => cases hp
    | auth | runcmd | pull => exact rfl
    | wait | msh => exact ⟨rfl, rfl⟩

/-- Nothing takes an authentication back. -/
theorem exec_auth {e : Event} {o : Option Bytes} (hauth : s.udbAuthOk = true)
    (h : exec e s = .ok (s', o)) : s'.udbAuthOk = true := by
  by_cases hon : Part.auth.touchedBy e = true
  · cases e with
    | request os layer cmd =>
      -- Only the channel of the key touches the flag, and it never clears it.
      obtain ⟨c, hc, hchan⟩ := onChannel_eq_true.mp hon
      obtain rfl := List.mem_singleton.mp hc
      obtain ⟨⟨s₁, reply⟩, hreq, h⟩ := bind_eq_ok.mp h
      obtain ⟨rfl, -⟩ := pure_pair_eq_ok.mp h
      obtain ⟨⟨s₂, r⟩, hbridge, hreq⟩ := bind_eq_ok.mp hreq
      obtain ⟨rfl, -⟩ := pure_pair_eq_ok.mp hreq
      simp only [udbDebugBridge, udbCmdChannelIdOffset, hchan, if_true] at hbridge
      rw [udbDebugAuth_state hbridge]
      show (s.udbAuthOk || _) = true
      rw [hauth, Bool.true_or]
    | thread | printf | files => cases hon
  · exact (exec_frame .auth (Bool.eq_false_iff.mpr hon) h).trans hauth

/-- The last byte of the shared buffer is never overwritten by anything but a terminator. -/
theorem exec_nul {e : Event} {o : Option Bytes} (hnul : s.runcmdBuf.bytes.getLast? = some 0)
    (h : exec e s = .ok (s', o)) : s'.runcmdBuf.bytes.getLast? = some 0 := by
  cases e with
  | request os layer cmd =>
    obtain ⟨reply, hreq, -⟩ := exec_request_eq_ok.mp h
    rcases request_runcmdBuf hreq with heq | ⟨-, res, heq⟩
    · rw [heq, hnul]
    · rw [heq]
      exact res.getLast?_store hnul
  | thread i input =>
    obtain ⟨hthread, -⟩ := exec_thread_eq_ok.mp h
    unfold threadStep at hthread
    split at hthread
    · obtain ⟨⟨s₂, w⟩, hstart, hthread⟩ := bind_eq_ok.mp hthread
      obtain ⟨-, rlog, calls, rfl⟩ := threadStart_eq hstart
      rw [← Except.ok.inj hthread]
      exact hnul
    · obtain ⟨⟨s₂, w⟩, hline, hthread⟩ := bind_eq_ok.mp hthread
      rw [← Except.ok.inj hthread]
      -- A line is stored with its terminator, also where that is the last byte.
      rcases threadLine_eq hline with ⟨-, rlog, rfl⟩ | ⟨-, b, hcpy, rfl⟩
      · exact hnul
      · exact Buf.getLast?_memcpy hcpy hnul (.inr (by simp))
    · rw [← Except.ok.inj hthread]
      exact hnul
    · rw [← Except.ok.inj hthread]
      exact hnul
    · rw [← Except.ok.inj hthread]
      exact hnul
  | printf text =>
    obtain ⟨rfl, -⟩ := pure_pair_eq_ok.mp h
    exact hnul
  | files files =>
    obtain ⟨rfl, -⟩ := pure_pair_eq_ok.mp h
    exact hnul

end Udb.Spec
